import ArenaScript.Proofs.Evaluate.Reading

/-!
# Dry runs

A dry run passes over a stretch of the text without evaluating it.  Whatever the text is,
it comes to an end, after a number of steps that is linear in what is left of the text.
The engine stays as it was, up to the place in the text and the failures that are noted, and
at the corresponding place of a copy of the text a dry run does the same.

Main results:

- `Production.dryRun_kept`: all routines of a dry run keep to the budget.
- `Engine.dry_run_is_free_of_effects`: statements and expressions in a dry run.
- `Engine.dry_run_ends`: statements and blocks in a dry run.
-/

namespace ArenaScript

open Engine Production

/-- A routine that gets by with its credit pays what its production owes. -/
theorem Routine.Still.affords {d : Modes} {sure : Prop} {q : Production} {e : Engine} {A : Assertion}
    {c : Nat} (still : Still d q.holds q.values A q q.routine (q.twin d.copy).routine)
    (stands : e.Stands d.own q.holds q.values sure) (starts : sure → A e.cursor c) :
    (q.routine e).Affords (.dryRun d) sure ((Budget.dryRun d).Pays sure q e) c := by
  refine (still sure e c stands starts).mono fun ⟨next, e₁⟩ rest course => ?_
  -- the copy of the routine ends in the same way
  have mirrors : ∀ yes : sure, ∀ (t : Tie) e' (o' : Value × Engine), e'.mode = d.copy → t.Twin e e' →
      (Routine.call (q.twin d.copy) e').Ends o' → e₁.Before t.last → ∃ e₁',
        e'.Passes e₁' ∧ t.Near e₁.cursor e₁'.cursor ∧ Yields o' (next.twin d.copy, e₁') := by
    intro yes t e' o' mode' twin ends way
    obtain ⟨⟨next', e₁'⟩, ends, yields⟩ := performs_iff_ends.mp (Progress.ends_call.mp ends)
    obtain ⟨passes', near, same⟩ := course.mirrors yes t e' (next', e₁') mode' twin ends way
    obtain rfl : next' = next.twin d.copy := same
    exact ⟨e₁', passes', near, yields⟩
  cases next with
  | value v =>
    refine ⟨⟨course.passes, fun yes => ⟨(course.here yes).1, fun _ t e' o' mode' twin ends way =>
      ?_⟩⟩,
      fun yes => ?_⟩
    · obtain ⟨e₁', passes', near, yields⟩ := mirrors yes t e' o' mode' twin ends way
      obtain rfl : o' = (v, e₁') := yields
      exact ⟨passes', near, rfl⟩
    · show (if v.isError then 0 else _) ≤ rest
      split
      · exact Nat.zero_le rest
      · next fine => exact (course.here yes).2.2 (Bool.eq_false_iff.mpr fine)
  | goOn q' =>
    have stands₁ := stands.passes course.passes
    have enough : sure → (q'.start e₁.cursor).credit + q'.share + 1 + (q.gain - q'.gain) ≤ rest :=
      fun yes => (course.here yes).2.2.2
    refine ⟨⟨⟨stands₁.mode, fun yes => Nat.le_trans (course.here yes).2.1 (stands₁.held yes),
      stands₁.legible, fun yes => (course.here yes).1⟩, .inl course.fit⟩, fun yes => ?_,
      fun o owed =>
        ⟨⟨course.passes.trans owed.1, fun yes => ⟨(owed.2 yes).1, fun _ t e' o' mode' twin ends way
          => ?_⟩⟩,
          fun yes => ?_⟩⟩
    · exact Nat.le_trans (Nat.le_add_right _ _) (enough yes)
    · have before := owed.1.before (stands₁.legible yes).inside way
      obtain ⟨e₁', passes', near, yields⟩ := mirrors yes t e' o' mode' twin ends before
      obtain ⟨passes₁', rest⟩ := (owed.2 yes).2 course.fit t e₁' o' (passes'.mode_eq.trans mode')
        (twin.passes course.passes passes' near) (Progress.ends_call.mpr yields) way
      exact ⟨passes'.trans passes₁', rest⟩
    · have enough := enough yes
      have stop : q'.stop = q.stop := (course.here yes).2.2.1
      show (q'.start e₁.cursor).credit + q'.share + 1
          + (if o.1.isError then 0 else (q.stop o.2.cursor).credit + q.gain)
        ≤ rest + if o.1.isError then 0 else (q'.stop o.2.cursor).credit + q'.gain
      rw [stop]
      split <;> omega

namespace Production

/-- All routines that a dry run may come to keep to the budget. -/
theorem dryRun_kept {d : Modes} (both : d.own.dry = true → d.copy.dry = true) :
    (Budget.dryRun d).Kept := by
  rintro sure q e ⟨stands, reads | ⟨marks, rfl, dry, here⟩⟩
  case inr =>
    rw [routine_rounds dry here]
    have plain : Value.undefined.isConstant = true := by decide
    exact .finished ⟨⟨.refl e, fun _ => ⟨.constant plain _, nofun⟩⟩, fun _ =>
      Nat.le_of_eq (if_neg (Bool.eq_false_iff.mp (Value.isError_of_isConstant plain)))⟩
  have lasts : q.start = id → Routine.Still d q.holds q.values (Has q.share) q q.routine
      (q.twin d.copy).routine → (q.routine e).Affords (.dryRun d) sure
        ((Budget.dryRun d).Pays sure q e)
        ((Budget.dryRun d).before q e) := fun start still =>
    still.affords stands fun _ => by
      show _ ≤ (q.start e.cursor).credit + q.share
      rw [start]
      exact Nat.le_refl _
  have dried : d.own.dry = true → d.Dry := fun dry => ⟨dry, both dry⟩
  cases q with
  | expression => exact lasts rfl (.expression (dried reads))
  | assignment => exact lasts rfl (.assignment (dried reads))
  | assignmentRest left => exact lasts rfl (.assignmentRest (dried reads) left)
  | conditional => exact lasts rfl (.conditional (dried reads))
  | logical op => exact lasts rfl (.logical (dried reads) op)
  | logicalRest op v mode =>
    obtain ⟨dry, rfl⟩ := reads
    exact lasts rfl (.logicalRest (dried dry) op v)
  | binary level => exact lasts rfl (.binary (dried reads) level)
  | binaryRest level left => exact lasts rfl (.binaryRest (dried reads) level left)
  | unary => exact lasts rfl (.unary (dried reads))
  | access => exact lasts rfl (.access (dried reads))
  | accessRest v => exact lasts rfl (.accessRest (dried reads) v)
  | members => exact lasts rfl (.members (dried reads))
  | parameters afterComma => exact lasts rfl (.parameters afterComma)
  | argumentList afterComma => exact lasts rfl (.argumentList (dried reads) afterComma)
  | bindParameters pos length => cases reads
  | pushArguments index count => cases reads
  | statement => exact lasts rfl (.statement (dried reads))
  | block inScope =>
    obtain ⟨dry, rfl⟩ := reads
    exact (Routine.Lasts.block (dried dry)).affords stands fun _ => Nat.le_refl _
  | blockRest v => exact lasts rfl (.blockRest (dried reads) v)
  | bindings execute =>
    obtain ⟨dry, rfl⟩ := reads
    exact lasts rfl (.bindings (dried dry))
  | rounds mode marks => cases reads
  | script v => cases reads
  | evaluate text => cases reads

end Production

namespace Engine

variable {e : Engine} {q : Production}

/-- In a dry run a statement or an expression, however it ends, leaves the engine
undisturbed.  All the way no statement collects, no function is entered, no
argument is passed to a native and no other text is evaluated. -/
theorem dry_run_is_free_of_effects {e : Engine} (dry : e.mode.dry = true) {q : Production}
    (reads : q = .statement ∨ q = .expression) :
    (∀ o, q.Performs e o → e.Undisturbed o.2)
      ∧ ∀ q' e', q.Within e q' e' → collectIfDue e' = .ok ((), e')
        ∧ (∀ pos length, q' ≠ .bindParameters pos length)
        ∧ (∀ index count, q' ≠ .pushArguments index count)
        ∧ ∀ text, q' ≠ .evaluate text := by
  have kept := (dryRun_kept (d := ⟨e.mode, e.mode⟩) id).contract False
  have needs : ((Budget.dryRun ⟨e.mode, e.mode⟩).contract False).needs q e := by
    refine ⟨⟨rfl, nofun, nofun, nofun⟩, .inl ?_⟩
    rcases reads with rfl | rfl <;> exact dry
  refine ⟨fun o performs => (kept.owes needs performs).1.undisturbed, fun q' e' within => ?_⟩
  obtain ⟨stands, reads'⟩ := kept.needs needs within
  refine ⟨?_, ?_, ?_, ?_⟩
  · show (if !e'.mode.dry && _ then collectNow else pure ()) e' = _
    rw [stands.mode, dry]
    rfl
  · rintro pos length rfl
    exact reads'.elim id nofun
  · rintro index count rfl
    exact reads'.elim id nofun
  · rintro text rfl
    exact reads'.elim id nofun

/-- An engine that passes over a loop with a call in it. -/
def passing : Engine :=
  { initial 64 with
    mode := { dry := true }
    cursor := .ofText "for(;;)f('a'+x);".toUTF8 }

/-- The endless loop with its call and its concatenation is passed over without
any effect. -/
theorem dry_loop_is_passed_over : passing.mode.dry = true
    ∧ ∃ o, Production.statement.Performs passing o ∧ o.1.isError = false
      ∧ o.2.cursor.pos = 16 ∧ passing.Undisturbed o.2 := by
  have run : ((Production.statement.perform 30 passing).map
      fun o => (o.1.isError, o.2.cursor.pos)).toOption = some (false, 16) := by
    decide +kernel
  cases outcome : Production.statement.perform 30 passing with
  | error h =>
    rw [outcome] at run
    cases run
  | ok o =>
    rw [outcome] at run
    obtain ⟨fine, place⟩ := Prod.mk.inj (Option.some.inj run)
    exact ⟨rfl, o, ⟨30, outcome⟩, fine, place,
      (dry_run_is_free_of_effects rfl (.inl rfl)).1 o ⟨30, outcome⟩⟩

/-- A dry run passes over a stretch of the text. -/
theorem dry_run_passes (reads : q.ReadsIn e.mode)
    {o : Value × Engine} (performs : q.Performs e o) : e.Passes o.2 :=
  (((dryRun_kept (d := ⟨e.mode, e.mode⟩) id).contract False).owes
    ⟨⟨rfl, nofun, nofun, nofun⟩, .inl reads⟩ performs).1

/-- An expression in a dry run comes to a value that says where its text ends. -/
theorem dry_run_settles (dry : e.mode.dry = true) (legible : e.Legible)
    {o : Value × Engine} (performs : Production.expression.Performs e o) :
    o.1.Settled o.2.cursor := by
  have needs : ((Budget.dryRun ⟨e.mode, e.mode⟩).contract True).needs .expression e :=
    ⟨⟨rfl, fun _ => Nat.zero_le _, fun _ => legible, fun _ => nofun⟩, .inl dry⟩
  have owed := ((dryRun_kept id).contract True).owes needs performs
  exact (owed.2 trivial).1

/-- The steps that a dry run may take for what is left of its text. -/
def dryRunBound (left : Nat) : Nat := 32 * left + 59

theorem credit_le_bound {k : Cursor} : k.credit + 27 ≤ dryRunBound (k.length - k.pos) := by
  simp only [Cursor.credit, Cursor.left, dryRunBound]
  split <;> omega

/-- A statement or a block in a dry run, which has no scope of its own, comes to an
outcome, whatever the text is and whichever token is the current one, used or not.
The steps that it takes are bounded by a linear function of the bytes left. -/
theorem dry_run_ends {e : Engine} (dry : e.mode.dry = true) (legible : e.Legible)
    {q : Production} (reads : q = .statement ∨ q = .block false) :
    ∃ o, q.Performs e o ∧ ∀ steps, dryRunBound (e.cursor.length - e.cursor.pos) ≤ steps →
      Machine.run steps (q.routine e) [] = .ok o := by
  have needs : (Budget.dryRun ⟨e.mode, e.mode⟩).needs True q e := by
    rcases reads with rfl | rfl
    · exact ⟨⟨rfl, fun _ => Nat.zero_le _, fun _ => legible, fun _ => nofun⟩, .inl dry⟩
    · exact ⟨⟨rfl, fun _ => Nat.zero_le _, fun _ => legible, fun _ => nofun⟩, .inl ⟨dry, rfl⟩⟩
  have small : (Budget.dryRun ⟨e.mode, e.mode⟩).before q e
      < dryRunBound (e.cursor.length - e.cursor.pos) := by
    have bound := credit_le_bound (k := e.cursor)
    have used := e.cursor.credit_use_le
    rcases reads with rfl | rfl
    · show e.cursor.credit + 21 < _
      omega
    · show e.cursor.use.credit + 26 < _
      omega
  obtain ⟨n, o, takes, -, le⟩ := (dryRun_kept id).takes needs
  exact ⟨o, takes.performs, fun steps enough => takes.run_eq (by omega)⟩

/-- An engine in the middle of a text that fits no grammar, where a semicolon stands
for the end of a loop. -/
def stranded : Engine :=
  { initial 64 with
    mode := { dry := true }
    cursor := { Cursor.ofText "for(;;)a f(\x7bb:if(c?function(d)\x7be".toUTF8 with
      pos := 8
      token := .semicolon
      consumed := false } }

/-- The rest of the text is passed over as a block all the same. -/
theorem stranded_dry_run_ends : stranded.mode.dry = true ∧ stranded.Legible
    ∧ ∃ o, (Production.block false).Performs stranded o ∧ ∀ steps, 827 ≤ steps →
      Machine.run steps ((Production.block false).routine stranded) [] = .ok o :=
  have legible : stranded.Legible := ⟨by decide, by decide, by decide, by decide⟩
  ⟨rfl, legible, dry_run_ends rfl legible (.inr rfl)⟩

end Engine

end ArenaScript
