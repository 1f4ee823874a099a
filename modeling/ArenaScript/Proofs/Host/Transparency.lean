import Mathlib.Data.List.Forall2
import ArenaScript.Proofs.Host.Watching
import ArenaScript.Proofs.Lockstep.Rendering

/-!
# Collections are transparent

Two engines over blocks of one length that differ in when they collect evaluate
the same texts.  Their arenas differ from the first collection on: entities stand
elsewhere, and garbage that one engine has freed the other one still has.  Yet as
long as both have enough memory they agree in all that can be seen, the results
of the texts and the properties of the global scope.

Main definitions:

- `Engine.RunsThrough`: texts are evaluated in order, with enough memory.
- `Engine.ShowSame`: outcomes that look the same.

Main results:

- `Lockstep.Alike.evaluatedTogether`: engines that agree still do after a text.
- `Engine.collection_is_transparent`: all texts of a run.
-/

namespace ArenaScript

namespace Engine

/-- Texts are evaluated one after the other, each to its end, and the engine does
not run out of memory on the way. -/
inductive RunsThrough : Engine → List ByteArray → List (Value × Engine) → Prop
  | nil (e : Engine) : RunsThrough e [] []
  | cons {e : Engine} {text : ByteArray} {o : Value × Engine} {texts : List ByteArray}
      {outcomes : List (Value × Engine)} (performs : (Production.evaluate text).Performs e o)
      (enough : ¬ (Production.evaluate text).RunsOut e) (rest : RunsThrough o.2 texts outcomes) :
      RunsThrough e (text :: texts) (o :: outcomes)

/-- Two engines show their values by one text. -/
def ShowSameText (e e' : Engine) (v v' : Value) : Prop :=
  ∃ text, render v e = .ok (text, e) ∧ render v' e' = .ok (text, e')

/-- Two outcomes cannot be told apart: the results have one text, and so have the
global scopes.  Errors are the same, with the same messages. -/
structure ShowSame (o o' : Value × Engine) : Prop where
  result : ShowSameText o.2 o'.2 o.1 o'.1
  globals : ShowSameText o.2 o'.2 (.ref .object 0) (.ref .object 0)
  isError : o.1.isError = o'.1.isError
  error : o.1.isError = true → o.1 = o'.1 ∧ o.2.log = o'.2.log

end Engine

namespace Lockstep

variable {w : World Bool} {s : Standing Bool} {c : Current} {e : Bool → Engine}
  {o : Bool → Value × Engine}

/-- Two engines that agree still do after a text, unless one of them runs out of
memory. -/
theorem Alike.evaluatedTogether {limit : Bool → UInt32} (alike : Alike w (.idle limit) c e)
    {text : ByteArray}
    (performs : ∀ i, (Production.evaluate text).Performs (e i) (o i))
    (enough : ∀ i, ¬ (Production.evaluate text).RunsOut (e i)) :
    ∃ (w' : World Bool) (c' : Current) (tag : Tag), Alike w' (.idle limit) c' (fun i => (o i).2)
      ∧ w'.Related tag (fun i => (o i).1) ∧ tag.IsPlain := by
  have several : ¬ Subsingleton Bool := fun one => absurd (one.elim true false) (by decide)
  choose bound performs using performs
  have larger : ∀ i, bound i ≤ max (bound true) (bound false)
    | true => Nat.le_max_left _ _
    | false => Nat.le_max_right _ _
  have both : ∀ i, (Production.evaluate text).perform (max (bound true) (bound false)) (e i)
      = .ok (o i) := fun i => by
    rw [Production.perform_of_le (larger i) (performs i ▸ settled_ok _), performs i]
  obtain ⟨w', s', c', tag, v, e', eq, alike', rfl, -, related, plain, -⟩ :=
    answers _ (.evaluateAny text) alike
      (fun i => ⟨fun hosted => absurd hosted.lone several, fun _ => enough i, fun _ _ _ => trivial⟩)
      both
  simp only [eq]
  exact ⟨w', c', tag, alike', related, plain⟩

/-- Outcomes of engines that agree look the same. -/
theorem Alike.showSame (alike : Alike w s c fun i => (o i).2) {tag : Tag}
    (related : w.Related tag fun i => (o i).1) (plain : tag.IsPlain) :
    Engine.ShowSame (o true) (o false) where
  result := by
    obtain ⟨text, shown⟩ := alike.render related plain
    exact ⟨text, shown true, shown false⟩
  globals := by
    have globals : w.Related (.object []) fun _ => .ref .object 0 :=
      ⟨fun _ => 0, alike.fits.matched.origin, fun _ => rfl⟩
    obtain ⟨text, shown⟩ := alike.render globals ⟨by decide, by decide⟩
    exact ⟨text, shown true, shown false⟩
  isError := (related.isError true).trans (related.isError false).symm
  error := by
    intro error
    rw [related.isError true, Tag.isError, beq_iff_eq] at error
    obtain ⟨x, -, eq⟩ := related.eq_of_not_entity (by rw [error]; rfl)
    exact ⟨(eq true).trans (eq false).symm, (alike.log true).trans (alike.log false).symm⟩

/-- Runs of engines that agree look the same, text by text. -/
theorem Alike.runsThrough {limit : Bool → UInt32} (alike : Alike w (.idle limit) c e)
    {texts : List ByteArray}
    {outcomes outcomes' : List (Value × Engine)} (run : (e true).RunsThrough texts outcomes)
    (run' : (e false).RunsThrough texts outcomes') :
    List.Forall₂ Engine.ShowSame outcomes outcomes' := by
  induction texts generalizing w c e outcomes outcomes' with
  | nil =>
    cases run
    cases run'
    exact .nil
  | cons text texts ih =>
    cases run with
    | @cons _ _ o _ _ performs enough rest =>
      cases run' with
      | @cons _ _ o' _ _ performs' enough' rest' =>
        let both : Bool → Value × Engine := fun i => if i then o else o'
        obtain ⟨w', c', tag, alike', related, plain⟩ :=
          alike.evaluatedTogether (o := both) (Bool.rec performs' performs)
            (Bool.rec enough' enough)
        exact .cons (alike'.showSame related plain) (ih alike' rest rest')

end Lockstep

namespace Engine

/-- Two engines made alike but for when they collect evaluate the same texts.  If
both come to the end of all texts without running out of memory, they show the
same after each of them. -/
theorem collection_is_transparent {length : Nat} {settings : List Setting} {e : Engine}
    (small : length ≤ 2 ^ 29) (made : create? length settings = some e) (t t' : UInt32)
    {texts : List ByteArray} {outcomes outcomes' : List (Value × Engine)}
    (run : RunsThrough { e with threshold := t } texts outcomes)
    (run' : RunsThrough { e with threshold := t' } texts outcomes') :
    List.Forall₂ ShowSame outcomes outcomes' := by
  obtain ⟨room, threshold, maxDepth, tracing, eq⟩ := create?_eq small made
  subst eq
  let thresholds : Bool → UInt32
    | true => t
    | false => t'
  have alike := Lockstep.Alike.initial Lockstep.unfollowed small room thresholds maxDepth
    fun _ => tracing
  exact alike.runsThrough run run'

end Engine

/-! ## A run with garbage -/

/-- The failure recorded last is not one for want of memory. -/
def ErrorLog.notFull? (log : ErrorLog) : Bool :=
  log.slots[ErrorLog.slot log.count]?.any fun message => !decide
    (message = Failure.outOfMemory.message)

theorem ErrorLog.not_justFull {log : ErrorLog} (clear : log.notFull? = true) : ¬ log.JustFull := by
  rintro ⟨before, rfl⟩
  simp only [notFull?, record, Array.getElem?_setIfInBounds_self] at clear
  split at clear <;> simp at clear

namespace Engine

/-- The outcomes of texts, if memory is enough within a bound. -/
def through? (bound : Nat) : List ByteArray → Engine → Option (List (Value × Engine))
  | [], _ => some []
  | text :: texts, e =>
    match Production.watch (fun _ e => e.log.notFull?) (fun o => o.2.log.notFull?) bound
        (.evaluate text) e with
    | some o => (through? bound texts o.2).map (o :: ·)
    | none => none

theorem runsThrough_of_through? {bound : Nat} {texts : List ByteArray} {e : Engine}
    {outcomes : List (Value × Engine)} (through : through? bound texts e = some outcomes) :
    e.RunsThrough texts outcomes := by
  induction texts generalizing e outcomes with
  | nil =>
    cases through
    exact .nil e
  | cons text texts ih =>
    simp only [through?] at through
    cases watched : Production.watch (fun _ e => e.log.notFull?) (fun o => o.2.log.notFull?) bound
        (.evaluate text) e with
    | none => simp only [watched, reduceCtorEq] at through
    | some o =>
      simp only [watched, Option.map_eq_some_iff] at through
      obtain ⟨rest, through, rfl⟩ := through
      refine .cons (Production.performs_of_watch watched).1 ?_ (ih through)
      rintro ⟨q, e', within, full⟩
      obtain ⟨start, ends⟩ := Production.good_of_watch watched within
      rcases full with full | ⟨o', performs, full⟩
      · exact ErrorLog.not_justFull start full
      · exact ErrorLog.not_justFull (ends o' performs) full

/-- Two texts, the first of which leaves a string behind that nobody refers to. -/
def littering : List ByteArray := ["let a='b';a='c';".toUTF8, "{}".toUTF8]

/-- An engine that collects before every statement and one that never does hold
different arenas in the end, but show the same. -/
theorem littering_is_transparent : ∃ outcomes outcomes',
    RunsThrough { initial 96 with threshold := 0 } littering outcomes
      ∧ RunsThrough { initial 96 with threshold := 96 } littering outcomes'
      ∧ outcomes.map (·.2.arena.used) = [48, 48] ∧ outcomes'.map (·.2.arena.used) = [48, 56]
      ∧ List.Forall₂ ShowSame outcomes outcomes' := by
  have run : (through? 30 littering { initial 96 with threshold := 0 }).map
      (·.map (·.2.arena.used)) = some [48, 48] := by
    decide +kernel
  have run' : (through? 30 littering { initial 96 with threshold := 96 }).map
      (·.map (·.2.arena.used)) = some [48, 56] := by
    decide +kernel
  obtain ⟨outcomes, through, used⟩ := Option.map_eq_some_iff.mp run
  obtain ⟨outcomes', through', used'⟩ := Option.map_eq_some_iff.mp run'
  have runs := runsThrough_of_through? through
  have runs' := runsThrough_of_through? through'
  have made : create? 96 [] = some (initial 96) := create?_nil (by decide)
  exact ⟨outcomes, outcomes', runs, runs', used, used',
    collection_is_transparent (by decide) made 0 96 runs runs'⟩

end Engine

end ArenaScript
