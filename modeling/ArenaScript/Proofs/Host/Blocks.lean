import ArenaScript.Proofs.Evaluate.Skipping
import ArenaScript.Proofs.Grammar.Braces
import ArenaScript.Proofs.Host.Watching
import ArenaScript.Proofs.Lockstep.Lone

/-!
# Where statements and blocks end

A statement ends at the same place whether it is executed or passed over in a dry
run.

A block is read up to a closing brace.  A statement without a semicolon in front
of a brace takes the brace as its own end, and only as the body of a choice or
of a loop does it give the brace back.  A choice that ends a block in this way
leaves the brace of the block to itself, so the block goes on to a brace behind
its own.

Main results:

- `Engine.WellFormed.dry_run_follows`: a dry run follows the statements that are
  executed.
- `Engine.block_ends_at_closing_brace`: a block in a session ends at its own brace
  just when no statement in it ends on a brace that is not its own.
-/

namespace ArenaScript

open Grammar

namespace Lockstep.Alike

variable {ι : Type} [Rules ι] {w : World ι} {s : Standing ι} {c : Current} {e : ι → Engine}

theorem text_eq (alike : Alike w s c e) (i : ι) : (e i).text = s.ground.text :=
  (alike.shows i).content

theorem here_eq (alike : Alike w s c e) (i : ι) :
    (e i).here = c.spot.place s.ground.text := by
  rw [Engine.here, alike.text_eq i, alike.pos i, alike.lastToken i, alike.consumed i,
    alike.tokenStart i, alike.tokenLength i]
  rfl

end Lockstep.Alike

open Lockstep in
/-- On a well-formed engine without natives and without a limit of nesting, a statement
that is performed without an error, in a dry run or without a return, is passed over
in a dry run without an error, up to the same place. -/
theorem Engine.WellFormed.dry_run_follows {e : Engine} (good : e.WellFormed)
    (alone : e.natives = #[]) (unlimited : e.maxDepth ≤ 0) {o : Value × Engine}
    (performs : Production.statement.Performs e o) (sane : o.1.isError = false)
    (goes : e.mode.dry = true ∨ o.2.mode.returned = false) :
    ∃ o', Production.statement.Performs { e with mode := { e.mode with dry := true } } o'
      ∧ o'.1.isError = false ∧ o'.2.text = o.2.text ∧ o'.2.here = o.2.here := by
  let : Rules Unit := quietRules
  have lax : ¬ Strict Unit := id
  obtain ⟨w, s, c, thawed, alike⟩ := good.exists_alike lax ⟨rfl, fun _ => trivial⟩ (.inl alone)
  have calm : Calm Unit .statement e := calm_of_unhosted (fun _ _ _ => trivial) id
  obtain ⟨w₁, s₁, c₁, tag, v, e₁, eq, alike₁, rfl, -, related, -, passed⟩ :=
    (Ready.statement (.inr (.of_thawed thawed))).outcome alike calm performs
  obtain rfl : o = (v (), e₁ ()) := eq ()
  rw [related.isError ()] at sane
  have derives := (passed sane).derives (goes.imp (alike.mode () ▸ id) (alike₁.mode () ▸ id))
  rw [← alike.here_eq (), ← alike₁.here_eq (), ← alike.text_eq ()] at derives
  have legible := alike.legible ()
  have skims : { e with mode := { e.mode with dry := true } }.Skims e.text
      { e.mode with dry := true } e.roots e.here :=
    ⟨⟨legible.1, legible.2, legible.3, legible.4⟩, rfl, rfl, rfl, rfl, unlimited⟩
  obtain ⟨o', performs', -⟩ := dry_run_ends rfl skims.legible (.inl rfl)
  obtain ⟨fine, skims'⟩ := derives.skips rfl e.roots _ skims o' (Progress.ends_call.mpr performs')
  exact ⟨o', performs', fine.1, skims'.text_eq.trans
    ((alike.text_eq ()).trans (alike₁.text_eq ()).symm), skims'.here⟩

namespace Engine

variable {length : Nat} {settings : List Setting} {e : Engine} {p : HostProgram}

/-- A block that is performed in a session, in a dry run or without a return, and
that ends on a closing brace, has been read in the grammar up to that brace.  The
brace closes the one that opens the block and some around it; there are none of
these just when the block can be read so that no body in it ends on a brace that
is not its own. -/
theorem block_ends_at_closing_brace (small : length ≤ 2 ^ 29)
    (made : create? length settings = some e) (behaves : p.Behaves e) :
    ∀ text next e₀ inScope e₁ o, p.Comes 0 0 e (.evaluate text next) e₀ →
      (Production.evaluate text).Within e₀ (.block inScope) e₁ →
      (Production.block inScope).Performs e₁ o → o.1.isError = false →
      e₁.mode.dry = true ∨ o.2.mode.returned = false → o.2.cursor.token = .rightBrace →
        o.2.text = e₁.text ∧ Derives e₁.text .block e₁.here o.2.here
          ∧ ∃ n, Closes e₁.text (n + 1) e₁.cursor.pos o.2.cursor.pos
            ∧ (n = 0 ↔ Spells True e₁.text .block e₁.here o.2.here) := by
  intro text next e₀ inScope e₁ o comes within performs sane goes closing
  obtain ⟨w, c, alike, -⟩ := behaves.course small made comes
  have calm := Lockstep.calm_of_careful ((behaves _ e₀ comes).2 text next rfl)
  obtain ⟨w₁, s, c₁, role, ready, alike₁⟩ :=
    (Lockstep.Ready.evaluateAny text).within alike calm within
  obtain ⟨rfl, -⟩ := ready.block_cases
  obtain ⟨w₂, s₂, c₂, tag, v, e₂, eq, alike₂, rfl, -, related, -, passed⟩ :=
    ready.outcome alike₁ (calm.within within) performs
  obtain rfl : o = (v (), e₂ ()) := eq ()
  rw [related.isError ()] at sane
  have derives := (passed sane).derives (goes.imp (alike₁.mode () ▸ id) (alike₂.mode () ▸ id))
  have here := alike₁.here_eq ()
  have there := alike₂.here_eq ()
  rw [← here, ← there, ← alike₁.text_eq ()] at derives
  exact ⟨(alike₂.text_eq ()).trans (alike₁.text_eq ()).symm, derives, derives.closes_block closing⟩

end Engine

/-- A text whose block spends its brace on the choice in it. -/
def spendingText : ByteArray := "\x7bif(1)2\x7d3;\x7d".toUTF8

/-- A session that evaluates the text. -/
def HostProgram.spending : HostProgram := .evaluate spendingText fun _ => .done .undefined

theorem HostProgram.watch_spending :
    spending.watch (Production.calls? 28 5) 28 0 0 5 (Engine.initial 96) = true := by
  decide +kernel

namespace Engine

/-- The block of the text has come up, and is performed up to the last brace. -/
def spends? (s : Production × Engine) : Bool :=
  match s with
  | (.block true, e₁) =>
    match Production.watch (fun _ _ => true) (fun _ => true) 28 (.block true) e₁ with
    | some o => !o.1.isError && !o.2.mode.returned && o.2.cursor.token == .rightBrace
      && decide (e₁.text = spendingText) && e₁.cursor.pos == 1 && o.2.cursor.pos == 11
    | none => false
  | _ => false

theorem spending_spends :
    ((Production.evaluate spendingText).stage? 28 [some 0, some 0, some 0] (initial 96)).any spends?
      = true := by
  decide +kernel

/-- The block of the text ends without an error at a brace that closes two, so one
in it has been spent on a body. -/
theorem spending_ends_at_closing_brace :
    ∃ e₁ o, (Production.evaluate spendingText).Within (initial 96) (.block true) e₁
      ∧ (Production.block true).Performs e₁ o ∧ o.1.isError = false
      ∧ Closes e₁.text 2 e₁.cursor.pos o.2.cursor.pos
      ∧ Derives e₁.text .block e₁.here o.2.here
      ∧ ¬ Spells True e₁.text .block e₁.here o.2.here := by
  obtain ⟨⟨q, e₁⟩, stage, spends⟩ := (Option.any_eq_true _ _).mp spending_spends
  unfold spends? at spends
  split at spends
  · next eq =>
    obtain ⟨rfl, rfl⟩ := Prod.mk.inj eq
    split at spends
    · next o watched =>
      simp only [Bool.and_eq_true, Bool.not_eq_true', beq_iff_eq, decide_eq_true_eq] at spends
      obtain ⟨⟨⟨⟨⟨sane, goes⟩, closing⟩, text⟩, start⟩, stop⟩ := spends
      have within := Production.within_of_stage? stage
      have performs := (Production.performs_of_watch watched).1
      obtain ⟨-, derives, n, closes, tidy⟩ := block_ends_at_closing_brace (by decide)
        (create?_nil (by decide)) (HostProgram.behaves_of_watch HostProgram.watch_spending)
        spendingText _ (initial 96) true _ o .start within performs sane (.inr goes) closing
      have two : Closes e₁.text 2 e₁.cursor.pos o.2.cursor.pos := by
        rw [text, start, stop]
        exact closes_of_closer? 20 (by decide +kernel)
      refine ⟨_, o, within, performs, sane, two, derives, fun own => ?_⟩
      rw [tidy.mpr own] at closes
      cases closes.unique two
    · cases spends
  · cases spends

end Engine

end ArenaScript
