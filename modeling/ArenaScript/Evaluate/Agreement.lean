import ArenaScript.Evaluate.Machine

/-!
# The machine follows the structure

The machine gives exactly the outcomes that productions have by their
structure.  A bound on the nesting and a number of steps are both allowances:
once an allowance is large enough, a larger one changes nothing.

Main results:

- `Production.perform_of_le`: a larger bound keeps an outcome.
- `Machine.run_eq_of_complete`: the machine completes a routine as its structure says.
- `Machine.exists_complete_of_run`: what the machine gives is the outcome by structure.
- `Engine.exists_evaluate_iff`: the evaluation of a text in both views.
-/

namespace ArenaScript

/-- The outcome says more than that an allowance was used up. -/
def Settled {α : Type} (r : Except Halt α) : Prop := r ≠ .error .exhausted

theorem settled_ok {α : Type} (a : α) : Settled (.ok a : Except Halt α) :=
  fun h => nomatch h

namespace Production

/-! ## Allowances -/

/-- Completes a routine: its waiting points are answered by structure, and so
is the production it hands over to. -/
def complete (bound : Nat) (routine : Progress (Next × Engine)) :
    Except Halt (Value × Engine) :=
  match settle (perform bound) routine with
  | .ok (.value v, e) => .ok (v, e)
  | .ok (.goOn next, e) => perform bound next e
  | .error h => .error h

theorem perform_succ (bound : Nat) (production : Production) (e : Engine) :
    perform (bound + 1) production e = complete bound (production.routine e) := rfl

theorem complete_halted (bound : Nat) (h : Halt) :
    complete bound (.halted h) = .error h := rfl

/-- A routine that waits goes on with the outcome of what it waits for. -/
theorem complete_waiting_ok {bound : Nat} {production : Production} {e : Engine}
    (resume : Value × Engine → Progress (Next × Engine)) {outcome : Value × Engine}
    (h : perform bound production e = .ok outcome) :
    complete bound (.waiting production e resume) = complete bound (resume outcome) := by
  simp only [complete, settle, h]

/-- A routine halts with what it waits for. -/
theorem complete_waiting_error {bound : Nat} {production : Production} {e : Engine}
    (resume : Value × Engine → Progress (Next × Engine)) {halt : Halt}
    (h : perform bound production e = .error halt) :
    complete bound (.waiting production e resume) = .error halt := by
  simp only [complete, settle, h]

/-- Answers that are kept by a second answering function keep the outcome of a
routine. -/
theorem settle_of_answers {f g : Production → Engine → Except Halt (Value × Engine)}
    (keeps : ∀ production e, Settled (f production e) → g production e = f production e)
    {α : Type} (routine : Progress α) (settled : Settled (settle f routine)) :
    settle g routine = settle f routine := by
  induction routine with
  | finished a => rfl
  | halted h => rfl
  | waiting production e resume ih =>
    have answered : Settled (f production e) := by
      intro h
      apply settled
      simp only [settle, h]
    rw [settle, settle, keeps production e answered]
    cases h : f production e with
    | error halt => rfl
    | ok outcome =>
      apply ih
      intro exhausted
      apply settled
      simp only [settle, h, exhausted]

/-- One more level of nesting keeps an outcome. -/
theorem perform_succ_of_settled (bound : Nat) :
    ∀ production e, Settled (perform bound production e) →
      perform (bound + 1) production e = perform bound production e := by
  induction bound with
  | zero =>
    intro production e settled
    exact absurd rfl settled
  | succ bound ih =>
    intro production e settled
    rw [perform_succ, perform_succ]
    have inner : Settled (settle (perform bound) (production.routine e)) := by
      intro h
      apply settled
      rw [perform_succ]
      simp only [complete, h]
    have same := settle_of_answers ih (production.routine e) inner
    unfold complete
    rw [same]
    split
    · rfl
    · rename_i next e' hnext
      apply ih
      intro h
      apply settled
      rw [perform_succ]
      simp only [complete, hnext, h]
    · rfl

/-- A larger bound keeps an outcome. -/
theorem perform_of_le {bound larger : Nat} (le : bound ≤ larger) {production : Production}
    {e : Engine} (settled : Settled (perform bound production e)) :
    perform larger production e = perform bound production e := by
  induction le with
  | refl => rfl
  | step _ ih =>
    rw [perform_succ_of_settled _ production e (ih ▸ settled), ih]

/-- A larger bound keeps the outcome of a routine. -/
theorem complete_of_le {bound larger : Nat} (le : bound ≤ larger)
    {routine : Progress (Next × Engine)} (settled : Settled (complete bound routine)) :
    complete larger routine = complete bound routine := by
  have inner : Settled (settle (perform bound) routine) := by
    intro h
    apply settled
    simp only [complete, h]
  have same : settle (perform larger) routine = settle (perform bound) routine :=
    settle_of_answers (fun _ _ h => perform_of_le le h) routine inner
  unfold complete
  rw [same]
  split
  · rfl
  · rename_i next e hnext
    apply perform_of_le le
    intro h
    apply settled
    simp only [complete, hnext, h]
  · rfl

end Production

namespace Machine

open Production (complete)

/-! ## From structure to steps -/

/-- A routine that has come to an outcome. -/
def done : Except Halt (Value × Engine) → Progress (Next × Engine)
  | .ok (v, e) => .finished (.value v, e)
  | .error h => .halted h

/-- A halt does not depend on who waits for it. -/
theorem run_halted (steps : Nat) (h : Halt) (stack stack' : List Waiting) :
    run steps (.halted h) stack = run steps (.halted h) stack' := by
  cases steps <;> rfl

/-- After a number of steps the machine has completed a routine. -/
theorem run_eq_of_complete (bound : Nat) :
    ∀ routine, Settled (complete bound routine) →
      ∃ used, ∀ steps stack,
        run (steps + used) routine stack = run steps (done (complete bound routine)) stack := by
  induction bound with
  | zero =>
    intro routine settled
    cases routine with
    | finished a =>
      obtain ⟨_ | _, e⟩ := a
      · exact ⟨0, fun _ _ => rfl⟩
      · exact absurd rfl settled
    | halted h => exact ⟨0, fun _ _ => rfl⟩
    | waiting production e resume => exact absurd rfl settled
  | succ bound ih =>
    intro routine
    induction routine with
    | finished a =>
      intro settled
      obtain ⟨v | next, e⟩ := a
      · exact ⟨0, fun _ _ => rfl⟩
      · obtain ⟨used, h⟩ := ih (next.routine e) settled
        exact ⟨used + 1, fun steps stack => h steps stack⟩
    | halted h => exact fun _ => ⟨0, fun _ _ => rfl⟩
    | waiting production e resume inner =>
      intro settled
      cases answer : complete bound (production.routine e) with
      | error halt =>
        have whole := Production.complete_waiting_error resume
          (show Production.perform (bound + 1) production e = .error halt from answer)
        have answered : Settled (complete bound (production.routine e)) := by
          rw [answer]
          rwa [whole] at settled
        obtain ⟨used, h⟩ := ih (production.routine e) answered
        refine ⟨used + 1, fun steps stack => ?_⟩
        rw [whole]
        have step := h steps (resume :: stack)
        rw [answer] at step
        exact step.trans (run_halted steps halt _ _)
      | ok outcome =>
        have whole := Production.complete_waiting_ok resume
          (show Production.perform (bound + 1) production e = .ok outcome from answer)
        have answered : Settled (complete bound (production.routine e)) := by
          rw [answer]
          exact settled_ok outcome
        rw [whole] at settled ⊢
        obtain ⟨used, h⟩ := ih (production.routine e) answered
        obtain ⟨more, h'⟩ := inner outcome settled
        refine ⟨more + 1 + used + 1, fun steps stack => ?_⟩
        have step := h (steps + more + 1) (resume :: stack)
        rw [answer] at step
        rw [← h' steps stack,
          show steps + (more + 1 + used + 1) = steps + more + 1 + used + 1 by omega]
        exact step

/-! ## From steps to structure -/

/-- What the machine gives is the outcome of the routine by structure, handed
to the routines that wait. -/
theorem exists_complete_of_run (steps : Nat) :
    ∀ routine stack, Settled (run steps routine stack) →
      ∃ bound left, left ≤ steps ∧ Settled (complete bound routine) ∧
        run steps routine stack = run left (done (complete bound routine)) stack := by
  induction steps using Nat.strongRecOn with
  | ind steps ih =>
    intro routine stack settled
    cases steps with
    | zero => exact absurd rfl settled
    | succ steps =>
      cases routine with
      | halted h =>
        refine ⟨0, steps + 1, Nat.le_refl _, ?_, rfl⟩
        intro exhausted
        apply settled
        rw [Production.complete_halted] at exhausted
        cases exhausted
        rfl
      | finished a =>
        obtain ⟨v | next, e⟩ := a
        · exact ⟨0, steps + 1, Nat.le_refl _, settled_ok _, rfl⟩
        · obtain ⟨bound, left, le, inner, same⟩ :=
            ih steps (Nat.lt_succ_self _) (next.routine e) stack settled
          exact ⟨bound + 1, left, Nat.le_succ_of_le le, inner, same⟩
      | waiting production e resume =>
        obtain ⟨bound, left, le, inner, same⟩ :=
          ih steps (Nat.lt_succ_self _) (production.routine e) (resume :: stack) settled
        cases answer : complete bound (production.routine e) with
        | error halt =>
          have whole := Production.complete_waiting_error resume
            (show Production.perform (bound + 1) production e = .error halt from answer)
          refine ⟨bound + 1, left, Nat.le_succ_of_le le, ?_, ?_⟩
          · rw [whole, ← answer]
            exact inner
          · rw [whole]
            rw [answer] at same
            exact same.trans (run_halted left halt _ _)
        | ok outcome =>
          rw [answer] at same
          have goes : Settled (run left (done (.ok outcome)) (resume :: stack)) := by
            rw [← same]
            exact settled
          cases left with
          | zero => exact absurd rfl goes
          | succ left =>
            obtain ⟨more, rest, le', inner', same'⟩ :=
              ih left (by omega) (resume outcome) stack goes
            have answer' :
                Production.perform (max (bound + 1) more) production e = .ok outcome := by
              rw [Production.perform_of_le (Nat.le_max_left _ _), Production.perform_succ, answer]
              rw [Production.perform_succ]
              exact inner
            have whole := Production.complete_waiting_ok resume answer'
            have kept := Production.complete_of_le (Nat.le_max_right (bound + 1) more) inner'
            refine ⟨max (bound + 1) more, rest, by omega, ?_, ?_⟩
            · rw [whole, kept]
              exact inner'
            · rw [whole, kept]
              exact same.trans same'

end Machine

namespace Engine

/-- The evaluation of a text comes to an outcome exactly if the production has
that outcome by its structure. -/
theorem exists_evaluate_iff (text : ByteArray) (e : Engine) (r : Except Halt (Value × Engine))
    (settled : Settled r) :
    (∃ steps, evaluate steps text e = r) ↔
      ∃ bound, (Production.evaluate text).perform bound e = r := by
  constructor
  · rintro ⟨steps, rfl⟩
    obtain ⟨bound, left, _, inner, same⟩ :=
      Machine.exists_complete_of_run steps _ [] settled
    refine ⟨bound + 1, ?_⟩
    unfold evaluate at settled ⊢
    rw [same] at settled ⊢
    rw [Production.perform_succ]
    cases left with
    | zero => exact absurd rfl settled
    | succ left =>
      cases Production.complete bound ((Production.evaluate text).routine e) <;> rfl
  · rintro ⟨bound, rfl⟩
    cases bound with
    | zero => exact absurd rfl settled
    | succ bound =>
      obtain ⟨used, h⟩ := Machine.run_eq_of_complete bound _ settled
      refine ⟨1 + used, ?_⟩
      unfold evaluate
      rw [h 1 [], Production.perform_succ]
      cases Production.complete bound ((Production.evaluate text).routine e) <;> rfl

end Engine

end ArenaScript
