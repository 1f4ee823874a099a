import ArenaScript.Proofs.Evaluate.Course

/-!
# Credit for steps

How many steps does the machine take for a production?  The answer is an
account: a production starts with a credit, every call and every handing over
costs a step or two, and what is left at the end is handed back.  A budget says
how much credit productions start with and how much they have left.  If every
routine gets by with the credit of its production, as long as the productions
it waits for keep to the budget, then every production comes to an outcome, and
takes no more steps than it has credit.

No bound on the nesting is needed for that: what a routine waits for starts with
less credit than the routine itself.

A budget also speaks of productions that may halt.  What it says of them with
certainty is what it says of those that do not.

Main definitions:

- `Machine.Takes`: the machine comes to an outcome in a number of steps.
- `Budget`: contracts with credit.
- `Progress.Affords`: a routine gets by with its credit.

Main results:

- `Budget.Kept.contract`: a budget that is kept is a contract that is kept.
- `Budget.Kept.takes`: productions come to an outcome within their credit.
- `Machine.Takes.run_eq`: more steps change nothing.
-/

namespace ArenaScript

namespace Machine

/-- In a number of steps the machine comes from a routine to an outcome, whoever
waits for it. -/
def Takes (n : Nat) (p : Progress (Next × Engine)) (o : Value × Engine) : Prop :=
  ∀ steps stack, run (steps + n) p stack = run steps (.finished (.value o.1, o.2)) stack

/-- One step more is needed to end. -/
theorem Takes.run_eq {n steps : Nat} {p : Progress (Next × Engine)} {o : Value × Engine}
    (takes : Takes n p o) (enough : n < steps) : run steps p [] = .ok o := by
  obtain ⟨more, rfl⟩ := Nat.exists_eq_add_of_lt enough
  rw [show n + more + 1 = more + 1 + n by omega, takes (more + 1) []]
  rfl

theorem Takes.performs {n : Nat} {q : Production} {e : Engine} {o : Value × Engine}
    (takes : Takes n (q.routine e) o) : q.Performs e o :=
  Production.performs_iff_run.mpr ⟨n + 1, takes.run_eq (Nat.lt_succ_self n)⟩

end Machine

namespace Progress

variable {α β : Type}

/-- A routine ends after a number of steps of the machine. -/
inductive Spends : Progress α → Nat → α → Prop
  | finished (a : α) : Spends (.finished a) 0 a
  | waiting {q : Production} {e : Engine} {k : Value × Engine → Progress α} {o : Value × Engine}
      {n m : Nat} {a : α} (takes : Machine.Takes n (q.routine e) o) (rest : Spends (k o) m a) :
      Spends (.waiting q e k) (n + 2 + m) a

theorem Spends.run_eq {p : Progress (Next × Engine)} {n : Nat} {r : Next × Engine}
    (spends : p.Spends n r) (steps : Nat) (stack : List Machine.Waiting) :
    Machine.run (steps + n) p stack = Machine.run steps (.finished r) stack := by
  induction spends with
  | finished r => rfl
  | @waiting q e k o n m r takes _ ih =>
    calc Machine.run (steps + (n + 2 + m)) (.waiting q e k) stack
        = Machine.run (steps + m + 1 + n + 1) (.waiting q e k) stack := by
          rw [show steps + (n + 2 + m) = steps + m + 1 + n + 1 by omega]
      _ = Machine.run (steps + m + 1) (.finished (.value o.1, o.2)) (k :: stack) :=
          takes (steps + m + 1) (k :: stack)
      _ = Machine.run steps (.finished r) stack := ih

end Progress

/-! ## Budgets -/

/-- What productions count on and owe, with certainty or without, how much credit
they start with, and how much they have left once they have come to an outcome. -/
structure Budget where
  needs : Prop → Production → Engine → Prop
  owes : Prop → Production → Engine → Value × Engine → Prop
  before : Production → Engine → Nat
  after : Production → Value × Engine → Nat

/-- The contract of a budget. -/
def Budget.contract (b : Budget) (sure : Prop) : Contract := ⟨b.needs sure, b.owes sure⟩

/-- A routine gets by with its credit on its way to a common property of its ends,
as long as the productions it waits for keep to the budget.  If that is certain, it
does not halt. -/
inductive Progress.Affords (b : Budget) (sure : Prop) {α : Type} (P : α → Nat → Prop) :
    Nat → Progress α → Prop
  | finished {credit : Nat} {a : α} (holds : P a credit) : Affords b sure P credit (.finished a)
  | halted {credit : Nat} (h : Halt) (unsure : ¬ sure) : Affords b sure P credit (.halted h)
  | waiting {credit : Nat} {q : Production} {e : Engine} {k : Value × Engine → Progress α}
      (needs : b.needs sure q e) (enough : sure → b.before q e + 2 ≤ credit)
      (next : ∀ o, q.Performs e o → b.owes sure q e o →
        Affords b sure P (credit - (b.before q e + 2) + b.after q o) (k o)) :
      Affords b sure P credit (.waiting q e k)

namespace Progress.Affords

variable {b : Budget} {sure : Prop} {α β ι : Type} {P P' : α → Nat → Prop} {p : Progress α}
  {credit : Nat}

theorem bind {R : β → Nat → Prop} {f : α → Progress β} (first : p.Affords b sure P credit)
    (next : ∀ a rest, P a rest → (f a).Affords b sure R rest) :
    (p.bind f).Affords b sure R credit := by
  induction first with
  | finished holds => exact next _ _ holds
  | halted h unsure => exact .halted h unsure
  | waiting needs enough _ ih => exact .waiting needs enough ih

theorem mono (affords : p.Affords b sure P credit) (le : ∀ a rest, P a rest → P' a rest) :
    p.Affords b sure P' credit := by
  induction affords with
  | finished holds => exact .finished (le _ _ holds)
  | halted h unsure => exact .halted h unsure
  | waiting needs enough _ ih => exact .waiting needs enough ih

/-- Several properties of the ends are one. -/
theorem all {P : ι → α → Nat → Prop} (some : ι) (each : ∀ i, p.Affords b sure (P i) credit) :
    p.Affords b sure (fun a rest => ∀ i, P i a rest) credit := by
  induction p generalizing credit with
  | finished a => exact .finished fun i => by cases each i; assumption
  | halted h =>
    cases each some with
    | halted _ unsure => exact .halted h unsure
  | waiting q e k ih =>
    cases each some with
    | waiting needs enough _ =>
      refine .waiting needs enough fun o performs owed => ih o fun i => ?_
      cases each i with
      | waiting _ _ next => exact next o performs owed

theorem meets (affords : p.Affords b sure P credit) :
    p.Meets (b.contract sure) fun a => ∃ rest, P a rest := by
  induction affords with
  | finished holds => exact .finished ⟨_, holds⟩
  | halted h => exact .halted h
  | waiting needs _ _ ih => exact .waiting needs ih

end Progress.Affords

namespace Budget

variable {b : Budget} {sure : Prop}

/-- The end of a routine leaves what its production has to leave, or hands over
to a production that does. -/
def Pays (b : Budget) (sure : Prop) (q : Production) (e : Engine) : Next × Engine → Nat → Prop
  | (.value v, e'), credit => b.owes sure q e (v, e') ∧ (sure → b.after q (v, e') ≤ credit)
  | (.goOn q', e'), credit => b.needs sure q' e' ∧ (sure → b.before q' e' + 1 ≤ credit) ∧
    ∀ o, b.owes sure q' e' o → b.owes sure q e o ∧
      (sure → b.before q' e' + 1 + b.after q o ≤ credit + b.after q' o)

/-- Every routine gets by with the credit of its production. -/
def Kept (b : Budget) : Prop := ∀ sure q e, b.needs sure q e →
  (q.routine e).Affords b sure (b.Pays sure q e) (b.before q e)

theorem Kept.contract (kept : b.Kept) (sure : Prop) : (b.contract sure).Kept := by
  refine fun q e needs => (kept sure q e needs).meets.mono ?_
  rintro ⟨next, e'⟩ ⟨rest, pays⟩
  cases next with
  | value v => exact pays.1
  | goOn q' => exact ⟨pays.1, fun o owed => (pays.2.2 o owed).1⟩

/-- A production comes to an outcome within its credit. -/
def Settles (b : Budget) (q : Production) (e : Engine) : Prop :=
  ∃ n o, Machine.Takes n (q.routine e) o ∧ b.owes True q e o ∧ n + b.after q o ≤ b.before q e

/-- A routine ends within its credit, if what starts with less credit does. -/
theorem spends_of_affords {α : Type} {P : α → Nat → Prop} {p : Progress α} {credit : Nat}
    (affords : p.Affords b True P credit)
    (smaller : ∀ q e, b.needs True q e → b.before q e < credit → b.Settles q e) :
    ∃ n a rest, p.Spends n a ∧ P a rest ∧ n + rest ≤ credit := by
  induction affords with
  | finished holds => exact ⟨0, _, _, .finished _, holds, by omega⟩
  | halted h unsure => exact absurd trivial unsure
  | @waiting credit q e k needs enough _ ih =>
    have enough := enough trivial
    obtain ⟨n, o, takes, owed, le⟩ := smaller q e needs (by omega)
    obtain ⟨m, a, rest, spends, holds, le'⟩ := ih o takes.performs owed
      fun q' e' needs' lt => smaller q' e' needs' (by omega)
    exact ⟨n + 2 + m, a, rest, .waiting takes spends, holds, by omega⟩

/-- All productions come to an outcome within their credit. -/
theorem Kept.takes (kept : b.Kept) {q : Production} {e : Engine} (needs : b.needs True q e) :
    b.Settles q e := by
  -- the credit at the start decreases from a routine to what it waits for
  induction size : b.before q e using Nat.strongRecOn generalizing q e with
  | ind credit ih =>
    subst size
    obtain ⟨n, ⟨next, e'⟩, rest, spends, pays, le⟩ := spends_of_affords (kept True q e needs)
      fun q' e' needs' lt => ih _ lt needs' rfl
    cases next with
    | value v =>
      have left := pays.2 trivial
      exact ⟨n, (v, e'), spends.run_eq, pays.1, by omega⟩
    | goOn q' =>
      obtain ⟨needs', enough, pays⟩ := pays
      have enough := enough trivial
      obtain ⟨m, o, takes, owed', le'⟩ := ih _ (by omega) needs' rfl
      obtain ⟨owed, left⟩ := pays o owed'
      have left := left trivial
      refine ⟨n + 1 + m, o, fun steps stack => ?_, owed, by omega⟩
      rw [show steps + (n + 1 + m) = steps + m + 1 + n by omega, spends.run_eq]
      exact takes steps stack

end Budget

end ArenaScript
