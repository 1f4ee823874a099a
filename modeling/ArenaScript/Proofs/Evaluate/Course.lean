import ArenaScript.Evaluate.Agreement

/-!
# The course of a production

A production is performed by its routine, which waits for other productions on
the way and may hand over to another one at the end.  This module names what
happens in the course of a production, and gives the rule by which facts about
all routines become facts about all runs: a contract says what a production
counts on and what it owes, and if every routine keeps the contract as long as
the productions it waits for do, then every run keeps it.

Main definitions:

- `Production.Performs`: a production comes to an outcome.
- `Progress.Ends`, `Progress.Asks`: how a routine ends, and what it waits for.
- `Production.Within`: what is performed in the course of a production.
- `Contract`, `Progress.Meets`: what productions count on and owe.

Main results:

- `Production.performs_iff_ends`: an outcome is that of the routine.
- `Production.performs_iff_run`: the machine comes to the same outcomes.
- `Contract.Kept.owes`, `Contract.Kept.needs`: all runs keep a contract that
  all routines keep.
-/

namespace ArenaScript

/-! ## What routines do, step by step -/

theorem Routine.choose_apply {α : Type} (b : Prop) [Decidable b] (x y : Routine α) (e : Engine) :
    (if b then x else y) e = if b then x e else y e := by
  split <;> rfl

theorem Progress.bind_assoc {α β γ : Type} (p : Progress α) (f : α → Progress β)
    (g : β → Progress γ) : (p.bind f).bind g = p.bind fun a => (f a).bind g := by
  induction p with
  | finished a => rfl
  | halted h => rfl
  | waiting q e k ih => simp only [bind, ih]

/-- What a routine does on an engine, from one step to the next, up to where it
calls a production. -/
theorem Routine.steps :
    (∀ {α β : Type} (x : Routine α) (f : α → Routine β) (e : Engine),
        (x >>= f) e = (x e).bind fun r => f r.1 r.2)
      ∧ (∀ {α : Type} (a : α) (e : Engine), (pure a : Routine α) e = .finished (a, e))
      ∧ (∀ e : Engine, (get : Routine Engine) e = .finished (e, e))
      ∧ (∀ (f : Engine → Engine) (e : Engine),
        (modify f : Routine PUnit) e = .finished ((), f e))
      ∧ (∀ {α : Type} (a : Action α) (e : Engine), (liftM a : Routine α) e = .ofExcept (a e))
      ∧ (∀ (v : Value) (e : Engine), give v e = .finished (.value v, e))
      ∧ (∀ (q : Production) (e : Engine), goOn q e = .finished (.goOn q, e))
      ∧ (∀ {α : Type} (b : Prop) [Decidable b] (x y : Routine α) (e : Engine),
        (if b then x else y) e = if b then x e else y e)
      ∧ (∀ {α β : Type} (a : α) (f : α → Progress β), (Progress.finished a).bind f = f a)
      ∧ (∀ {α β : Type} (h : Halt) (f : α → Progress β),
        (Progress.halted h).bind f = .halted h)
      ∧ (∀ {α β γ : Type} (p : Progress α) (f : α → Progress β) (g : β → Progress γ),
        (p.bind f).bind g = p.bind fun a => (f a).bind g)
      ∧ (∀ {α : Type} (a : α), Progress.ofExcept (.ok a) = .finished a)
      ∧ (∀ {α : Type} (h : Halt), (Progress.ofExcept (.error h) : Progress α) = .halted h)
      ∧ (∀ {α : Type} (p q : Progress α), (if true = true then p else q) = p)
      ∧ (∀ {α : Type} (p q : Progress α), (if false = true then p else q) = q)
      ∧ (∀ {α : Type} (p q : Progress α), (if (!true) = true then p else q) = q)
      ∧ ∀ {α : Type} (p q : Progress α), (if (!false) = true then p else q) = p :=
  ⟨fun _ _ _ => rfl, fun _ _ => rfl, fun _ => rfl, fun _ _ => rfl, fun _ _ => rfl, fun _ _ => rfl,
    fun _ _ => rfl, choose_apply, fun _ _ => rfl, fun _ _ => rfl, Progress.bind_assoc,
    fun _ => rfl, fun _ => rfl, fun _ _ => rfl, fun _ _ => rfl, fun _ _ => rfl, fun _ _ => rfl⟩

theorem Action.bind_apply {α β : Type} (x : Action α) (f : α → Action β) (e : Engine) :
    Progress.ofExcept ((x >>= f) e)
      = (Progress.ofExcept (x e)).bind fun r => Progress.ofExcept (f r.1 r.2) := by
  show Progress.ofExcept (Except.bind (x e) _) = _
  cases x e <;> rfl

theorem Action.choose_apply {α : Type} (b : Prop) [Decidable b] (x y : Action α) (e : Engine) :
    Progress.ofExcept ((if b then x else y) e)
      = if b then Progress.ofExcept (x e) else Progress.ofExcept (y e) := by
  split <;> rfl

/-- What an action does on an engine, from one step to the next, as a routine
that does not wait. -/
theorem Action.steps :
    (∀ {α β : Type} (x : Action α) (f : α → Action β) (e : Engine),
        Progress.ofExcept ((x >>= f) e)
          = (Progress.ofExcept (x e)).bind fun r => Progress.ofExcept (f r.1 r.2))
      ∧ (∀ {α : Type} (a : α) (e : Engine),
        Progress.ofExcept ((pure a : Action α) e) = .finished (a, e))
      ∧ (∀ e : Engine, Progress.ofExcept ((get : Action Engine) e) = .finished (e, e))
      ∧ (∀ (f : Engine → Engine) (e : Engine),
        Progress.ofExcept ((modify f : Action PUnit) e) = .finished ((), f e))
      ∧ (∀ {α : Type} (b : Prop) [Decidable b] (x y : Action α) (e : Engine),
        Progress.ofExcept ((if b then x else y) e)
          = if b then Progress.ofExcept (x e) else Progress.ofExcept (y e))
      ∧ (∀ {α β : Type} (a : α) (f : α → Progress β), (Progress.finished a).bind f = f a)
      ∧ (∀ {α β : Type} (h : Halt) (f : α → Progress β),
        (Progress.halted h).bind f = .halted h)
      ∧ (∀ {α : Type} (a : α), Progress.ofExcept (.ok a) = .finished a)
      ∧ ∀ {α : Type} (h : Halt), (Progress.ofExcept (.error h) : Progress α) = .halted h :=
  ⟨bind_apply, fun _ _ => rfl, fun _ => rfl, fun _ _ => rfl, choose_apply, fun _ _ => rfl,
    fun _ _ => rfl, fun _ => rfl, fun _ => rfl⟩

/-- What an action does on an engine, from one step to the next. -/
theorem Action.runs :
    (∀ {α β : Type} (x : Action α) (f : α → Action β) (e : Engine),
        (x >>= f) e = (x e).bind fun r => f r.1 r.2)
      ∧ (∀ {α : Type} (a : α) (e : Engine), (pure a : Action α) e = .ok (a, e))
      ∧ (∀ e : Engine, (get : Action Engine) e = .ok (e, e))
      ∧ (∀ (f : Engine → Engine) (e : Engine), (modify f : Action PUnit) e = .ok ((), f e))
      ∧ (∀ {α β : Type} (a : α) (f : α → Except Halt β), (Except.ok a).bind f = f a)
      ∧ ∀ {α β : Type} (h : Halt) (f : α → Except Halt β), (Except.error h).bind f = .error h :=
  ⟨fun _ _ _ => rfl, fun _ _ => rfl, fun _ => rfl, fun _ _ => rfl, fun _ _ => rfl, fun _ _ => rfl⟩

/-! ## Outcomes -/

/-- A production comes to an outcome. -/
def Production.Performs (q : Production) (e : Engine) (o : Value × Engine) : Prop :=
  ∃ bound, q.perform bound e = .ok o

/-- A production has one outcome. -/
theorem Production.Performs.unique {q : Production} {e : Engine} {o o' : Value × Engine}
    (first : q.Performs e o) (second : q.Performs e o') : o = o' := by
  obtain ⟨n, first⟩ := first
  obtain ⟨m, second⟩ := second
  have left := perform_of_le (Nat.le_max_left n m) (first ▸ settled_ok o)
  have right := perform_of_le (Nat.le_max_right n m) (second ▸ settled_ok o')
  rw [first] at left
  rw [second] at right
  exact Except.ok.inj (left.symm.trans right)

namespace Progress

variable {α β : Type} {p : Progress α}

/-- How a routine ends once all it waits for is performed. -/
inductive Ends : Progress α → α → Prop
  | finished (a : α) : Ends (.finished a) a
  | waiting {q : Production} {e : Engine} {k : Value × Engine → Progress α} {o : Value × Engine}
      {a : α} (performs : q.Performs e o) (rest : Ends (k o) a) : Ends (.waiting q e k) a

/-- A routine waits for a production on an engine. -/
inductive Asks : Progress α → Production → Engine → Prop
  | now (q : Production) (e : Engine) (k : Value × Engine → Progress α) : Asks (.waiting q e k) q e
  | later {q : Production} {e : Engine} {k : Value × Engine → Progress α} {o : Value × Engine}
      {q' : Production} {e' : Engine} (performs : q.Performs e o) (rest : Asks (k o) q' e') :
      Asks (.waiting q e k) q' e'

theorem Ends.bind {f : α → Progress β} {a : α} {b : β} (first : p.Ends a)
    (second : (f a).Ends b) : (p.bind f).Ends b := by
  induction first with
  | finished a => exact second
  | waiting performs _ ih => exact .waiting performs (ih second)

/-- The answers of productions settle a routine that ends, once the bound is
large enough. -/
theorem Ends.settle {a : α} (ends : p.Ends a) :
    ∃ bound, ∀ larger, bound ≤ larger → Production.settle (Production.perform larger) p = .ok a := by
  induction ends with
  | finished a => exact ⟨0, fun _ _ => rfl⟩
  | waiting performs _ ih =>
    obtain ⟨n, performs⟩ := performs
    obtain ⟨m, rest⟩ := ih
    refine ⟨max n m, fun larger le => ?_⟩
    have same := Production.perform_of_le (Nat.le_trans (Nat.le_max_left n m) le)
      (performs ▸ settled_ok _)
    simp only [Production.settle, same, performs]
    exact rest larger (Nat.le_trans (Nat.le_max_right n m) le)

theorem ends_of_settle {bound : Nat} {a : α}
    (settled : Production.settle (Production.perform bound) p = .ok a) : p.Ends a := by
  induction p with
  | finished b =>
    obtain rfl : b = a := Except.ok.inj settled
    exact .finished b
  | halted h => cases settled
  | waiting q e k ih =>
    simp only [Production.settle] at settled
    cases answer : Production.perform bound q e with
    | error h => simp only [answer, reduceCtorEq] at settled
    | ok o =>
      simp only [answer] at settled
      exact .waiting ⟨bound, answer⟩ (ih o settled)

end Progress

/-! ## Outcomes and routines -/

namespace Production

/-- The end of a routine as an outcome: a value, or the outcome of the
production it hands over to. -/
def Yields (o : Value × Engine) : Next × Engine → Prop
  | (.value v, e) => o = (v, e)
  | (.goOn q, e) => q.Performs e o

variable {o : Value × Engine} {q : Production}

/-- The outcome within a bound: what the production hands over to is performed within
a smaller one. -/
theorem ends_of_perform {bound : Nat} {e : Engine} (performs : q.perform (bound + 1) e = .ok o) :
    ∃ r, (q.routine e).Ends r ∧ (r = (.value o.1, o.2) ∨
      ∃ q' e', r = (.goOn q', e') ∧ q'.perform bound e' = .ok o) := by
  rw [perform_succ, complete] at performs
  split at performs
  · rename_i v e' settled
    cases performs
    exact ⟨_, Progress.ends_of_settle settled, .inl rfl⟩
  · rename_i next e' settled
    exact ⟨_, Progress.ends_of_settle settled, .inr ⟨next, e', rfl, performs⟩⟩
  · cases performs

/-- The outcome of a production is that of its routine. -/
theorem performs_iff_ends {e : Engine} :
    q.Performs e o ↔ ∃ r, (q.routine e).Ends r ∧ Yields o r := by
  constructor
  · rintro ⟨bound, performs⟩
    cases bound with
    | zero => cases performs
    | succ bound =>
      obtain ⟨r, ends, rfl | ⟨q', e', rfl, performs⟩⟩ := ends_of_perform performs
      · exact ⟨_, ends, rfl⟩
      · exact ⟨_, ends, bound, performs⟩
  · rintro ⟨⟨next, e'⟩, ends, yields⟩
    obtain ⟨bound, settled⟩ := ends.settle
    cases next with
    | value v =>
      obtain rfl : o = (v, e') := yields
      refine ⟨bound + 1, ?_⟩
      rw [perform_succ, complete, settled bound (Nat.le_refl _)]
    | goOn q' =>
      obtain ⟨m, performs⟩ := yields
      refine ⟨max bound m + 1, ?_⟩
      rw [perform_succ, complete, settled _ (Nat.le_max_left _ _)]
      simp only
      rw [perform_of_le (Nat.le_max_right bound m) (performs ▸ settled_ok o), performs]

/-- The machine comes to the outcomes that productions have by their structure. -/
theorem performs_iff_run {e : Engine} :
    q.Performs e o ↔ ∃ steps, Machine.run steps (q.routine e) [] = .ok o := by
  constructor
  · rintro ⟨bound, performs⟩
    cases bound with
    | zero => cases performs
    | succ bound =>
      rw [perform_succ] at performs
      obtain ⟨used, run⟩ := Machine.run_eq_of_complete bound _ (performs ▸ settled_ok o)
      exact ⟨1 + used, by rw [run 1 [], performs]; rfl⟩
  · rintro ⟨steps, run⟩
    obtain ⟨bound, left, -, -, same⟩ :=
      Machine.exists_complete_of_run steps (q.routine e) [] (run ▸ settled_ok o)
    refine ⟨bound + 1, ?_⟩
    rw [run] at same
    rw [perform_succ]
    cases left with
    | zero => cases same
    | succ left =>
      cases outcome : complete bound (q.routine e) with
      | ok o' =>
        rw [outcome] at same
        exact same.symm
      | error h =>
        rw [outcome] at same
        cases same

/-- What is performed in the course of a production, itself included. -/
inductive Within (q : Production) (e : Engine) : Production → Engine → Prop
  | self : Within q e q e
  | asked {q₁ q₂ : Production} {e₁ e₂ : Engine} (outer : Within q e q₁ e₁)
      (asks : (q₁.routine e₁).Asks q₂ e₂) : Within q e q₂ e₂
  | goesOn {q₁ q₂ : Production} {e₁ e₂ : Engine} (outer : Within q e q₁ e₁)
      (ends : (q₁.routine e₁).Ends (.goOn q₂, e₂)) : Within q e q₂ e₂

end Production

/-! ## Contracts -/

/-- What productions count on when they start, and what they owe at the end. -/
structure Contract where
  needs : Production → Engine → Prop
  owes : Production → Engine → Value × Engine → Prop

/-- A routine on its way to a common property of its ends, as long as the
productions it waits for keep a contract. -/
inductive Progress.Meets (c : Contract) {α : Type} (P : α → Prop) : Progress α → Prop
  | finished {a : α} (holds : P a) : Meets c P (.finished a)
  | halted (h : Halt) : Meets c P (.halted h)
  | waiting {q : Production} {e : Engine} {k : Value × Engine → Progress α} (needs : c.needs q e)
      (next : ∀ o, q.Performs e o → c.owes q e o → Meets c P (k o)) : Meets c P (.waiting q e k)

namespace Progress.Meets

variable {c : Contract} {α β : Type} {P P' : α → Prop} {p : Progress α}

theorem mono (meets : p.Meets c P) (le : ∀ a, P a → P' a) : p.Meets c P' := by
  induction meets with
  | finished holds => exact .finished (le _ holds)
  | halted h => exact .halted h
  | waiting needs _ ih => exact .waiting needs ih

theorem ends (meets : p.Meets c P) (kept : ∀ q e o, c.needs q e → q.Performs e o → c.owes q e o)
    {a : α} (ends : p.Ends a) : P a := by
  induction ends with
  | finished a =>
    cases meets
    assumption
  | waiting performs _ ih =>
    cases meets with
    | waiting needs next => exact ih (next _ performs (kept _ _ _ needs performs))

theorem asks (meets : p.Meets c P) (kept : ∀ q e o, c.needs q e → q.Performs e o → c.owes q e o)
    {q : Production} {e : Engine} (asks : p.Asks q e) : c.needs q e := by
  induction asks with
  | now q e k =>
    cases meets with
    | waiting needs next => exact needs
  | later performs _ ih =>
    cases meets with
    | waiting needs next => exact ih (next _ performs (kept _ _ _ needs performs))

end Progress.Meets

namespace Contract

variable {c : Contract} {q q' : Production} {e e' : Engine} {o : Value × Engine}

/-- The end of a routine pays what its production owes, or hands over to a
production that does. -/
def Pays (c : Contract) (q : Production) (e : Engine) : Next × Engine → Prop
  | (.value v, e') => c.owes q e (v, e')
  | (.goOn q', e') => c.needs q' e' ∧ ∀ o, c.owes q' e' o → c.owes q e o

/-- Every routine keeps a contract, as long as the productions it waits for do. -/
def Kept (c : Contract) : Prop := ∀ q e, c.needs q e → (q.routine e).Meets c (c.Pays q e)

/-- The answers of a bound keep a contract, so those of the next one do. -/
theorem Kept.perform (kept : c.Kept) (bound : Nat) :
    ∀ q e o, c.needs q e → q.perform bound e = .ok o → c.owes q e o := by
  induction bound with
  | zero => exact fun _ _ _ _ performs => nomatch performs
  | succ bound ih =>
    intro q e o needs performs
    -- what the routine waits for is answered within the smaller bound
    have settles : ∀ {p : Progress (Next × Engine)} {r}, p.Meets c (c.Pays q e) →
        Production.settle (Production.perform bound) p = .ok r → c.Pays q e r := by
      intro p r meets settled
      induction meets with
      | finished holds =>
        cases settled
        exact holds
      | halted h => cases settled
      | @waiting q' e' k needs' _ ih' =>
        simp only [Production.settle] at settled
        cases answer : Production.perform bound q' e' with
        | error h => simp only [answer, reduceCtorEq] at settled
        | ok o' =>
          simp only [answer] at settled
          exact ih' o' ⟨bound, answer⟩ (ih q' e' o' needs' answer) settled
    rw [Production.perform_succ, Production.complete] at performs
    split at performs
    · rename_i v e' settled
      cases performs
      exact settles (kept q e needs) settled
    · rename_i next e' settled
      obtain ⟨needs', pays⟩ := settles (kept q e needs) settled
      exact pays o (ih next e' o needs' performs)
    · cases performs

/-- Every outcome is as the contract says. -/
theorem Kept.owes (kept : c.Kept) (needs : c.needs q e) (performs : q.Performs e o) :
    c.owes q e o := by
  obtain ⟨bound, performs⟩ := performs
  exact kept.perform bound q e o needs performs

/-- All that is performed in the course of a production has what it counts on. -/
theorem Kept.needs (kept : c.Kept) (needs : c.needs q e) (within : q.Within e q' e') :
    c.needs q' e' := by
  have pays : ∀ q e o, c.needs q e → q.Performs e o → c.owes q e o :=
    fun _ _ _ needs performs => kept.owes needs performs
  induction within with
  | self => exact needs
  | asked _ asks ih => exact (kept _ _ ih).asks pays asks
  | goesOn _ ends ih => exact ((kept _ _ ih).ends pays ends).1

end Contract

end ArenaScript
