import ArenaScript.Proofs.Lockstep.Sessions

/-!
# Runs that are watched

Whether a host keeps to the rules shows only in the course of a run.  For a run
that ends, it can be found out by running: productions are performed while each
one that comes up is looked at, and so are the programs of the natives that are
called.

Main definitions:

- `Production.watch`: performs a production and looks at all that come up.
- `Production.stage?`: a production that comes up.
- `HostProgram.watch`: answers a program and looks at all its requests.

Main results:

- `Production.good_of_watch`: all productions of the course have been looked at.
- `HostProgram.exists_done_of_watch`: a program that has been watched ends.
- `HostProgram.follows_of_watch`: a session that has been watched is orderly.
-/

namespace ArenaScript

/-- A routine ends in one way. -/
theorem Progress.Ends.unique {α : Type} {p : Progress α} {a b : α} (first : p.Ends a)
    (second : p.Ends b) : a = b := by
  induction first with
  | finished a => cases second; rfl
  | waiting performs _ ih =>
    cases second with
    | waiting performs' rest =>
      obtain rfl := performs.unique performs'
      exact ih rest

/-! ## Productions -/

/-- The end of a routine, if all it waits for has an answer. -/
def Progress.watch {α : Type} (answer : Production → Engine → Option (Value × Engine)) :
    Progress α → Option α
  | .finished a => some a
  | .halted _ => none
  | .waiting q e k =>
    match answer q e with
    | some o => (k o).watch answer
    | none => none

/-- Performs a production within a bound and looks at all productions that come
up and at their outcomes; none unless all of them are good. -/
def Production.watch (good : Production → Engine → Bool) (fine : Value × Engine → Bool) :
    Nat → Production → Engine → Option (Value × Engine)
  | 0, _, _ => none
  | bound + 1, q, e =>
    if good q e then
      match (q.routine e).watch (Production.watch good fine bound) with
      | some (.value v, e') => if fine (v, e') then some (v, e') else none
      | some (.goOn q', e') => Production.watch good fine bound q' e'
      | none => none
    else none

namespace Progress

variable {α : Type} {answer : Production → Engine → Option (Value × Engine)} {p : Progress α}
  {a : α}

theorem ends_of_watch (sound : ∀ q e o, answer q e = some o → q.Performs e o)
    (watched : p.watch answer = some a) : p.Ends a := by
  induction p with
  | finished b =>
    cases watched
    exact .finished a
  | halted h => cases watched
  | waiting q e k ih =>
    simp only [watch] at watched
    cases answered : answer q e with
    | none => simp only [answered, reduceCtorEq] at watched
    | some o =>
      simp only [answered] at watched
      exact .waiting (sound q e o answered) (ih o watched)

/-- Whatever a routine waits for has had an answer. -/
theorem Asks.answered (sound : ∀ q e o, answer q e = some o → q.Performs e o)
    {q : Production} {e : Engine} (asks : p.Asks q e) (watched : p.watch answer = some a) :
    ∃ o, answer q e = some o := by
  induction asks with
  | now q e k =>
    simp only [watch] at watched
    cases answered : answer q e with
    | none => simp only [answered, reduceCtorEq] at watched
    | some o => exact ⟨o, rfl⟩
  | @later q₁ e₁ k o q₂ e₂ performs _ ih =>
    simp only [watch] at watched
    cases answered : answer q₁ e₁ with
    | none => simp only [answered, reduceCtorEq] at watched
    | some o' =>
      simp only [answered] at watched
      obtain rfl := performs.unique (sound q₁ e₁ o' answered)
      exact ih watched

end Progress

namespace Production

variable {good : Production → Engine → Bool} {fine : Value × Engine → Bool} {bound : Nat}
  {q q' : Production} {e e' : Engine} {o o' : Value × Engine}

variable (watched : watch good fine bound q e = some o)
include watched

/-- What a step of a watched run has looked at. -/
theorem watch_step : ∃ bound' r, bound = bound' + 1 ∧ good q e = true
      ∧ (q.routine e).watch (watch good fine bound') = some r
      ∧ (∀ v e', r = (.value v, e') → o = (v, e') ∧ fine o = true)
      ∧ ∀ q' e', r = (.goOn q', e') → watch good fine bound' q' e' = some o := by
  cases bound with
  | zero => cases watched
  | succ bound =>
    simp only [watch, Option.ite_none_right_eq_some] at watched
    obtain ⟨here, watched⟩ := watched
    cases routine : (q.routine e).watch (watch good fine bound) with
    | none => simp only [routine, reduceCtorEq] at watched
    | some r =>
      refine ⟨bound, r, rfl, here, routine, ?_, ?_⟩
      · rintro v e' rfl
        simp only [routine, Option.ite_none_right_eq_some, Option.some.injEq] at watched
        obtain ⟨passed, rfl⟩ := watched
        exact ⟨rfl, passed⟩
      · rintro q' e' rfl
        simpa only [routine] using watched

/-- What has been watched has been performed, and the outcome is fine. -/
theorem performs_of_watch : q.Performs e o ∧ fine o = true := by
  induction bound generalizing q e o with
  | zero => cases watched
  | succ bound ih =>
    obtain ⟨_, ⟨next, e'⟩, same, -, routine, value, goOn⟩ := watch_step watched
    obtain rfl := Nat.succ.inj same
    have ends := Progress.ends_of_watch (fun _ _ _ answered => (ih answered).1) routine
    rw [performs_iff_ends]
    cases next with
    | value v =>
      obtain ⟨rfl, here⟩ := value v e' rfl
      exact ⟨⟨_, ends, rfl⟩, here⟩
    | goOn q' =>
      obtain ⟨performs, here⟩ := ih (goOn q' e' rfl)
      exact ⟨⟨_, ends, performs⟩, here⟩

/-- All productions of the course have been watched. -/
theorem watch_within (within : q.Within e q' e') :
    ∃ bound' o', watch good fine bound' q' e' = some o' := by
  have sound : ∀ {bound : Nat} q e o, watch good fine bound q e = some o → q.Performs e o :=
    fun _ _ _ answered => (performs_of_watch answered).1
  induction within with
  | self => exact ⟨bound, o, watched⟩
  | asked _ asks ih =>
    obtain ⟨_, _, watched₁⟩ := ih
    obtain ⟨bound', r, rfl, -, routine, -⟩ := watch_step watched₁
    obtain ⟨o', answered⟩ := asks.answered sound routine
    exact ⟨bound', o', answered⟩
  | goesOn _ ends ih =>
    obtain ⟨_, o₁, watched₁⟩ := ih
    obtain ⟨bound', r, rfl, -, routine, -, goOn⟩ := watch_step watched₁
    obtain rfl := (Progress.ends_of_watch sound routine).unique ends
    exact ⟨bound', o₁, goOn _ _ rfl⟩

/-- All productions of the course are good, and all their outcomes are fine. -/
theorem good_of_watch (within : q.Within e q' e') :
    good q' e' = true ∧ ∀ o', q'.Performs e' o' → fine o' = true := by
  obtain ⟨bound', o₁, watched'⟩ := watch_within watched within
  obtain ⟨_, _, -, here, -⟩ := watch_step watched'
  obtain ⟨performs', passed⟩ := performs_of_watch watched'
  refine ⟨here, fun o' performs => ?_⟩
  rwa [performs.unique performs']

end Production

/-- What a routine waits for after some other productions. -/
def Progress.stage? {α : Type} (answer : Production → Engine → Option (Value × Engine)) :
    Nat → Progress α → Option (Production × Engine)
  | 0, .waiting q e _ => some (q, e)
  | n + 1, .waiting q e k => (answer q e).bind fun o => (k o).stage? answer n
  | _, _ => none

/-- What comes up in the course of a production along a path: each step goes to a
production that the routine waits for, or to the one that it hands over to. -/
def Production.stage? (bound : Nat) : List (Option Nat) → Production → Engine →
    Option (Production × Engine)
  | [], q, e => some (q, e)
  | some n :: path, q, e =>
    ((q.routine e).stage? (Production.watch (fun _ _ => true) (fun _ => true) bound) n).bind
      fun s => Production.stage? bound path s.1 s.2
  | none :: path, q, e =>
    match (q.routine e).watch (Production.watch (fun _ _ => true) (fun _ => true) bound) with
    | some (.goOn q', e') => Production.stage? bound path q' e'
    | _ => none

theorem Progress.asks_of_stage? {α : Type} {answer : Production → Engine → Option (Value × Engine)}
    (sound : ∀ q e o, answer q e = some o → q.Performs e o) {n : Nat} {p : Progress α}
    {s : Production × Engine} (stage : p.stage? answer n = some s) : p.Asks s.1 s.2 := by
  induction n generalizing p with
  | zero =>
    cases p with
    | waiting q e k =>
      obtain rfl := Option.some.inj stage
      exact .now q e k
    | _ => cases stage
  | succ n ih =>
    cases p with
    | waiting q e k =>
      obtain ⟨o, answered, rest⟩ := Option.bind_eq_some_iff.mp stage
      exact .later (sound q e o answered) (ih rest)
    | _ => cases stage

variable {e : Engine} {p : HostProgram}

/-- What comes up is in the course of the production. -/
theorem Production.within_of_stage? {bound : Nat} {path : List (Option Nat)} {q : Production}
    {s : Production × Engine} (stage : stage? bound path q e = some s) :
    q.Within e s.1 s.2 := by
  have sound : ∀ q e o, watch (fun _ _ => true) (fun _ => true) bound q e = some o →
      q.Performs e o :=
    fun _ _ _ answered => (performs_of_watch answered).1
  induction path generalizing q e with
  | nil =>
    obtain rfl := Option.some.inj stage
    exact .self
  | cons step path ih =>
    cases step with
    | some n =>
      obtain ⟨s', asked, rest⟩ := Option.bind_eq_some_iff.mp stage
      exact .trans (.asked .self (Progress.asks_of_stage? sound asked)) (ih rest)
    | none =>
      simp only [stage?] at stage
      split at stage
      · next q' e' watched =>
        exact .trans (.goesOn .self (Progress.ends_of_watch sound watched)) (ih stage)
      · cases stage

/-! ## Host programs -/

/-- A value that refers to nothing, or the global scope. -/
def Engine.knows? (e : Engine) (v : Value) : Bool :=
  !v.isEntity && v.kind != .span ||
    v == .ref .object 0 && 0 < e.arena.used && (match e.arena.load32 0 with
      | .ok header => Arena.headerKind header == 0
      | .error _ => false)

theorem Engine.knows_of_knows? {v : Value} (known : e.knows? v = true) : e.Knows v := by
  simp only [knows?, Bool.or_eq_true, Bool.and_eq_true, Bool.not_eq_true', bne_iff_ne, beq_iff_eq,
    decide_eq_true_eq] at known
  rcases known with ⟨bare, kind⟩ | ⟨⟨rfl, inside⟩, header⟩
  · refine ⟨fun entity => absurd entity (by simp [bare]), ⟨?_, kind⟩, ?_⟩
    · intro property
      rw [Value.isEntity, property] at bare
      cases bare
    · rw [Value.isEntity] at bare
      unfold Arena.Types
      cases here : v.kind with
      | object | property | string | function => simp [here, Kind.isEntity] at bare
      | _ => trivial
  · cases load : e.arena.load32 0 with
    | error h => simp only [load, Bool.false_eq_true] at header
    | ok word =>
      simp only [load, beq_iff_eq] at header
      refine ⟨fun _ => by rw [Value.kind_ref, Value.offset_ref], ?_, ?_⟩
      · rw [Value.IsPlain, Value.kind_ref]
        decide
      · simp only [Arena.Types, Value.kind_ref, Value.offset_ref]
        exact ⟨.start, inside, word, load, header⟩

theorem Engine.canCall_of_knows? {v : Value} (known : e.knows? v = true) : e.CanCall v := by
  intro function
  simp only [knows?, Bool.or_eq_true, Bool.and_eq_true, Bool.not_eq_true', beq_iff_eq] at known
  rcases known with ⟨bare, -⟩ | ⟨⟨rfl, -⟩, -⟩
  · rw [Value.isEntity, function] at bare
    cases bare
  · rw [Value.kind_ref] at function
    cases function

namespace HostProgram

/-- The values of the first request are known, and its texts are short. -/
def orderly? (e : Engine) : HostProgram → Bool
  | .done value => e.knows? value
  | .makeString text _ => text.size + 8 < 2 ^ 32
  | .set object key value _ => e.knows? object && e.knows? value && key.size + 8 < 2 ^ 32
  | .get object _ _ | .properties object _ => e.knows? object
  | .stringBytes value _ | .render value _ | .isTruthy value _ => e.knows? value
  | .evaluate text _ => text.size < 2 ^ 24
  | _ => true

theorem orderly_of_orderly? {e : Engine} {p : HostProgram} (orderly : p.orderly? e = true) :
    p.Orderly e := by
  cases p with
  | set object key value next =>
    simp only [orderly?, Bool.and_eq_true, decide_eq_true_eq] at orderly
    obtain ⟨⟨target, given⟩, short⟩ := orderly
    exact ⟨⟨Engine.knows_of_knows? target, Engine.knows_of_knows? given⟩,
      Engine.canCall_of_knows? target, short, Engine.canCall_of_knows? given⟩
  | done value | get value _ _ | properties value _ | stringBytes value _ | render value _
  | isTruthy value _ => exact ⟨Engine.knows_of_knows? orderly, Engine.canCall_of_knows? orderly⟩
  | makeString text _ | evaluate text _ =>
    simp only [orderly?, decide_eq_true_eq] at orderly
    exact ⟨trivial, orderly⟩
  | _ => exact ⟨trivial, trivial⟩

/-- Answers the requests of a program within a bound, and looks at each request
and at all productions that come up. -/
def watch (good : Production → Engine → Bool) (bound : Nat) (offset : UInt32) (count : Nat) :
    Nat → HostProgram → Engine → Bool
  | 0, _, _ => false
  | steps + 1, p, e =>
    p.orderly? e && match p.first? offset count with
      | none => true
      | some r =>
        match (r.routine e).watch (Production.watch good (fun _ => true) bound) with
        | none => false
        | some (a, e') => watch good bound offset count steps (r.next a) e'

variable {good : Production → Engine → Bool} {bound steps : Nat} {offset : UInt32} {count : Nat}
  {p p' : HostProgram} {e e' : Engine}

/-- Every request has been looked at, with the productions it waits for. -/
theorem Comes.watched (comes : p.Comes offset count e p' e')
    (watched : watch good bound offset count steps p e = true) :
    p'.Orderly e' ∧ ∀ text next, p' = .evaluate text next → ∀ q e'',
      (Production.evaluate text).Within e' q e'' → good q e'' = true := by
  have all : ∃ steps', watch good bound offset count steps' p' e' = true := by
    induction comes with
    | start => exact ⟨steps, watched⟩
    | @answered p₁ e₁ e₂ r a _ first ends ih =>
      obtain ⟨steps', watched₁⟩ := ih
      cases steps' with
      | zero => cases watched₁
      | succ steps' =>
        simp only [watch, Bool.and_eq_true, first] at watched₁
        obtain ⟨-, watched₁⟩ := watched₁
        cases routine : (r.routine e₁).watch (Production.watch good (fun _ => true) bound) with
        | none => simp only [routine, Bool.false_eq_true] at watched₁
        | some x =>
          obtain rfl := (Progress.ends_of_watch (fun _ _ _ answered =>
            (Production.performs_of_watch answered).1)
            routine).unique ends
          simp only [routine] at watched₁
          exact ⟨steps', watched₁⟩
  obtain ⟨steps', watched'⟩ := all
  cases steps' with
  | zero => cases watched'
  | succ steps' =>
    simp only [watch, Bool.and_eq_true] at watched'
    refine ⟨orderly_of_orderly? watched'.1, ?_⟩
    rintro text next rfl q e'' within
    have answered := watched'.2
    simp only [first?] at answered
    cases outcome : Production.watch good (fun _ => true) bound (.evaluate text) e' with
    | none => simp [Routine.call, Progress.watch, outcome] at answered
    | some o => exact (Production.good_of_watch outcome within).1

/-- A program that has been watched comes to its end. -/
theorem exists_done_of_watch (watched : watch good bound offset count steps p e = true) :
    ∃ v e', p.Comes offset count e (.done v) e' := by
  induction steps generalizing p e with
  | zero => cases watched
  | succ steps ih =>
    simp only [watch, Bool.and_eq_true] at watched
    obtain ⟨-, watched⟩ := watched
    cases first : p.first? offset count with
    | none =>
      cases p with
      | done v => exact ⟨v, e, .start⟩
      | _ => cases first
    | some r =>
      simp only [first] at watched
      cases routine : (r.routine e).watch (Production.watch good (fun _ => true) bound) with
      | none => simp only [routine, Bool.false_eq_true] at watched
      | some x =>
        simp only [routine] at watched
        obtain ⟨v, e', rest⟩ := ih watched
        have ends := Progress.ends_of_watch
          (fun _ _ _ answered => (Production.performs_of_watch answered).1) routine
        exact ⟨v, e', .later first ends rest⟩

end HostProgram

/-! ## Sessions -/

/-- Looks at the program of a native when it is called. -/
def Production.calls? (bound steps : Nat) : Production → Engine → Bool
  | .pushArguments index count, e =>
    let starts :=
      if e.cursor.length ≤ e.cursor.pos then some e
      else match Engine.token e with
        | .ok (.rightParen, e₀) => some e₀
        | _ => none
    starts.all fun e₀ =>
      match Engine.changeArena (·.reverse count) e₀ with
      | .error _ => true
      | .ok ((), e') => e'.natives[index]?.all fun native =>
        HostProgram.watch (fun _ _ => true) bound e'.arena.limit count.toNat steps
          (native.program count.toNat) e'
  | _, _ => true

theorem Production.keeps_of_calls? {bound steps index : Nat} {count : UInt32} {e e₁ : Engine}
    (fine : calls? bound steps (.pushArguments index count) e = true)
    (calls : e.CallsNative index count p e₁) :
    p.Keeps HostProgram.Orderly e₁.arena.limit count.toNat e₁ := by
  obtain ⟨e₀, native, before, turned, found, rfl⟩ := calls
  have watched : HostProgram.watch (fun _ _ => true) bound e₁.arena.limit count.toNat steps
      (native.program count.toNat) e₁ = true := by
    simp only [calls?] at fine
    rcases before with ⟨isOver, rfl⟩ | ⟨more, token⟩
    · simpa only [if_pos isOver, Option.all_some, turned, found] using fine
    · simpa only [if_neg (Nat.not_le.mpr more), token, Option.all_some, turned, found] using fine
  exact fun p' e' comes => (comes.watched watched).1

/-- The natives that have been watched keep to the rules. -/
theorem Production.careful_of_watch {bound steps n : Nat} {fine : Value × Engine → Bool}
    {q : Production} {o : Value × Engine}
    (watched : watch (calls? bound steps) fine n q e = some o) : q.Careful e :=
  fun _ _ _ _ _ within calls p' e' comes =>
    (keeps_of_calls? (good_of_watch watched within).1 calls p' e' comes).1

/-- A session that has been watched is orderly, and so are the natives it calls. -/
theorem HostProgram.follows_of_watch {bound steps : Nat}
    (watched : p.watch (Production.calls? bound steps) bound 0 0 steps e = true) :
    p.Follows Orderly e := by
  intro p' e' comes
  obtain ⟨orderly, good⟩ := comes.watched watched
  refine ⟨orderly, fun text next eq index count e'' q e₁ within calls => ?_⟩
  exact Production.keeps_of_calls? (good text next eq _ e'' within) calls

/-- So it keeps to the rules. -/
theorem HostProgram.behaves_of_watch {bound steps : Nat}
    (watched : p.watch (Production.calls? bound steps) bound 0 0 steps e = true) : p.Behaves e := by
  intro p' e' comes
  obtain ⟨orderly, keeps⟩ := follows_of_watch watched p' e' comes
  refine ⟨orderly.1, fun text next eq index count e'' q e₁ within calls p'' e₂ comes => ?_⟩
  exact (keeps text next eq index count e'' q e₁ within calls p'' e₂ comes).1

end ArenaScript
