import ArenaScript.Proofs.Arena.Layout
import ArenaScript.Proofs.Evaluate.Course
import ArenaScript.Proofs.Source.Parameters

/-!
# Host programs in the course of a run

A host program is answered one request after the other.  Its course is a
sequence of programs, each with the engine that is to answer its first request.

A host keeps to the rules if the values it hands over refer to entities of their
kinds, as those it has been given do until a collection moves or frees them.
Nothing else is asked of it: what it does with the answers is its own affair.
A prudent host, besides, hands over no function that the engine cannot have made
and no text that is too long for an engine.

Main definitions:

- `HostProgram.first?`: the first request of a program.
- `HostProgram.Comes`: the course of a program.
- `HostProgram.Fair`, `HostProgram.Prudent`: rules for the first request.
- `HostProgram.Careful`, `Production.Careful`: fairness at every request, and of
  all natives that are called; `HostProgram.Keeps`, `Production.Keeps` the same
  for any rule.

Main results:

- `Routine.ofProgram_eq`: a program is answered request by request.
- `HostProgram.induction`: what follows each answer may be supposed.
-/

namespace ArenaScript

/-- A request of a host and what follows its answer. -/
structure HostProgram.Request where
  Answer : Type
  routine : Routine Answer
  next : Answer → HostProgram

namespace HostProgram

/-- The first request of a program; none if it is done. -/
def first? (offset : UInt32) (count : Nat) : HostProgram → Option Request
  | .done _ => none
  | .argument index next => some ⟨Value, Engine.argument offset count index, next⟩
  | .makeString text next => some ⟨Value, Engine.newString text, next⟩
  | .makeObject next => some ⟨Value, Engine.newObject 0, next⟩
  | .makeError message next => some ⟨Value, Engine.fail (.native message), next⟩
  | .register native next => some ⟨Value, Engine.registerNative ⟨native⟩, next⟩
  | .set object key value next =>
    some ⟨Option SetError, Engine.setProperty object key value, next⟩
  | .get object key next => some ⟨Value, Engine.getProperty object key, next⟩
  | .properties object next =>
    some ⟨List (ByteArray × Value), Engine.listProperties object, next⟩
  | .stringBytes value next => some ⟨Option ByteArray, Engine.stringBytes? value, next⟩
  | .render value next => some ⟨ByteArray, Engine.render value, next⟩
  | .isTruthy value next => some ⟨Bool, Engine.isTruthy value, next⟩
  | .collect next => some ⟨Bool, Engine.collect, next⟩
  | .stats next => some ⟨Stats, Engine.stats, next⟩
  | .dump next => some ⟨ByteArray, Engine.dump, next⟩
  | .setThreshold size next =>
    some ⟨PUnit, modify fun e => { e with threshold := size }, fun _ => next⟩
  | .setMaxDepth depth next =>
    some ⟨PUnit, modify fun e => { e with maxDepth := depth }, fun _ => next⟩
  | .evaluate text next => some ⟨Value, Routine.call (.evaluate text), next⟩
  | .write text next => some ⟨Unit, Engine.writeOutput text, fun _ => next⟩

variable {offset : UInt32} {count : Nat}

/-- A property of what follows each answer is one of all programs. -/
theorem induction {motive : HostProgram → Prop} (offset : UInt32) (count : Nat)
    (step : ∀ p : HostProgram,
      (∀ r, p.first? offset count = some r → ∀ a, motive (r.next a)) → motive p)
    (p : HostProgram) : motive p := by
  induction p with
  | done value => exact step _ nofun
  | setThreshold size next ih | setMaxDepth size next ih | write text next ih =>
    refine step _ fun r first a => ?_
    cases first
    exact ih
  | _ =>
    rename_i ih
    refine step _ fun r first a => ?_
    cases first
    exact ih a

end HostProgram

/-- A program is answered request by request. -/
theorem Routine.ofProgram_eq {offset : UInt32} {count : Nat} {p : HostProgram}
    {r : HostProgram.Request} (first : p.first? offset count = some r) (e : Engine) :
    ofProgram offset count p e
      = (r.routine e).bind fun a => ofProgram offset count (r.next a.1) a.2 := by
  cases p <;> cases first <;> rfl

/-- An action does not wait. -/
theorem Routine.not_asks_action {α : Type} (a : Action α) (e : Engine) (q : Production)
    (e' : Engine) : ¬ ((liftM a : Routine α) e).Asks q e' := by
  show ¬ (Progress.ofExcept (a e)).Asks q e'
  cases a e <;> exact nofun

namespace HostProgram

variable {offset : UInt32} {count : Nat}

/-- Only for an evaluation a production is performed. -/
theorem eq_evaluate_of_asks {p : HostProgram} {r : Request} (first : p.first? offset count = some r)
    {q : Production} {e e' : Engine} (asks : (r.routine e).Asks q e') :
    ∃ text next, p = .evaluate text next ∧ q = .evaluate text ∧ e' = e := by
  cases p with
  | evaluate text next =>
    cases first
    cases asks with
    | now => exact ⟨text, next, rfl, rfl, rfl⟩
    | later performs rest => cases rest
  | done value => cases first
  | setThreshold size next | setMaxDepth size next =>
    cases first
    cases asks
  | _ =>
    cases first
    exact absurd asks (Routine.not_asks_action _ _ _ _)

/-- The course of a program: what comes after some of its requests, with the
engine at that time. -/
inductive Comes (offset : UInt32) (count : Nat) (p : HostProgram) (e : Engine) :
    HostProgram → Engine → Prop
  | start : Comes offset count p e p e
  | answered {p' : HostProgram} {e' e'' : Engine} {r : Request} {a : r.Answer}
      (before : Comes offset count p e p' e') (first : p'.first? offset count = some r)
      (ends : (r.routine e').Ends (a, e'')) : Comes offset count p e (r.next a) e''

/-- What comes after a request comes later in the course. -/
theorem Comes.later {p p' : HostProgram} {e e₁ e' : Engine} {r : Request} {a : r.Answer}
    (first : p.first? offset count = some r) (ends : (r.routine e).Ends (a, e₁))
    (rest : Comes offset count (r.next a) e₁ p' e') : Comes offset count p e p' e' := by
  induction rest with
  | start => exact .answered .start first ends
  | answered _ first' ends' ih => exact .answered ih first' ends'

end HostProgram

/-! ## Rules -/

/-- A value that can be handed over to an engine: it is one that the engine could
have given, and if it refers to an entity, one of its kind stands there. -/
def Engine.Knows (e : Engine) (v : Value) : Prop :=
  v.Canonical ∧ v.IsPlain ∧ e.arena.Types v

/-- The first request of a program keeps to the rules. -/
def HostProgram.Fair (e : Engine) : HostProgram → Prop
  | .done value => e.Knows value
  | .set object _ value _ => e.Knows object ∧ e.Knows value
  | .get object _ _ | .properties object _ => e.Knows object
  | .stringBytes value _ | .render value _ | .isTruthy value _ => e.Knows value
  | _ => True

/-- A function handed over to an engine has the text of a literal: behind its
parameters a body begins. -/
def Engine.CanCall (e : Engine) (v : Value) : Prop :=
  v.kind = .function → ∀ text, e.arena.stringBytes v.offset = .ok text → Source.Callable text

/-- The first request of a program asks nothing that an engine has no room to
count. -/
def HostProgram.Prudent (e : Engine) : HostProgram → Prop
  | .done value => e.CanCall value
  | .makeString text _ => text.size + 8 < 2 ^ 32
  | .set object key value _ => e.CanCall object ∧ key.size + 8 < 2 ^ 32 ∧ e.CanCall value
  | .get object _ _ | .properties object _ => e.CanCall object
  | .stringBytes value _ | .render value _ | .isTruthy value _ => e.CanCall value
  | .evaluate text _ => text.size < 2 ^ 24
  | _ => True

/-- The first request of a program is fair and prudent. -/
def HostProgram.Orderly (e : Engine) (p : HostProgram) : Prop := p.Fair e ∧ p.Prudent e

/-- A program keeps to the rules all along. -/
def HostProgram.Careful (offset : UInt32) (count : Nat) (p : HostProgram) (e : Engine) : Prop :=
  ∀ p' e', p.Comes offset count e p' e' → p'.Fair e'

/-- A program keeps to a rule all along. -/
def HostProgram.Keeps (rule : Engine → HostProgram → Prop) (offset : UInt32) (count : Nat)
    (p : HostProgram) (e : Engine) : Prop :=
  ∀ p' e', p.Comes offset count e p' e' → rule e' p'

/-- A native is called once there are no more arguments: its program and the
engine it starts on. -/
def Engine.CallsNative (e : Engine) (index : Nat) (count : UInt32) (p : HostProgram)
    (e' : Engine) : Prop :=
  ∃ e₀ native, (e.cursor.length ≤ e.cursor.pos ∧ e₀ = e ∨
      e.cursor.pos < e.cursor.length ∧ token e = .ok (.rightParen, e₀))
    ∧ changeArena (·.reverse count) e₀ = .ok ((), e') ∧ e'.natives[index]? = some native
    ∧ p = native.program count.toNat

/-- All natives called in the course of a production keep to the rules. -/
def Production.Careful (q : Production) (e : Engine) : Prop :=
  ∀ index count e' p e₁, q.Within e (.pushArguments index count) e' →
    e'.CallsNative index count p e₁ → p.Careful e₁.arena.limit count.toNat e₁

/-- All natives called in the course of a production keep to a rule. -/
def Production.Keeps (rule : Engine → HostProgram → Prop) (q : Production) (e : Engine) : Prop :=
  ∀ index count e' p e₁, q.Within e (.pushArguments index count) e' →
    e'.CallsNative index count p e₁ → p.Keeps rule e₁.arena.limit count.toNat e₁

namespace Production

/-- What is performed in the course of a part is performed in the course of the
whole. -/
theorem Within.trans {q q' q'' : Production} {e e' e'' : Engine} (outer : q.Within e q' e')
    (inner : q'.Within e' q'' e'') : q.Within e q'' e'' := by
  induction inner with
  | self => exact outer
  | asked _ asks ih => exact .asked ih asks
  | goesOn _ ends ih => exact .goesOn ih ends

theorem Keeps.within {rule : Engine → HostProgram → Prop} {q q' : Production} {e e' : Engine}
    (keeps : q.Keeps rule e) (within : q.Within e q' e') : q'.Keeps rule e' :=
  fun index count e₁ p e₂ inner calls => keeps index count e₁ p e₂ (within.trans inner) calls

theorem Careful.keeps {rule : Engine → HostProgram → Prop} (follows : ∀ e p, p.Fair e → rule e p)
    {q : Production} {e : Engine} (careful : q.Careful e) : q.Keeps rule e :=
  fun index count e' p e₁ within calls p' e'' comes =>
    follows e'' p' (careful index count e' p e₁ within calls p' e'' comes)

end Production

end ArenaScript
