import ArenaScript.Host.Requests

/-!
# Routines

Every production of the grammar has a routine: it works on the engine until it
is done, or until it needs the value of another production.  It names that
production and goes on once it has the value.  No routine runs another
production by itself, so routines are plain definitions; what runs them decides
how the waiting ones are kept.

Main definitions:

- `Production`: the productions that others may wait for.
- `Progress`: how far a routine has come.
- `Routine`: a computation on an engine that may wait for productions.
- `Next`: how a production ends, with a value or by handing over.
-/

namespace ArenaScript

/-- Positions of the parts of a loop: its condition, its step, its body and
what follows. -/
structure LoopMarks where
  condition : Nat
  step : Nat
  body : Nat
  after : Nat
deriving DecidableEq, Repr

/-- The productions that others may wait for. -/
inductive Production where
  /-- An expression. -/
  | expression
  /-- An assignment or a conditional. -/
  | assignment
  /-- The rest of an assignment whose left side is known. -/
  | assignmentRest (left : Value)
  /-- A conditional. -/
  | conditional
  /-- A chain of one logical operator. -/
  | logical (op : LogicalOp)
  /-- The rest of such a chain, with the value so far and the mode it started
  in. -/
  | logicalRest (op : LogicalOp) (value : Value) (mode : Mode)
  /-- A chain of operators that bind at least as tightly as a level. -/
  | binary (level : Nat)
  /-- The rest of such a chain. -/
  | binaryRest (level : Nat) (left : Value)
  /-- A prefixed operator or a power. -/
  | unary
  /-- A value followed by accesses and calls. -/
  | access
  /-- The rest of such a chain. -/
  | accessRest (value : Value)
  /-- The rest of an object literal; the object is held. -/
  | members
  /-- The rest of a parameter list, after a comma or not. -/
  | parameters (afterComma : Bool)
  /-- The rest of an argument list that is passed over, after a comma or not. -/
  | argumentList (afterComma : Bool)
  /-- Binds the parameters of a called function from a position of its text
  on, then runs its body. -/
  | bindParameters (pos length : Nat)
  /-- Evaluates the arguments of a native from a position on, then calls it. -/
  | pushArguments (index : Nat) (count : UInt32)
  /-- A statement. -/
  | statement
  /-- A block up to its closing brace, in a scope of its own or not. -/
  | block (inScope : Bool)
  /-- The rest of a block, with the value so far. -/
  | blockRest (value : Value)
  /-- The rest of a declaration, executed or not. -/
  | bindings (execute : Bool)
  /-- The rounds of a loop that started in a mode. -/
  | rounds (mode : Mode) (marks : LoopMarks)
  /-- The statements of the current text, with the value so far. -/
  | script (value : Value)
  /-- The evaluation of a text. -/
  | evaluate (text : ByteArray)

/-- How a production ends. -/
inductive Next where
  /-- It has a value. -/
  | value (v : Value)
  /-- Another production gives the value. -/
  | goOn (production : Production)

/-- How far a routine has come. -/
inductive Progress (α : Type) where
  /-- It is done. -/
  | finished (a : α)
  /-- It stopped without an answer. -/
  | halted (h : Halt)
  /-- It waits for the value of a production, to be performed on an engine. -/
  | waiting (production : Production) (e : Engine) (resume : Value × Engine → Progress α)

namespace Progress

/-- Goes on with what has come out. -/
def bind {α β : Type} : Progress α → (α → Progress β) → Progress β
  | finished a, f => f a
  | halted h, _ => halted h
  | waiting production e resume, f =>
    waiting production e fun answer => (resume answer).bind f

instance : Monad Progress where
  pure := finished
  bind := bind

/-- An outcome that does not wait. -/
def ofExcept {α : Type} : Except Halt α → Progress α
  | .ok a => finished a
  | .error h => halted h

end Progress

/-- A computation on an engine that may wait for productions. -/
abbrev Routine := StateT Engine Progress

namespace Routine

/-- An action is a routine that does not wait. -/
instance : MonadLift Action Routine where
  monadLift action := fun e => Progress.ofExcept (action e)

/-- Waits for the value of a production. -/
def call (production : Production) : Routine Value := fun e => .waiting production e .finished

/-- Ends with a value. -/
def give (v : Value) : Routine Next := return .value v

/-- Hands over to another production. -/
def goOn (production : Production) : Routine Next := return .goOn production

end Routine

end ArenaScript
