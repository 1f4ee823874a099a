import ArenaScript.Evaluate.Statement

/-!
# Running productions

Two ways to run the routines of the productions.  `Production.perform` follows
the structure of the grammar: a routine that waits is resumed with the outcome
of what it waits for.  `Machine.run` keeps the waiting routines on a stack, so
that its own nesting does not grow.

Main definitions:

- `Production.routine`: the routine of a production.
- `Production.perform`: the outcome of a production, by its parts.
- `Machine.run`: the same outcome, step by step.
- `Engine.evaluate`: the evaluation of a text.
-/

namespace ArenaScript

/-- The routine of a production. -/
def Production.routine : Production → Routine Next
  | .expression => Routine.expression
  | .assignment => Routine.assignment
  | .assignmentRest left => Routine.assignmentRest left
  | .conditional => Routine.conditional
  | .logical op => Routine.logical op
  | .logicalRest op value mode => Routine.logicalRest op value mode
  | .binary level => Routine.binary level
  | .binaryRest level left => Routine.binaryRest level left
  | .unary => Routine.unary
  | .access => Routine.access
  | .accessRest value => Routine.accessRest value
  | .members => Routine.members
  | .parameters afterComma => Routine.parameters afterComma
  | .argumentList afterComma => Routine.argumentList afterComma
  | .bindParameters pos length => Routine.bindParameters pos length
  | .pushArguments index count => Routine.pushArguments index count
  | .statement => Routine.statement
  | .block inScope => Routine.block inScope
  | .blockRest value => Routine.blockRest value
  | .bindings execute => Routine.bindings execute
  | .rounds mode marks => Routine.rounds mode marks
  | .script value => Routine.script value
  | .evaluate text => Routine.evaluate text

/-! ## By structure -/

namespace Production

/-- The outcome of a routine whose waiting points are answered by a function. -/
def settle (answer : Production → Engine → Except Halt (Value × Engine)) {α : Type} :
    Progress α → Except Halt α
  | .finished a => .ok a
  | .halted h => .error h
  | .waiting production e resume =>
    match answer production e with
    | .ok outcome => settle answer (resume outcome)
    | .error h => .error h

/-- The outcome of a production, with a bound on the nesting of productions. -/
def perform : Nat → Production → Engine → Except Halt (Value × Engine)
  | 0, _, _ => .error .exhausted
  | bound + 1, production, e =>
    match settle (perform bound) (production.routine e) with
    | .ok (.value v, e) => .ok (v, e)
    | .ok (.goOn next, e) => perform bound next e
    | .error h => .error h

end Production

/-! ## Step by step -/

namespace Machine

/-- A routine that waits for a value. -/
abbrev Waiting := Value × Engine → Progress (Next × Engine)

/-- Runs a routine and those that wait for it, the innermost first, for a
number of steps. -/
def run : Nat → Progress (Next × Engine) → List Waiting → Except Halt (Value × Engine)
  | 0, _, _ => .error .exhausted
  | _ + 1, .halted h, _ => .error h
  | steps + 1, .waiting production e resume, stack =>
    run steps (production.routine e) (resume :: stack)
  | steps + 1, .finished (.goOn next, e), stack => run steps (next.routine e) stack
  | _ + 1, .finished (.value v, e), [] => .ok (v, e)
  | steps + 1, .finished (.value v, e), resume :: stack => run steps (resume (v, e)) stack

end Machine

namespace Engine

/-- The evaluation of a text, for a number of steps. -/
def evaluate (steps : Nat) (text : ByteArray) : Action Value := fun e =>
  Machine.run steps ((Production.evaluate text).routine e) []

end Engine

end ArenaScript
