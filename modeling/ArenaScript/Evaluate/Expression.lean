import ArenaScript.Engine.Operators
import ArenaScript.Evaluate.Literal

/-!
# Expressions

The grammar of expressions, from the weakest operators to the tightest.  Each
routine reads its part of the text and evaluates it on the way; in a dry run
it only reads.  A left operand is held while the right one is evaluated.

Main definitions:

- `Routine.expression`, `Routine.assignment`, `Routine.conditional`,
  `Routine.logical`, `Routine.binary`, `Routine.unary`, `Routine.access`.
-/

namespace ArenaScript.Routine

open Engine

/-- Evaluates a production while a value is held; gives the value back with
the outcome. -/
def holding (v : Value) (production : Production) : Routine (Value × Value) := do
  hold v
  let outcome ← call production
  let v ← unhold
  return (v, outcome)

/-- Goes back to a mode. -/
def restoreMode (mode : Mode) : Action Unit := changeMode fun _ => mode

/-- Starts a dry run. -/
def goDry : Action Unit := changeMode fun m => { m with dry := true }

/-! ## Nesting and assignments -/

/-- An expression is one level of nesting. -/
def expression : Routine Next := do
  modify fun e => { e with depth := e.depth + 1 }
  let v ← call .assignment
  modify fun e => { e with depth := e.depth - 1 }
  give v

/-- An assignment or a conditional. -/
def assignment : Routine Next := do
  goOn (.assignmentRest (← call .conditional))

/-- Assignments associate to the right. -/
def assignmentRest (left : Value) : Routine Next := do
  if left.isError then give left
  else
    match ← token with
    | .assign op =>
      use
      let (left, right) ← holding left .assignment
      if right.isError then give right
      else goOn (.assignmentRest (← applyAssign op left right))
    | _ => give left

/-! ## Conditionals -/

/-- The first branch of a conditional is evaluated and the second one read. -/
def chooseFirst (mode : Mode) : Routine Next := do
  let v ← call .conditional
  if v.isError then
    restoreMode mode
    give v
  else
    goDry
    if !(← expect .colon) then
      restoreMode mode
      give (← malformed)
    else
      let other ← call .conditional
      restoreMode mode
      give (if other.isError then other else v)

/-- The first branch of a conditional is read and the second one evaluated. -/
def chooseSecond (mode : Mode) : Routine Next := do
  goDry
  let other ← call .conditional
  if other.isError then
    restoreMode mode
    give other
  else if !(← expect .colon) then
    restoreMode mode
    give (← malformed)
  else
    restoreMode mode
    goOn .conditional

/-- A condition, and its two branches if a question mark follows. -/
def conditional : Routine Next := do
  let v ← call (.logical .or)
  if v.isError then give v
  else if (← token) ≠ .question then give v
  else
    let mode := (← get).mode
    use
    if ← isTruthy (← resolve v) then chooseFirst mode else chooseSecond mode

/-! ## Logical operators -/

/-- The production of the operands of a logical operator. -/
def operandOf : LogicalOp → Production
  | .or => .logical .and
  | .and => .binary 0

/-- The truth value of the left side that decides a logical operator. -/
def decisive : LogicalOp → Bool
  | .or => true
  | .and => false

/-- A chain of one logical operator. -/
def logical (op : LogicalOp) : Routine Next := do
  let v ← call (operandOf op)
  if v.isError then give v else goOn (.logicalRest op v (← get).mode)

/-- Once the left side decides, the rest of the chain is only read. -/
def logicalRest (op : LogicalOp) (v : Value) (mode : Mode) : Routine Next := do
  if (← token) ≠ .logical op then
    restoreMode mode
    give v
  else
    use
    let v ← resolve v
    if (← isTruthy v) = decisive op then goDry
    let dry ← isDry
    let right ← call (.logical op)
    if right.isError then
      restoreMode mode
      give right
    else goOn (.logicalRest op (if dry then v else right) mode)

/-! ## Strict operators -/

/-- A chain of operators that bind at least as tightly as a level. -/
def binary (level : Nat) : Routine Next := do
  goOn (.binaryRest level (← call .unary))

/-- The operator of a token, if it binds at least as tightly as a level. -/
def operatorFrom? (level : Nat) : Token → Option (BinaryOp × Nat)
  | .binary op =>
    match op.level with
    | some own => if level ≤ own then some (op, own) else none
    | none => none
  | _ => none

/-- Operators of one level associate to the left: the right operand holds only
tighter ones. -/
def binaryRest (level : Nat) (left : Value) : Routine Next := do
  if left.isError then give left
  else
    match operatorFrom? level (← token) with
    | some (op, own) =>
      use
      let (left, right) ← holding left (.binary (own + 1))
      if right.isError then give right
      else goOn (.binaryRest level (← applyBinary op left right))
    | none => give left

/-! ## Prefixed operators, powers and steps -/

/-- A value with a step after it. -/
def stepped : Routine Value := do
  let v ← call .access
  if v.isError then return v
  match ← token with
  | .increment =>
    use
    applyStep .plus v
  | .decrement =>
    use
    applyStep .minus v
  | _ => return v

/-- A power associates to the right and binds tighter than an operator in front
of it. -/
def power : Routine Next := do
  let v ← stepped
  if v.isError then give v
  else if (← token) ≠ .binary .power then give v
  else
    use
    let (left, right) ← holding v .unary
    give (← applyBinary .power left right)

/-- A prefixed operator or a power. -/
def unary : Routine Next := do
  match (← token).unary? with
  | some op =>
    use
    let v ← call .unary
    give (← applyUnary op v)
  | none => power

end ArenaScript.Routine
