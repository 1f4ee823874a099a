import ArenaScript.Engine.Heap
import ArenaScript.Number.Arithmetic

/-!
# Operators

What the operators of the language do to values.  An error among the operands
is the result, the left one first; then a dry run ends.  Property references
are followed, and the kinds of the values decide what the operator does.

Main definitions:

- `Engine.withOperands`: the order of checks shared by all operators.
- `Engine.applyUnary`, `Engine.applyBinary`, `Engine.applyDot`,
  `Engine.applyAssign`, `Engine.applyStep`: the operators.
-/

namespace ArenaScript.Engine

/-- Hands the plain values of two operands to an operator, unless one is an
error or the run is dry. -/
def withOperands (left right : Value) (k : Value → Value → Action Value) : Action Value := do
  if left.isError then return left
  if right.isError then return right
  if ← isDry then return .zero
  let l ← resolve left
  let r ← resolve right
  noteUse
  if l.isError then return l
  if r.isError then return r
  k l r

/-! ## Strings -/

/-- The string made of two strings. -/
def concat (l r : Value) : Action Value := do
  let first ← stringBytes l
  let second ← stringBytes r
  newString (first ++ second)

/-- An operator on two strings. -/
def stringOp (op : BinaryOp) (l r : Value) : Action Value := do
  match op with
  | .plus => concat l r
  | .equal => return .ofBool ((← stringBytes l) == (← stringBytes r))
  | .notEqual => return .ofBool ((← stringBytes l) != (← stringBytes r))
  | _ => fail .badStringOperator

/-! ## Strict operators -/

/-- An operator on two plain values. -/
def binaryOnValues (op : BinaryOp) (l r : Value) : Action Value := do
  if l.kind = .string ∧ r.kind = .string then stringOp op l r
  else if l.kind = .number ∧ r.kind = .number then
    match Number.binary op l.toFloat r.toFloat with
    | some v => return v
    | none => fail .divisionByZero
  else if op = .equal ∧ l.kind = r.kind then return .ofBool (l = r)
  else if op = .notEqual ∧ l.kind = r.kind then return .ofBool (l ≠ r)
  else fail .typeMismatch

/-- An operator on two operands. -/
def applyBinary (op : BinaryOp) (left right : Value) : Action Value :=
  withOperands left right (binaryOnValues op)

/-- An operator on a plain value. -/
def unaryOnValue (op : UnaryOp) (v : Value) : Action Value :=
  if op = .typeOf then newString (Bytes.ofString v.kind.name)
  else if op = .not ∧ v.kind = .boolean then return .ofBool !v.toBool
  else if v.kind = .number then return Number.unary op v.toFloat
  else fail .typeMismatch

/-- An operator on one operand. -/
def applyUnary (op : UnaryOp) (operand : Value) : Action Value :=
  withOperands .undefined operand fun _ v => unaryOnValue op v

/-! ## Properties -/

/-- The property of a plain value with the name a span stands for.  A string
has a length. -/
def dotOnValues (l r : Value) : Action Value := do
  if l.kind = .string ∧ r.kind = .string then fail .badStringOperator
  else if r.kind ≠ .span then fail .nameExpected
  else
    let name ← spanText r
    if l.kind = .string ∧ name = Bytes.ofString "length" then
      return .ofFloat (← stringLength l).toFloat
    else if l.kind ≠ .object then fail .lookupInNonObject
    else
      let property ← findProperty l.offset name
      return if property = 0 then .undefined else .ref .property property

/-- The dot operator. -/
def applyDot (left right : Value) : Action Value := withOperands left right dotOnValues

/-! ## Assignments -/

/-- Combines the value of a property with another by an operator.  If that
fails the property keeps its value. -/
def update (op : BinaryOp) (target value : Value) : Action Value := do
  let result ← applyBinary op (← resolve target) value
  if result.isError then return result
  assign target result

/-- An assignment, plain or combined with an operator. -/
def applyAssign (op : Option BinaryOp) (left right : Value) : Action Value :=
  withOperands left right fun _ r => do
    if left.kind ≠ .property then fail .badTarget
    else
      match op with
      | none => assign left r
      | some op => update op left r

/-- Adds one to a property, or takes one away; the value is the old one. -/
def applyStep (op : BinaryOp) (operand : Value) : Action Value :=
  withOperands operand .zero fun l _ => do
    if operand.kind ≠ .property then fail .badTarget
    else
      let result ← update op operand (.ofFloat 1)
      return if result.isError then result else l

end ArenaScript.Engine
