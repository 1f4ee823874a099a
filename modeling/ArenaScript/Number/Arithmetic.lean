import ArenaScript.Number.Binary64
import ArenaScript.Token
import ArenaScript.Value

/-!
# Arithmetic

The operators on numbers.  Sums, products and quotients are those of doubles.
The remainder is exact and has the sign of the dividend.  Powers are computed
by repeated squaring of the mantissa.  Bitwise operators work on the whole part
as a 64-bit integer, and only the unsigned shift on its low 32 bits.

Main definitions:

- `Number.remainder`, `Number.power`: remainder and power.
- `Number.binary`, `Number.unary`: the value of an operator.
-/

namespace ArenaScript.Number

-- powers of whole numbers are those of the core library, whatever else is imported
attribute [local instance (high)] instPowNat

/-! ## Remainder -/

/-- Puts a sign on the pattern of an absolute value. -/
def withSign (negative : Bool) (bits : UInt64) : UInt64 :=
  if negative then bits ||| 0x8000000000000000 else bits

/-- The remainder of two positive numbers. -/
def dyadicRemainder (x y : Dyadic) : UInt64 :=
  let e := min x.exponent y.exponent
  let n := x.mantissa * 2 ^ (x.exponent - e).toNat
  let d := y.mantissa * 2 ^ (y.exponent - e).toNat
  let (num, den) := Binary64.scaled (n % d) 2 e
  Binary64.ofRatio num den

/-- The remainder of the division of two patterns, with the sign of the first. -/
def remainder (x y : UInt64) : UInt64 :=
  if !Binary64.isFinite x || Value.isNotANumber y || Binary64.magnitude y == 0 then
    Value.notANumber.bits
  else if Binary64.isInfinite y then x
  else withSign (Binary64.isNegative x) (dyadicRemainder (Binary64.decode x) (Binary64.decode y))

/-! ## Powers -/

/-- Multiplies `acc * 2 ^ accExp` by the power of `x * 2 ^ exp` with an exponent
given by its bits, the lowest first.  Beyond an exponent of 4096 the result is
certain to leave the range of doubles, and the rest is not computed. -/
def powerBits : (bits : Nat) → (n : Nat) → (x : Float) → (exp : Int) → (acc : Float) →
    (accExp : Int) → Float × Int
  | 0, _, _, _, acc, accExp => (acc, accExp)
  | bits + 1, n, x, exp, acc, accExp =>
    if n = 0 then (acc, accExp)
    else if exp < -4096 || 4096 < exp then (acc, accExp + exp)
    else
      let (acc, accExp) := if n % 2 = 1 then (acc * x, accExp + exp) else (acc, accExp)
      let x := x * x
      let exp := exp * 2
      let (x, exp) := if x < 0.5 then (x + x, exp - 1) else (x, exp)
      powerBits bits (n / 2) x exp acc accExp

/-- A power with a finite base other than zero and a finite exponent. -/
def finitePower (x y : Float) : Float :=
  let size := y.abs
  let whole := size.floor
  let part := size - whole
  if part != 0 && x < 0 then 0 / 0
  else if 9223372036854775808 ≤ whole then
    if x == -1 then 1
    else if (x.abs < 1) == (0 < y) then 0
    else 1 / 0
  else
    let (part, whole) := if 0.5 < part then (part - 1, whole + 1) else (part, whole)
    let first := if part != 0 then (part * x.log).exp else 1
    let (mantissa, exponent) := x.frExp
    let (acc, accExp) := powerBits 64 whole.toUInt64.toNat mantissa exponent first 0
    if y < 0 then (1 / acc).scaleB (-accExp) else acc.scaleB accExp

/-- The number is whole and odd. -/
def isOddInteger (y : Float) : Bool :=
  y.abs < 9007199254740992 && y.floor == y && y.abs.toUInt64 % 2 == 1

/-- A power of zero. -/
def zeroPower (x y : Float) : Float :=
  let negative := Binary64.isNegative x.toBits && isOddInteger y
  if y < 0 then (if negative then -1 / 0 else 1 / 0)
  else if negative then x
  else 0

/-- The first number to the power of the second. -/
def power (x y : Float) : Float :=
  if y == 0 || x == 1 then 1
  else if y == 1 then x
  else if x.isNaN || y.isNaN then 0 / 0
  else if x == 0 then zeroPower x y
  else if y.isInf then
    if x == -1 then 1
    else if (x.abs < 1) == (0 < y) then 0
    else 1 / 0
  else if x.isInf then
    if x < 0 then zeroPower (-0.0) (-y)
    else if y < 0 then 0
    else x
  else if y == 0.5 then x.sqrt
  else if y == -0.5 then 1 / x.sqrt
  else finitePower x y

/-! ## Operators -/

/-- The whole part of a number as a 64-bit integer. -/
def whole (x : Float) : Int64 := x.toInt64

/-- The value of an operator on two numbers; none for a division by zero. -/
def binary (op : BinaryOp) (x y : Float) : Option Value :=
  match op with
  | .power => some (.ofFloat (power x y))
  | .times => some (.ofFloat (x * y))
  | .divide => if y == 0 then none else some (.ofFloat (x / y))
  | .remainder => if y == 0 then none else some (.ofBits (remainder x.toBits y.toBits))
  | .plus => some (.ofFloat (x + y))
  | .minus => some (.ofFloat (x - y))
  | .shiftLeft =>
    some (.ofFloat ((whole x).toUInt64 <<< ((whole y).toUInt64 &&& 63)).toInt64.toFloat)
  | .shiftRight => some (.ofFloat (whole x >>> (whole y &&& 63)).toFloat)
  | .shiftRightZero =>
    some (.ofFloat ((whole x).toUInt64.toUInt32 >>> ((whole y).toUInt64.toUInt32 &&& 31)).toFloat)
  | .less => some (.ofBool (x < y))
  | .lessEq => some (.ofBool (x ≤ y))
  | .greater => some (.ofBool (y < x))
  | .greaterEq => some (.ofBool (y ≤ x))
  | .equal => some (.ofBool (x == y))
  | .notEqual => some (.ofBool (x != y))
  | .bitAnd => some (.ofFloat (whole x &&& whole y).toFloat)
  | .bitXor => some (.ofFloat (whole x ^^^ whole y).toFloat)
  | .bitOr => some (.ofFloat (whole x ||| whole y).toFloat)

/-- The value of an operator on one number; the type operator is not one. -/
def unary (op : UnaryOp) (x : Float) : Value :=
  match op with
  | .not => .ofBool (x == 0)
  | .complement => .ofFloat (~~~ whole x).toFloat
  | .plus | .typeOf => .ofFloat x
  | .minus => .ofFloat (-x)

end ArenaScript.Number
