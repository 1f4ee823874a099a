/-!
# Binary floating point as exact numbers

A finite double is a whole number times a power of two.  This module reads
that number off the bit pattern and rounds a quotient of whole numbers back to
the nearest pattern, a tie going to the even one, in exact arithmetic.

Main definitions:

- `Binary64.decode`: mantissa and exponent of a finite pattern.
- `Binary64.ofRatio`: the pattern nearest to a quotient.
- `Binary64.ofDecimal`: the pattern nearest to a decimal.
-/

namespace ArenaScript

/-- The number `mantissa * 2 ^ exponent`. -/
structure Dyadic where
  mantissa : Nat
  exponent : Int
deriving DecidableEq, Repr

namespace Binary64

-- powers of whole numbers are those of the core library, whatever else is imported
attribute [local instance (high)] instPowNat

/-! ## Fields of a pattern -/

/-- The sign bit is set. -/
def isNegative (bits : UInt64) : Bool := bits >>> 63 != 0

/-- The eleven exponent bits. -/
def exponentField (bits : UInt64) : Nat := ((bits >>> 52) &&& 0x7ff).toNat

/-- The 52 fraction bits. -/
def fractionField (bits : UInt64) : Nat := (bits &&& 0xfffffffffffff).toNat

/-- The pattern of a number or an infinity with the sign taken away. -/
def magnitude (bits : UInt64) : UInt64 := bits &&& 0x7fffffffffffffff

/-- The pattern of positive infinity. -/
def infinity : UInt64 := 0x7ff0000000000000

/-- The pattern is an infinity of either sign. -/
def isInfinite (bits : UInt64) : Bool := magnitude bits == infinity

/-- The pattern is neither an infinity nor a not-a-number. -/
def isFinite (bits : UInt64) : Bool := exponentField bits != 0x7ff

/-- The absolute value of a finite pattern. -/
def decode (bits : UInt64) : Dyadic :=
  if exponentField bits = 0 then ⟨fractionField bits, -1074⟩
  else ⟨fractionField bits + 2 ^ (52 : Nat), (exponentField bits : Int) - 1075⟩

/-! ## Quotients -/

/-- The whole number nearest to a quotient; a tie goes to the even one. -/
def roundDiv (num den : Nat) : Nat :=
  let quotient := num / den
  let rest := num % den
  if 2 * rest < den then quotient
  else if den < 2 * rest then quotient + 1
  else quotient + quotient % 2

/-- The quotient `coefficient * base ^ exponent` as numerator and denominator. -/
def scaled (coefficient base : Nat) (exponent : Int) : Nat × Nat :=
  if 0 ≤ exponent then (coefficient * base ^ exponent.toNat, 1)
  else (coefficient, base ^ (-exponent).toNat)

/-- Rounds a quotient to a multiple of `2 ^ exponent` and counts the units. -/
def units (num den : Nat) (exponent : Int) : Nat :=
  let (n, d) := scaled 1 2 exponent
  roundDiv (num * d) (den * n)

/-- The exponent of the last mantissa bit of a positive quotient. -/
def lastBit (num den : Nat) : Int :=
  let guess : Int := (num.log2 : Int) - (den.log2 : Int) - 53
  let (n, d) := scaled 1 2 (guess + 53)
  max (-1074) (if num * d < den * n then guess else guess + 1)

/-- The pattern nearest to a quotient; a tie goes to the even mantissa and
what is too large becomes infinity. -/
def ofRatio (num den : Nat) : UInt64 :=
  if num = 0 then 0
  else
    let exponent := lastBit num den
    let pattern := (exponent + 1074).toNat * 2 ^ (52 : Nat) + units num den exponent
    if pattern < 0x7ff0000000000000 then UInt64.ofNat pattern else infinity

/-- The pattern nearest to `coefficient * 10 ^ exponent`.  Numbers far outside
the range of doubles are not computed. -/
def ofDecimal (coefficient : Nat) (exponent : Int) : UInt64 :=
  if coefficient = 0 then 0
  else
    let size := (Nat.toDigits 10 coefficient).length + exponent
    if 310 < size then infinity
    else if size < -330 then 0
    else
      let (num, den) := scaled coefficient 10 exponent
      ofRatio num den

end Binary64

end ArenaScript
