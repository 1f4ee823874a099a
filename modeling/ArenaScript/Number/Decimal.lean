import ArenaScript.Number.Binary64

/-!
# Decimal digits of a double

Two ways to write a positive dyadic number in decimal, both computed in exact
arithmetic: with the fewest digits that read back as the same double, and
rounded to a fixed number of significant digits.

Main definitions:

- `Decimal.shortest`: tries one digit, two digits, and so on; on each grid the
  two neighbours of the number are the only candidates.
- `Decimal.rounded`: a fixed number of digits, a tie going to the even one.
- `Decimal.plain`, `Decimal.scientific`: the two ways to lay out the digits.
-/

namespace ArenaScript

/-- The number `coefficient * 10 ^ exponent`. -/
structure Decimal where
  coefficient : Nat
  exponent : Int
deriving DecidableEq, Repr

namespace Decimal

open Binary64 (scaled)

-- powers of whole numbers are those of the core library, whatever else is imported
attribute [local instance (high)] instPowNat

/-- Compares `c * 10 ^ i` with `a * 2 ^ p`. -/
def compareScaled (c : Nat) (i : Int) (a : Nat) (p : Int) : Ordering :=
  let (n₁, d₁) := scaled c 10 i
  let (n₂, d₂) := scaled a 2 p
  compare (n₁ * d₂) (n₂ * d₁)

/-- The exponent of the leading decimal digit of a positive number. -/
def leadingExponent (x : Dyadic) : Int :=
  let guess := ((x.mantissa.log2 : Int) + x.exponent) * 30103 / 100000
  if compareScaled 1 (guess + 1) x.mantissa x.exponent != .gt then guess + 1
  else if compareScaled 1 guess x.mantissa x.exponent != .gt then guess
  else guess - 1

/-- The whole number of units `10 ^ i` in a number. -/
def floorUnits (x : Dyadic) (i : Int) : Nat :=
  let (n, d) := scaled x.mantissa 2 x.exponent
  let (u, v) := scaled 1 10 i
  (n * v) / (d * u)

/-! ## The fewest digits -/

/-- The gap below a double is half as wide at a power of two. -/
def isBinadeStart (x : Dyadic) : Bool :=
  x.mantissa == 2 ^ (52 : Nat) && x.exponent != -1074

/-- The decimal `c * 10 ^ i` reads back as the given double: it lies within
half a gap of it, where the ends count for an even mantissa. -/
def readsBack (x : Dyadic) (c : Nat) (i : Int) : Bool :=
  let low := 4 * x.mantissa - (if isBinadeStart x then 1 else 2)
  let high := 4 * x.mantissa + 2
  let ends := x.mantissa % 2 == 0
  let aboveLow := compareScaled c i low (x.exponent - 2)
  let belowHigh := compareScaled c i high (x.exponent - 2)
  (aboveLow == .gt || (ends && aboveLow == .eq))
    && (belowHigh == .lt || (ends && belowHigh == .eq))

/-- Of the neighbours `c * 10 ^ i` and `(c + 1) * 10 ^ i` of a number, the upper
is to be taken: it is nearer, or as near and even. -/
def goesUp (x : Dyadic) (c : Nat) (i : Int) : Bool :=
  match compareScaled (2 * c + 1) i (2 * x.mantissa) x.exponent with
  | .lt => true
  | .eq => c % 2 == 1
  | .gt => false

/-- The neighbour of a number on the grid of `10 ^ i` that reads back; of two,
the nearer, and of two as near the even one. -/
def onGrid? (x : Dyadic) (i : Int) : Option Decimal :=
  let c := floorUnits x i
  let down := readsBack x c i
  let up := readsBack x (c + 1) i
  if down && up then some ⟨if goesUp x c i then c + 1 else c, i⟩
  else if down then some ⟨c, i⟩
  else if up then some ⟨c + 1, i⟩
  else none

/-- Tries ever finer grids, for a number of rounds. -/
def searchFrom (x : Dyadic) : Nat → Int → Decimal
  | 0, i => ⟨floorUnits x i, i⟩
  | rounds + 1, i => (onGrid? x i).getD (searchFrom x rounds (i - 1))

/-- The decimal with the fewest digits that reads back as the given double. -/
def shortest (x : Dyadic) : Decimal := searchFrom x 17 (leadingExponent x)

/-! ## A fixed number of digits -/

/-- The number rounded to a number of significant digits. -/
def rounded (x : Dyadic) (count : Nat) : Decimal :=
  let i := leadingExponent x + 1 - count
  let (n, d) := scaled x.mantissa 2 x.exponent
  let (u, v) := scaled 1 10 i
  ⟨Binary64.roundDiv (n * v) (d * u), i⟩

/-! ## Layout -/

/-- The digits without the zeros at the end. -/
def digits (d : Decimal) : List Char :=
  ((Nat.toDigits 10 d.coefficient).reverse.dropWhile (· == '0')).reverse

/-- The exponent of the leading digit. -/
def leading (d : Decimal) : Int :=
  d.exponent + (Nat.toDigits 10 d.coefficient).length - 1

/-- Positional text of a positive decimal. -/
def plain (d : Decimal) : String :=
  let ds := d.digits
  if d.leading < 0 then
    String.ofList ("0.".toList ++ List.replicate (-d.leading - 1).toNat '0' ++ ds)
  else
    let whole := d.leading.toNat + 1
    if ds.length ≤ whole then String.ofList (ds ++ List.replicate (whole - ds.length) '0')
    else String.ofList (ds.take whole ++ '.' :: ds.drop whole)

/-- Text with one digit before the point and an exponent of at least two
digits and a sign. -/
def scientific (d : Decimal) : String :=
  let fraction := d.digits.drop 1
  let exponent := Nat.toDigits 10 d.leading.natAbs
  String.ofList <| d.digits.take 1
    ++ (if fraction.isEmpty then [] else '.' :: fraction)
    ++ ['e', if d.leading < 0 then '-' else '+']
    ++ (if exponent.length < 2 then '0' :: exponent else exponent)

end Decimal

end ArenaScript
