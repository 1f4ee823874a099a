import ArenaScript.Number.Decimal

/-!
# Texts of numbers

How scripts and messages show a double.  Each function fixes the choices of
one format: the number of digits, where positional text ends, and the names of
the infinities.
-/

namespace ArenaScript.Number

-- powers of whole numbers are those of the core library, whatever else is imported
attribute [local instance (high)] instPowNat

/-- The text of a number as scripts see it.  Whole numbers have up to 17
digits and are positional below ten to the 17th.  Other numbers have the fewest digits
that read back, and are positional from one millionth on. -/
def text (bits : UInt64) : String :=
  if !Binary64.isFinite bits then
    if !Binary64.isInfinite bits then "NaN"
    else if Binary64.isNegative bits then "-Infinity"
    else "Infinity"
  else
    let x := Binary64.decode bits
    let unsigned :=
      if x.mantissa = 0 then "0"
      else if 0 ≤ x.exponent ∨ x.mantissa % 2 ^ (-x.exponent).toNat = 0 then
        let d := Decimal.rounded x 17
        if d.leading < 17 then d.plain else d.scientific
      else
        let d := Decimal.shortest x
        if -6 ≤ d.leading ∧ d.leading < 21 then d.plain else d.scientific
    if Binary64.isNegative bits then "-" ++ unsigned else unsigned

/-- The text of a number in messages about settings: the fewest digits that
read back, positional from one ten-thousandth to below one million. -/
def settingText (bits : UInt64) : String :=
  if !Binary64.isFinite bits then
    if !Binary64.isInfinite bits then "NaN"
    else if Binary64.isNegative bits then "-Inf"
    else "+Inf"
  else
    let x := Binary64.decode bits
    let unsigned :=
      if x.mantissa = 0 then "0"
      else
        let d := Decimal.shortest x
        if -4 ≤ d.leading ∧ d.leading < 6 then d.plain else d.scientific
    if Binary64.isNegative bits then "-" ++ unsigned else unsigned

end ArenaScript.Number
