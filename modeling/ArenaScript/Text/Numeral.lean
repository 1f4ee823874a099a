import ArenaScript.Number.Binary64

/-!
# Numerals

How options and configuration files spell numbers.  A whole number may have a
sign, a radix mark (`0x`, `0o`, `0b`, or a plain leading zero for octal) and
underscores between its digits.  Other numbers are decimals, hexadecimals with
a power of two, or the names of an infinity or of not-a-number.

Main definitions:

- `Numeral.unsigned`, `Numeral.signed`: whole numbers of 64 bits.
- `Numeral.float`: the bit pattern of the nearest double.
-/

namespace ArenaScript.Numeral

/-- Why a numeral has no value. -/
inductive Error where
  /-- The text is no numeral. -/
  | malformed
  /-- The number does not fit. -/
  | outOfRange
deriving DecidableEq, Repr

/-! ## Digits -/

/-- The value of a digit; letters go on after nine. -/
def digit? (c : Char) : Option Nat :=
  if '0' ≤ c ∧ c ≤ '9' then some (c.toNat - '0'.toNat)
  else if 'a' ≤ c ∧ c ≤ 'z' then some (c.toNat - 'a'.toNat + 10)
  else if 'A' ≤ c ∧ c ≤ 'Z' then some (c.toNat - 'A'.toNat + 10)
  else none

/-- The character is a digit in a base. -/
def isDigitIn (base : Nat) (c : Char) : Bool :=
  match digit? c with
  | some d => d < base
  | none => false

/-- A sign in front of a text: whether it is a minus, and the rest. -/
def splitSign : List Char → Bool × List Char
  | '-' :: rest => (true, rest)
  | '+' :: rest => (false, rest)
  | text => (false, text)

/-- The base of a radix letter. -/
def radixLetter? (c : Char) : Option Nat :=
  match c.toLower with
  | 'b' => some 2
  | 'o' => some 8
  | 'x' => some 16
  | _ => none

/-- What stands before a place, as far as underscores are concerned. -/
inductive Place where
  | afterDigit
  | afterUnderscore
  | elsewhere
deriving DecidableEq

/-- Each underscore follows a digit and is followed by one. -/
def separated (base : Nat) : Place → List Char → Bool
  | place, [] => place != .afterUnderscore
  | place, c :: rest =>
    if isDigitIn base c then separated base .afterDigit rest
    else if c = '_' then place == .afterDigit && separated base .afterUnderscore rest
    else place != .afterUnderscore && separated base .elsewhere rest

/-- Underscores stand only between digits, or between a radix mark and a
digit. -/
def underscoresOk (text : List Char) : Bool :=
  match (splitSign text).2 with
  | '0' :: c :: rest =>
    match radixLetter? c with
    | some base => separated (max 10 base) .afterDigit rest
    | none => separated 10 .elsewhere ('0' :: c :: rest)
  | body => separated 10 .elsewhere body

/-! ## Whole numbers -/

/-- Reads digits after a number; underscores are passed over. -/
def accumulate (base : Nat) : Nat → List Char → Except Error Nat
  | n, [] => .ok n
  | n, c :: rest =>
    if c = '_' then accumulate base n rest
    else
      match digit? c with
      | none => .error .malformed
      | some d =>
        if base ≤ d then .error .malformed
        else if 0x10000000000000000 ≤ n * base + d then .error .outOfRange
        else accumulate base (n * base + d) rest

/-- The base of a numeral, by its radix mark, and its digits. -/
def splitRadix : List Char → Nat × List Char
  | '0' :: c :: d :: rest =>
    match radixLetter? c with
    | some base => (base, d :: rest)
    | none => (8, c :: d :: rest)
  | '0' :: rest => (8, rest)
  | text => (10, text)

/-- The value of a numeral without a sign, below two to the 64th. -/
def unsigned (text : List Char) : Except Error Nat := do
  if text.isEmpty then throw .malformed
  let (base, digits) := splitRadix text
  let n ← accumulate base 0 digits
  if text.contains '_' && !underscoresOk text then throw .malformed
  return n

/-- The value of a numeral that may have a sign, as far as 64 bits hold it. -/
def signed (text : List Char) : Except Error Int := do
  let (negative, digits) := splitSign text
  let n ← unsigned digits
  if negative then
    if 0x8000000000000000 < n then throw .outOfRange else return -(n : Int)
  else
    if 0x8000000000000000 ≤ n then throw .outOfRange else return n

/-! ## Other numbers -/

/-- The digits of a mantissa, as far as they are read. -/
structure Mantissa where
  /-- The digits without the point. -/
  coefficient : Nat := 0
  /-- The number of digits. -/
  digits : Nat := 0
  /-- The number of digits after the point. -/
  fraction : Nat := 0

/-- Adds a digit to a mantissa, before or after the point. -/
def Mantissa.push (m : Mantissa) (base d : Nat) (point : Bool) : Mantissa where
  coefficient := m.coefficient * base + d
  digits := m.digits + 1
  fraction := if point then m.fraction + 1 else m.fraction

/-- Reads the digits of a mantissa with at most one point, and gives what
follows. -/
def readMantissa (base : Nat) : Bool → Mantissa → List Char → Mantissa × List Char
  | _, m, [] => (m, [])
  | point, m, c :: rest =>
    if c = '_' then readMantissa base point m rest
    else if c = '.' then
      if point then (m, c :: rest) else readMantissa base true m rest
    else
      match digit? c with
      | none => (m, c :: rest)
      | some d =>
        if base ≤ d then (m, c :: rest) else readMantissa base point (m.push base d point) rest

/-- Reads the digits of an exponent.  It stops growing at five digits, where
every number is already out of range or zero. -/
def readExponent : Nat → List Char → Option Nat
  | e, [] => some e
  | e, c :: rest =>
    if c = '_' then readExponent e rest
    else if c.isDigit then
      readExponent (if e < 10000 then e * 10 + (c.toNat - '0'.toNat) else e) rest
    else none

/-- The exponent after a mark such as `e`: a sign and digits. -/
def exponent? (text : List Char) : Option Int :=
  let (negative, digits) := splitSign text
  match digits with
  | [] => none
  | c :: _ =>
    if c.isDigit then
      (readExponent 0 digits).map fun e => if negative then -(e : Int) else e
    else none

/-- The bit pattern of a number with a sign. -/
def withSign (negative : Bool) (bits : UInt64) : UInt64 :=
  if negative then bits ||| 0x8000000000000000 else bits

/-- The names of the infinities and of not-a-number, in any case of letters. -/
def named? (text : List Char) : Option UInt64 :=
  let (negative, body) := splitSign text
  let name := String.ofList (body.map Char.toLower)
  if name = "inf" ∨ name = "infinity" then some (withSign negative Binary64.infinity)
  else if name = "nan" ∧ body = text then some 0x7ff8000000000000
  else none

/-- The value of an unsigned decimal or hexadecimal with its exponent. -/
def magnitude? (text : List Char) : Option UInt64 :=
  let hexadecimal := match text with
    | '0' :: c :: _ :: _ => c.toLower == 'x'
    | _ => false
  let base := if hexadecimal then 16 else 10
  let (m, rest) := readMantissa base false {} (if hexadecimal then text.drop 2 else text)
  if m.digits = 0 then none
  else
    match rest with
    | [] =>
      if hexadecimal then none
      else some (Binary64.ofDecimal m.coefficient (-(m.fraction : Int)))
    | mark :: rest =>
      if mark.toLower ≠ (if hexadecimal then 'p' else 'e') then none
      else (exponent? rest).map fun e =>
        if hexadecimal then
          let (num, den) := Binary64.scaled m.coefficient 2 (e - 4 * m.fraction)
          Binary64.ofRatio num den
        else Binary64.ofDecimal m.coefficient (e - m.fraction)

/-- The bit pattern of the double nearest to a numeral. -/
def float (text : List Char) : Except Error UInt64 :=
  match named? text with
  | some bits => .ok bits
  | none =>
    let (negative, body) := splitSign text
    match magnitude? body with
    | none => .error .malformed
    | some bits =>
      if text.contains '_' && !underscoresOk text then .error .malformed
      else if Binary64.isInfinite bits then .error .outOfRange
      else .ok (withSign negative bits)

end ArenaScript.Numeral
