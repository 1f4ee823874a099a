import ArenaScript.Source

/-!
# String literals

A string literal stands between quotes.  Inside it a backslash starts an
escape: a quote or a backslash stands for itself, `n`, `t` and `r` for control
bytes, and `x` with two hexadecimal digits for any byte.

Main definitions:

- `Source.unescape`: the bytes of a quoted literal.  The bytes before a bad
  escape are still known, and the flag tells that there was one.
- `Source.measure`: the number of these bytes, which are only counted.
-/

namespace ArenaScript.Source

/-- The byte a one-letter escape stands for. -/
def simpleEscape? (b : UInt8) : Option UInt8 :=
  if b == 0x27 || b == 0x22 || b == 0x5c then some b
  else if b == 0x6e then some 0x0a
  else if b == 0x74 then some 0x09
  else if b == 0x72 then some 0x0d
  else none

/-- The byte or escape at a position inside a literal: its value and the
position after it. -/
def unescapeOne? (s : Source) (i : Nat) : Option (UInt8 × Nat) :=
  if s.byte i != 0x5c then some (s.byte i, i + 1)
  else
    match simpleEscape? (s.byte (i + 1)) with
    | some b => some (b, i + 2)
    | none =>
      if s.byte (i + 1) == 0x78 && i + 4 < s.length && isHexDigit (s.byte (i + 2))
          && isHexDigit (s.byte (i + 3)) then
        some ((hexValue (s.byte (i + 2)) <<< 4) ||| hexValue (s.byte (i + 3)), i + 4)
      else none

/-- Decodes a literal from a position up to its closing quote. -/
def unescapeFrom (s : Source) : Nat → Nat → ByteArray → ByteArray × Bool
  | 0, _, out => (out, true)
  | bound + 1, i, out =>
    if i + 1 < s.length then
      match s.unescapeOne? i with
      | some (b, j) => unescapeFrom s bound j (out.push b)
      | none => (out, false)
    else (out, true)

/-- The bytes of a literal with its quotes, and whether all its escapes are
known. -/
def unescape (s : Source) : ByteArray × Bool := s.unescapeFrom s.length 1 ByteArray.empty

/-- Counts the bytes of a literal from a position up to its closing quote. -/
def measureFrom (s : Source) : Nat → Nat → Nat → Nat × Bool
  | 0, _, count => (count, true)
  | bound + 1, i, count =>
    if i + 1 < s.length then
      match s.unescapeOne? i with
      | some (_, j) => measureFrom s bound j (count + 1)
      | none => (count, false)
    else (count, true)

/-- The number of bytes of a literal with its quotes, and whether all its escapes
are known. -/
def measure (s : Source) : Nat × Bool := s.measureFrom s.length 1 0

end ArenaScript.Source
