/-!
# Source texts

A source text is a stretch of bytes, either the whole of a text handed over by
the host or a part of the arena.  Scanning only ever asks for the length and
for the byte at a position.  Positions are natural numbers: texts are taken to be
shorter than 2^32 - 4 bytes, where positions in words of 32 bits do not wrap.

Main definitions:

- `Source.byte`: the byte at a position, 0 beyond the end.
- `Source.skipWhile`: the end of the run of bytes with a property.
- `Source.startsWith`: a lexeme stands at a position.
-/

namespace ArenaScript

/-- A stretch of bytes to be scanned. -/
structure Source where
  /-- The bytes the stretch is part of. -/
  bytes : ByteArray
  /-- Where the stretch starts. -/
  start : Nat
  /-- How long the stretch is. -/
  length : Nat

namespace Source

/-- All of a text. -/
def ofBytes (bytes : ByteArray) : Source := ⟨bytes, 0, bytes.size⟩

/-- The byte at a position of the text, and 0 beyond its end. -/
def byte (s : Source) (i : Nat) : UInt8 :=
  if i < s.length ∧ s.start + i < s.bytes.size then s.bytes.get! (s.start + i) else 0

/-- A given character stands at a position. -/
def holds (s : Source) (i : Nat) (c : Char) : Bool :=
  i < s.length && s.byte i == c.toUInt8

/-- The bytes of a part of the text. -/
def slice (s : Source) (i length : Nat) : ByteArray :=
  s.bytes.extract (s.start + i) (s.start + i + length)

/-- The text from a position on. -/
def rest (s : Source) (i : Nat) : Source := ⟨s.bytes, s.start + i, s.length - i⟩

/-- Passes over bytes with a property, at most a number of them. -/
def skipBound (s : Source) (p : UInt8 → Bool) : Nat → Nat → Nat
  | 0, i => i
  | bound + 1, i => if i < s.length && p (s.byte i) then skipBound s p bound (i + 1) else i

/-- The first position from `i` on whose byte lacks a property. -/
def skipWhile (s : Source) (p : UInt8 → Bool) (i : Nat) : Nat :=
  s.skipBound p (s.length - i) i

/-- A sequence of bytes stands at a position. -/
def startsWith (s : Source) : Nat → List UInt8 → Bool
  | _, [] => true
  | i, b :: bs => i < s.length && s.byte i == b && startsWith s (i + 1) bs

end Source

/-! ## Classes of bytes -/

namespace Source

/-- White space between tokens. -/
def isBlank (b : UInt8) : Bool :=
  b == 0x20 || b == 0x0d || b == 0x0a || b == 0x09 || b == 0x0c || b == 0x0b

/-- A decimal digit. -/
def isDigit (b : UInt8) : Bool := 0x30 ≤ b && b ≤ 0x39

/-- A letter from `a` to `f` of either case. -/
def isHexLetter (b : UInt8) : Bool := 0x61 ≤ (b ||| 0x20) && (b ||| 0x20) ≤ 0x66

/-- A hexadecimal digit. -/
def isHexDigit (b : UInt8) : Bool := isDigit b || isHexLetter b

/-- The first byte of an identifier. -/
def isNameStart (b : UInt8) : Bool :=
  b == 0x5f || b == 0x24 || (0x61 ≤ (b ||| 0x20) && (b ||| 0x20) ≤ 0x7a)

/-- A further byte of an identifier. -/
def isNameByte (b : UInt8) : Bool := isNameStart b || isDigit b

/-- The value of a hexadecimal digit. -/
def hexValue (b : UInt8) : UInt8 :=
  if isDigit b then b - 0x30 else if isHexLetter b then (b ||| 0x20) - 0x61 + 10 else 0

end Source

end ArenaScript
