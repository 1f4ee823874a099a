import ArenaScript.Text.Bytes
import ArenaScript.Text.Printable

/-!
# Quoted texts

A text between double quotes, with escapes for quotes, backslashes, control
characters and bytes that are not part of a character.

Main definitions:

- `Text.decodeFirst?`: the first character of a text.
- `Text.quoted`: the quoted form of a text.
-/

namespace ArenaScript.Text

/-! ## Characters of a byte string -/

/-- The six bits of a byte that continues a character. -/
def continuation? : Option UInt8 → Option Nat
  | some b => if b &&& 0xc0 == 0x80 then some (b &&& 0x3f).toNat else none
  | none => none

/-- The first character of a list of bytes and the number of its bytes; none
if no well-formed character starts there. -/
def decodeFirst? (bytes : List UInt8) : Option (Nat × Nat) := do
  let b ← bytes.head?
  if b < 0x80 then return (b.toNat, 1)
  let c₁ ← continuation? bytes[1]?
  if 0xc2 ≤ b && b ≤ 0xdf then return ((b &&& 0x1f).toNat * 64 + c₁, 2)
  let c₂ ← continuation? bytes[2]?
  if 0xe0 ≤ b && b ≤ 0xef then
    let c := ((b &&& 0x0f).toNat * 64 + c₁) * 64 + c₂
    if c < 0x800 || (0xd800 ≤ c && c < 0xe000) then none else return (c, 3)
  let c₃ ← continuation? bytes[3]?
  if 0xf0 ≤ b && b ≤ 0xf4 then
    let c := (((b &&& 0x07).toNat * 64 + c₁) * 64 + c₂) * 64 + c₃
    if c < 0x10000 || 0x10ffff < c then none else return (c, 4)
  none

/-! ## Escapes -/

/-- A number in hexadecimal digits, filled up to a width. -/
def hexDigits (width n : Nat) : List Char := Bytes.padLeft width '0' (Nat.toDigits 16 n)

/-- The control characters with a letter of their own. -/
def controlLetter? (c : Nat) : Option Char :=
  match c with
  | 7 => some 'a'
  | 8 => some 'b'
  | 9 => some 't'
  | 10 => some 'n'
  | 11 => some 'v'
  | 12 => some 'f'
  | 13 => some 'r'
  | _ => none

/-- How a character stands inside quotes. -/
def escape (c : Nat) : List Char :=
  if c = '"'.toNat || c = '\\'.toNat then ['\\', Char.ofNat c]
  else if isPrintable c then [Char.ofNat c]
  else
    match controlLetter? c with
    | some letter => ['\\', letter]
    | none =>
      if c < 0x20 || c = 0x7f then '\\' :: 'x' :: hexDigits 2 c
      else if c < 0x10000 then '\\' :: 'u' :: hexDigits 4 c
      else '\\' :: 'U' :: hexDigits 8 c

/-- The quoted form of the bytes of a list, character by character. -/
def escapeAll : Nat → List UInt8 → List Char
  | 0, _ => []
  | _ + 1, [] => []
  | bound + 1, b :: rest =>
    match decodeFirst? (b :: rest) with
    | some (c, width) => escape c ++ escapeAll bound (rest.drop (width - 1))
    | none => '\\' :: 'x' :: hexDigits 2 b.toNat ++ escapeAll bound rest

/-- A text between double quotes. -/
def quoted (text : ByteArray) : ByteArray :=
  Bytes.ofChars ('"' :: escapeAll text.size text.toList ++ ['"'])

end ArenaScript.Text
