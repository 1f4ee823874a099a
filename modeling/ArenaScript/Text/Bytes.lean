/-!
# Byte strings

Texts of scripts, keys and messages are sequences of bytes that need not be
well-formed Unicode.  This module builds them from words and numbers.
-/

namespace ArenaScript.Bytes

/-- The bytes of a word of this library. -/
def ofString (s : String) : ByteArray := s.toUTF8

/-- The bytes of a list of characters. -/
def ofChars (cs : List Char) : ByteArray := ofString (String.ofList cs)

/-- The decimal digits of a natural number. -/
def ofNat (n : Nat) : ByteArray := ofChars (Nat.toDigits 10 n)

/-- The decimal digits of a whole number, with a minus sign if it has one. -/
def ofInt (n : Int) : ByteArray :=
  if n < 0 then ofString "-" ++ ofNat n.natAbs else ofNat n.natAbs

/-- The hexadecimal digits of a natural number. -/
def hex (n : Nat) : ByteArray := ofChars (Nat.toDigits 16 n)

/-- Digits filled up on the left to a width. -/
def padLeft (width : Nat) (fill : Char) (digits : List Char) : List Char :=
  List.replicate (width - digits.length) fill ++ digits

/-- Sixteen hexadecimal digits. -/
def hex16 (word : UInt64) : ByteArray := ofChars (padLeft 16 '0' (Nat.toDigits 16 word.toNat))

/-- Texts one after the other with a separator between them. -/
def joinWith (separator : ByteArray) : List ByteArray → ByteArray
  | [] => ByteArray.empty
  | [text] => text
  | text :: texts => text ++ separator ++ joinWith separator texts

/-- Texts one after the other. -/
def concat (texts : List ByteArray) : ByteArray := texts.foldl (· ++ ·) ByteArray.empty

end ArenaScript.Bytes
