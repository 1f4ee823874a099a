/-!
# Packed values

Every value of the language is one 64-bit word.  A double stands for itself.
All other values live in the space of quiet not-a-number patterns with a clear
sign bit: eleven exponent bits are set, a tag of four bits holds the kind plus
one, and 48 bits hold the payload.  A tag of zero is left to positive infinity,
and every not-a-number produced by arithmetic becomes one word with the sign
bit set, so that no number is ever mistaken for a packed value.

Main definitions:

- `Kind`: what a word stands for, with its code and its name.
- `Value.box`, `Value.kind`, `Value.payload`: packing and the two
  projections.
- `Value.ofBits`: the word of a number.
- `Value.span`: a piece of the current text, by position and length.
-/

namespace ArenaScript

/-! ## Kinds -/

/-- What a packed value stands for.  The first three are also the kinds of
entities in the arena; the last four codes are not in use. -/
inductive Kind where
  | object
  | property
  | string
  | undefined
  | null
  | number
  | boolean
  | function
  | span
  | native
  | error
  | reserved (slot : Fin 4)
deriving DecidableEq, Repr

namespace Kind

/-- The code of a kind, from 0 to 14. -/
def code : Kind → UInt8
  | object => 0
  | property => 1
  | string => 2
  | undefined => 3
  | null => 4
  | number => 5
  | boolean => 6
  | function => 7
  | span => 8
  | native => 9
  | error => 10
  | reserved slot => 11 + UInt8.ofNat slot.val

/-- The kind with a given code. -/
def ofCode (code : UInt8) : Kind :=
  match code.toNat with
  | 0 => object
  | 1 => property
  | 2 => string
  | 3 => undefined
  | 4 => null
  | 5 => number
  | 6 => boolean
  | 7 => function
  | 8 => span
  | 9 => native
  | 10 => error
  | 11 => reserved 0
  | 12 => reserved 1
  | 13 => reserved 2
  | _ => reserved 3

@[simp]
theorem ofCode_code (kind : Kind) : ofCode kind.code = kind := by
  cases kind with
  | reserved slot => revert slot; decide
  | _ => rfl

/-- The name that scripts and messages use for a kind. -/
def name : Kind → String
  | object => "object"
  | property => "prop"
  | string => "string"
  | undefined => "undefined"
  | null => "null"
  | number => "number"
  | boolean => "boolean"
  | function => "function"
  | span => "coderef"
  | native => "cfunc"
  | error => "err"
  | reserved _ => "??"

/-- Values of these kinds carry the offset of an entity in the arena. -/
def isEntity : Kind → Bool
  | object | property | string | function => true
  | _ => false

end Kind

/-! ## Words -/

/-- A packed value. -/
structure Value where
  bits : UInt64
deriving DecidableEq, Repr, Inhabited

namespace Value

/-- The exponent bits that mark every packed value. -/
def marker : UInt64 := 0x7ff0000000000000

/-- The bits of a payload. -/
def payloadMask : UInt64 := 0x0000ffffffffffff

/-- The one word that stands for not-a-number. -/
def notANumber : Value := ⟨0xfff8000000000000⟩

/-- Packs a payload under the code of a kind. -/
def pack (code : UInt8) (payload : UInt64) : Value :=
  ⟨marker ||| ((code + 1).toUInt64 <<< 48) ||| (payload &&& payloadMask)⟩

/-- A value of a kind other than number. -/
def box (kind : Kind) (payload : UInt64) : Value :=
  pack kind.code payload

/-- The four bits above the payload. -/
def tag (v : Value) : UInt64 := (v.bits >>> 48) &&& 15

/-- The word lies in the packed space. -/
def isBoxed (v : Value) : Bool :=
  v.bits >>> 52 == 0x7ff && v.tag != 0

/-- What the word stands for. -/
def kind (v : Value) : Kind :=
  if v.isBoxed then Kind.ofCode (v.tag.toUInt8 - 1) else .number

/-- The low 48 bits. -/
def payload (v : Value) : UInt64 := v.bits &&& payloadMask

/-- The arena offset carried by a value that refers to an entity. -/
def offset (v : Value) : UInt32 := v.payload.toUInt32

/-- The value is an error. -/
def isError (v : Value) : Bool := v.kind == .error

/-- The value refers to an entity in the arena. -/
def isEntity (v : Value) : Bool := v.kind.isEntity

/-- A reference of the given kind to the entity at an offset. -/
def ref (kind : Kind) (offset : UInt32) : Value := box kind offset.toUInt64

/-! ## Numbers -/

/-- A bit pattern is a not-a-number: its exponent is full and its fraction is
not zero. -/
def isNotANumber (bits : UInt64) : Bool :=
  0x7ff0000000000000 < (bits &&& 0x7fffffffffffffff)

/-- The word of the number with the given bit pattern. -/
def ofBits (bits : UInt64) : Value :=
  if isNotANumber bits then notANumber else ⟨bits⟩

/-- The word of a number. -/
def ofFloat (x : Float) : Value := ofBits x.toBits

/-- The number a word stands for; meaningful for numbers only. -/
def toFloat (v : Value) : Float := Float.ofBits v.bits

/-- The word of the number zero, which also stands for "no value" in a dry run. -/
def zero : Value := ⟨0⟩

/-! ## Constants -/

/-- The value of a name that was given none. -/
def undefined : Value := box .undefined 0

/-- The null value. -/
def null : Value := box .null 0

/-- The word of a truth value. -/
def ofBool (b : Bool) : Value := box .boolean (if b then 1 else 0)

/-- The truth value a boolean word stands for. -/
def toBool (v : Value) : Bool := v.payload &&& 1 != 0

/-! ## Spans of text -/

/-- A span keeps 24 bits of its position and 24 bits of its length. -/
def spanMask : UInt32 := 0xffffff

/-- A piece of the current text. -/
def span (start length : UInt32) : Value :=
  box .span ((start &&& spanMask).toUInt64 ||| ((length &&& spanMask).toUInt64 <<< 24))

/-- Where a span starts. -/
def spanStart (v : Value) : UInt32 := v.payload.toUInt32 &&& spanMask

/-- How long a span is. -/
def spanLength (v : Value) : UInt32 := (v.payload >>> 24).toUInt32 &&& spanMask

end Value

end ArenaScript
