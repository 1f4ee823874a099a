import ArenaScript.Arena

/-!
# Entities

The arena holds three kinds of records, each aligned to four bytes.  The low
two bits of the first word, the header, tell the kind; the rest of the header
is a link or a length.

```text
object     header (first property)   parent
property   header (next property)    key      value (8 bytes)
string     header (4 * (length + 1)) bytes    zero byte   padding
```

Bit 31 of a header is the mark of the collector.

Main definitions:

- `Arena.entitySize`: the span of an entity, from its header.
- `Arena.putString`, `Arena.putObject`, `Arena.putProperty`: new records.
- `Arena.findProperty`: the newest property of an object with a given key.
-/

namespace ArenaScript.Arena

-- keys are compared as the core library compares bytes, whatever else is imported
attribute [instance (high)] ByteArray.instDecidableEq

/-! ## Headers -/

/-- The kind of record a header belongs to; 3 is no record. -/
def headerKind (header : UInt32) : UInt32 := header &&& 3

/-- The link of an object or property header. -/
def headerLink (header : UInt32) : UInt32 := header &&& ~~~3

/-- The number of bytes, the closing zero included, of a string header. -/
def headerLength (header : UInt32) : UInt32 := header >>> 2

/-- The mark of the collector. -/
def markBit : UInt32 := 0x80000000

/-- The span of an object record. -/
def objectSize : UInt32 := 8

/-- The span of a property record. -/
def propertySize : UInt32 := 16

/-- The span of the entity with the given header. -/
def entitySize (header : UInt32) : UInt32 :=
  if headerKind header = 0 then objectSize
  else if headerKind header = 1 then propertySize
  else if headerKind header = 2 then 4 + roundUp (headerLength header)
  else 0xffffffff

/-! ## New entities -/

/-- The header of a string of the given length. -/
def stringHeader (length : UInt32) : UInt32 := ((length + 1) <<< 2) ||| 2

/-- Makes a string of the given length at an offset.  Its bytes are those
already in place. -/
def closeString (length offset : UInt32) (a : Arena) : Except Halt Arena := do
  let a ← a.store32 offset (stringHeader length)
  a.writeByte (offset + 4 + length).toNat 0

/-- Makes a string with the given bytes at an offset. -/
def putString (text : ByteArray) (offset : UInt32) (a : Arena) : Except Halt Arena := do
  let length := UInt32.ofNat text.size
  let a ← a.store32 offset (stringHeader length)
  let a ← a.write (offset + 4).toNat text
  a.writeByte (offset + 4 + length).toNat 0

/-- Makes an object without properties at an offset. -/
def putObject (parent offset : UInt32) (a : Arena) : Except Halt Arena := do
  let a ← a.store32 offset 0
  a.store32 (offset + 4) parent

/-- Makes a property at an offset and puts it at the head of an object's list,
in front of the one that was first so far.  The record is complete before the
object refers to it. -/
def putProperty (object key first : UInt32) (value : Value) (offset : UInt32) (a : Arena) :
    Except Halt Arena := do
  let a ← a.store32 offset (first ||| 1)
  let a ← a.store32 (offset + 4) key
  let a ← a.store64 (offset + 8) value
  a.store32 object offset

/-! ## Reading entities -/

/-- The length of the string at an offset. -/
def stringLength (a : Arena) (offset : UInt32) : Except Halt UInt32 := do
  return headerLength (← a.load32 offset) - 1

/-- The bytes of the string at an offset. -/
def stringBytes (a : Arena) (offset : UInt32) : Except Halt ByteArray := do
  let length ← a.stringLength offset
  let start := offset + 4
  if start.toNat ≤ (start + length).toNat then
    a.slice start.toNat ((start + length).toNat - start.toNat)
  else .error .fault

/-- The parent of the object at an offset. -/
def parent (a : Arena) (offset : UInt32) : Except Halt UInt32 := a.load32 (offset + 4)

/-- The newest property of the object at an offset, or 0. -/
def firstProperty (a : Arena) (offset : UInt32) : Except Halt UInt32 :=
  headerLink <$> a.load32 offset

/-- The property before the one at an offset, or 0. -/
def nextProperty (a : Arena) (offset : UInt32) : Except Halt UInt32 :=
  headerLink <$> a.load32 offset

/-- The offset of the key of the property at an offset. -/
def propertyKey (a : Arena) (offset : UInt32) : Except Halt UInt32 := a.load32 (offset + 4)

/-- The value of the property at an offset. -/
def propertyValue (a : Arena) (offset : UInt32) : Except Halt Value := a.load64 (offset + 8)

/-! ## Property lists -/

/-- No list of entities without a cycle has more steps than this. -/
def chainBound (a : Arena) : Nat := a.bytes.size + 1

/-- Follows a property list to the first property with the given key.  The
answer is 0 at the end of the list. -/
def findFrom (a : Arena) (name : ByteArray) : Nat → UInt32 → Except Halt UInt32
  | 0, _ => .error .endless
  | bound + 1, offset =>
    if offset = 0 ∨ a.used ≤ offset then .ok 0
    else do
      if (← a.stringBytes (← a.propertyKey offset)) = name then return offset
      findFrom a name bound (← a.nextProperty offset)

/-- The newest property of an object with the given key, or 0. -/
def findProperty (a : Arena) (object : UInt32) (name : ByteArray) : Except Halt UInt32 := do
  findFrom a name a.chainBound (← a.firstProperty object)

/-- The offsets of a property list, in order. -/
def propertiesFrom (a : Arena) : Nat → UInt32 → Except Halt (List UInt32)
  | 0, _ => .error .endless
  | bound + 1, offset =>
    if offset = 0 ∨ a.used ≤ offset then .ok []
    else do return offset :: (← propertiesFrom a bound (← a.nextProperty offset))

/-- The offsets of an object's properties, the newest first. -/
def properties (a : Arena) (object : UInt32) : Except Halt (List UInt32) := do
  propertiesFrom a a.chainBound (← a.firstProperty object)

/-- Follows property references down to a plain value. -/
def resolveFrom (a : Arena) : Nat → Value → Except Halt Value
  | 0, _ => .error .endless
  | bound + 1, v =>
    if v.kind = .property then do resolveFrom a bound (← a.propertyValue v.offset) else .ok v

/-- The plain value a property reference leads to. -/
def resolve (a : Arena) (v : Value) : Except Halt Value := resolveFrom a a.chainBound v

/-- Replaces the value of the property at an offset. -/
def assign (a : Arena) (property : UInt32) (value : Value) : Except Halt Arena :=
  a.store64 (property + 8) value

end ArenaScript.Arena
