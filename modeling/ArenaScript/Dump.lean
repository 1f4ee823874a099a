import ArenaScript.Engine.Basic

/-!
# Lists of entities

A text with one line for the registers of the arena and one line for each
entity.
-/

namespace ArenaScript.Arena

/-- A line of text. -/
def line (parts : List ByteArray) : ByteArray := Bytes.concat parts ++ Bytes.ofString "\n"

/-- The line of the entity at an offset, without its number; none if the
header is that of no entity. -/
def describe? (a : Arena) (offset header : UInt32) : Except Halt (Option ByteArray) := do
  if headerKind header = 0 then
    let parent ← a.parent offset
    return some <| line [Bytes.ofString "OBJ ", Bytes.ofNat (headerLink header).toNat,
      Bytes.ofString " ", Bytes.ofNat parent.toNat]
  else if headerKind header = 1 then
    let value ← a.propertyValue offset
    let key ← a.propertyKey offset
    return some <| line [Bytes.ofString "PROP next ", Bytes.ofNat (headerLink header).toNat,
      Bytes.ofString ", koff ", Bytes.ofNat key.toNat, Bytes.ofString " vtype ",
      Bytes.ofString value.kind.name, Bytes.ofString " vdata ",
      Bytes.ofNat value.payload.toNat]
  else if headerKind header = 2 then
    let text ← a.stringBytes offset
    return some <| line [Bytes.ofString "STR ", Bytes.ofNat text.size, Bytes.ofString " [",
      text, Bytes.ofString "]"]
  else return none

/-- The lines of the entities from an offset on. -/
def dumpFrom (a : Arena) : Nat → UInt32 → ByteArray → Except Halt ByteArray
  | 0, _, _ => .error .endless
  | bound + 1, offset, out =>
    if a.used ≤ offset then .ok out
    else do
      let header ← a.load32 offset
      let number := Bytes.ofChars (Bytes.padLeft 5 ' ' (Nat.toDigits 10 offset.toNat))
      let out := Bytes.concat [out, Bytes.ofString " ", number, Bytes.ofString ": "]
      match ← a.describe? offset header with
      | some text => dumpFrom a bound (offset + entitySize header) (out ++ text)
      | none => return out ++ Bytes.ofString "???\n"

end ArenaScript.Arena

namespace ArenaScript.Engine

/-- A list of the registers of the arena and of all entities. -/
def dump : Action ByteArray := do
  let e ← get
  let head := Arena.line [Bytes.ofString "size ", Bytes.ofNat e.arena.limit.toNat,
    Bytes.ofString ", brk ", Bytes.ofNat e.arena.used.toNat, Bytes.ofString ", lwm ",
    Bytes.ofNat e.arena.low.toNat, Bytes.ofString ", depth ", Bytes.ofNat e.deepest,
    Bytes.ofString ", nogc ", Bytes.ofNat e.pinned.toNat]
  readArena fun a => a.dumpFrom a.chainBound 0 head

end ArenaScript.Engine
