import ArenaScript.Collector.Marking

/-!
# Compaction

Takes marked entities out of the arena, one after the other.  Before the bytes
of an entity vanish, every offset above it is moved down by its size; then the
bytes above it slide down.  Bytes above the new end keep what they held.

Main definitions:

- `Arena.moved`: where an offset points after a removal.
- `Arena.relocate`: moves the links of all entities that stay.
- `Arena.slide`: closes the gap.
-/

namespace ArenaScript.Arena

/-- Where an offset points once `size` bytes at `start` are taken out. -/
def moved (start size offset : UInt32) : UInt32 :=
  if start < offset then offset - size else offset

/-- A value after a removal. -/
def movedValue (start size : UInt32) (v : Value) : Value :=
  if v.isEntity then .ref v.kind (moved start size v.offset) else v

/-- A header after a removal. -/
def movedHeader (start size header : UInt32) : UInt32 :=
  moved start size (headerLink header) ||| headerKind header

/-- Moves the links of the entity at an offset, which stays. -/
def relocateEntity (a : Arena) (start size offset header : UInt32) : Except Halt Arena := do
  if headerKind header = 0 then
    let a ← a.store32 offset (movedHeader start size header)
    a.store32 (offset + 4) (moved start size (← a.parent offset))
  else if headerKind header = 1 then
    let a ← a.store32 offset (movedHeader start size header)
    let a ← a.store32 (offset + 4) (moved start size (← a.propertyKey offset))
    let value ← a.propertyValue offset
    if value.isEntity then a.store64 (offset + 8) (movedValue start size value) else return a
  else return a

/-- Moves the links of the entities from an offset on. -/
def relocateFrom (start size : UInt32) : Nat → UInt32 → Arena → Except Halt Arena
  | 0, _, _ => .error .endless
  | bound + 1, offset, a =>
    if a.used ≤ offset then .ok a
    else do
      let header ← a.load32 offset
      let a ← if isMarked header then pure a else a.relocateEntity start size offset header
      relocateFrom start size bound (offset + entitySize (unmarked header)) a

/-- Moves the values of the scratch stack from an offset on. -/
def relocateScratch (start size : UInt32) : Nat → UInt32 → Arena → Except Halt Arena
  | 0, _, a => .ok a
  | count + 1, offset, a => do
    let v ← a.load64 offset
    relocateScratch start size count (offset + 8)
      (← a.store64 offset (movedValue start size v))

/-- Moves every offset that the arena holds. -/
def relocate (a : Arena) (start size : UInt32) : Except Halt Arena := do
  let a ← relocateFrom start size a.chainBound 0 a
  relocateScratch start size a.scratchCount a.limit a

/-- Closes the gap left by the bytes taken out. -/
def slide (a : Arena) (start size : UInt32) : Except Halt Arena :=
  if start.toNat + size.toNat ≤ a.used.toNat ∧ a.used.toNat ≤ a.bytes.size then
    .ok { a with
      bytes := a.bytes.copySlice (start + size).toNat a.bytes start.toNat
        (a.used.toNat - (start + size).toNat)
      used := a.used - size }
  else .error .fault

end ArenaScript.Arena
