import ArenaScript.Entity

/-!
# Marking

The collector first marks every entity, then clears the marks of all entities
that can be reached from a list of offsets.  What stays marked is garbage.

Main definitions:

- `Arena.markAll`: sets every mark.
- `Arena.links`: the offsets an entity refers to.
- `Arena.unmark`: clears the marks of what can be reached.
-/

namespace ArenaScript.Arena

/-- The header carries the mark. -/
def isMarked (header : UInt32) : Bool := header &&& markBit != 0

/-- The header without the mark. -/
def unmarked (header : UInt32) : UInt32 := header &&& ~~~markBit

/-- Marks the entities from an offset on. -/
def markFrom : Nat → UInt32 → Arena → Except Halt Arena
  | 0, _, _ => .error .endless
  | bound + 1, offset, a =>
    if a.used ≤ offset then .ok a
    else do
      let header ← a.load32 offset
      markFrom bound (offset + entitySize header) (← a.store32 offset (header ||| markBit))

/-- Marks every entity. -/
def markAll (a : Arena) : Except Halt Arena := markFrom (2 * a.chainBound) 0 a

/-- The offset of the entity a value refers to, if it refers to one. -/
def valueLinks (v : Value) : List UInt32 := if v.isEntity then [v.offset] else []

/-- The link of a header, if it is one. -/
def linkOf (header : UInt32) : List UInt32 :=
  if headerLink header = 0 then [] else [headerLink header]

/-- The offsets that the entity at an offset refers to.  The header is given
without the mark. -/
def links (a : Arena) (offset header : UInt32) : Except Halt (List UInt32) := do
  if headerKind header = 0 then
    return (← a.parent offset) :: linkOf header
  else if headerKind header = 1 then
    return (← a.propertyKey offset) :: valueLinks (← a.propertyValue offset) ++ linkOf header
  else return []

/-- Clears the marks of the entities at the given offsets and of all entities
they lead to.  An entity without a mark is passed over, which also ends
cycles. -/
def unmarkBound : Nat → List UInt32 → Arena → Except Halt Arena
  | _, [], a => .ok a
  | 0, _ :: _, _ => .error .endless
  | bound + 1, offset :: rest, a =>
    if a.used ≤ offset then unmarkBound bound rest a
    else do
      let header ← a.load32 offset
      if isMarked header then
        let header := unmarked header
        let a ← a.store32 offset header
        unmarkBound bound ((← a.links offset header) ++ rest) a
      else unmarkBound bound rest a

/-- Clears the marks of all that can be reached from the given offsets.  Each
mark is cleared once and leads to at most three more offsets. -/
def unmark (a : Arena) (offsets : List UInt32) : Except Halt Arena :=
  unmarkBound (4 * a.bytes.size + offsets.length) offsets a

/-- The scope at an offset and all scopes around it. -/
def scopeChain (a : Arena) : Nat → UInt32 → Except Halt (List UInt32)
  | 0, _ => .error .endless
  | bound + 1, scope =>
    if scope = 0 then .ok [0]
    else do return scope :: (← scopeChain a bound (← a.parent scope))

/-- The values of the scratch stack from an offset on. -/
def scratchFrom (a : Arena) : Nat → UInt32 → Except Halt (List Value)
  | 0, _ => .ok []
  | count + 1, offset => do
    return (← a.load64 offset) :: (← scratchFrom a count (offset + 8))

/-- The number of values on the scratch stack. -/
def scratchCount (a : Arena) : Nat := (a.top.toNat - a.limit.toNat + 7) / 8

/-- The values of the scratch stack. -/
def scratch (a : Arena) : Except Halt (List Value) := a.scratchFrom a.scratchCount a.limit

end ArenaScript.Arena
