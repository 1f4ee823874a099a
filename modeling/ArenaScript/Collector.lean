import ArenaScript.Collector.Compaction
import ArenaScript.Engine.Basic

/-!
# The collector

A collection keeps what can be reached from the scopes, the pinned entity, the
last returned value, the values held by evaluations and the arguments of
natives.  It may run at any statement, so every offset an engine holds follows
the entity it points to.

Main definitions:

- `Engine.liveOffsets`: where the search for live entities starts.
- `Engine.collectNow`: one collection.
- `Engine.collect`: a collection asked for by the host.
- `Engine.collectIfDue`: a collection before a statement.
-/

namespace ArenaScript.Engine

/-- The offsets from which every live entity can be reached. -/
def liveOffsets (e : Engine) : Except Halt (List UInt32) := do
  let scopes ← e.arena.scopeChain e.arena.chainBound e.scope
  let pinned := if e.pinned = 0 then [] else [e.pinned]
  let values := e.result :: e.roots.reverse ++ (← e.arena.scratch)
  return scopes ++ pinned ++ values.flatMap Arena.valueLinks

/-- Moves every offset that an engine holds outside its arena. -/
def relocateRegisters (e : Engine) (start size : UInt32) : Engine :=
  { e with
    scope := Arena.moved start size e.scope
    pinned := Arena.moved start size e.pinned
    result := Arena.movedValue start size e.result
    roots := e.roots.map (Arena.movedValue start size)
    cursor := e.cursor.relocate start size
    suspended := e.suspended.map (·.relocate start size) }

/-- Takes an entity out of the arena. -/
def remove (e : Engine) (start size : UInt32) : Except Halt Engine := do
  let e := e.relocateRegisters start size
  let arena ← e.arena.relocate start size
  return { e with arena := ← arena.slide start size }

/-- Takes all marked entities from an offset on out of the arena. -/
def sweepFrom : Nat → UInt32 → Engine → Except Halt Engine
  | 0, _, _ => .error .endless
  | bound + 1, offset, e =>
    if e.arena.used ≤ offset then .ok e
    else do
      let header ← e.arena.load32 offset
      let size := Arena.entitySize (Arena.unmarked header)
      if Arena.isMarked header then sweepFrom bound offset (← e.remove offset size)
      else sweepFrom bound (offset + size) e

/-- Takes all marked entities out of the arena. -/
def sweep (e : Engine) : Except Halt Engine := sweepFrom e.arena.chainBound 0 e

/-- Marks what cannot be reached. -/
def markGarbage (e : Engine) : Except Halt Engine := do
  let offsets ← e.liveOffsets
  let marked ← e.arena.markAll
  return { e with arena := ← marked.unmark offsets }

/-- One collection. -/
def collectNow : Action Unit := do
  modify fun e => { e with collectPending := false }
  noteUse
  let before := (← get).arena.used
  let e ← (← get).markGarbage
  set (← e.sweep)
  report (.collected before (← get).arena.used)

/-- A collection asked for by the host.  While an evaluation is under way it is
put off until the next statement, and the answer is no. -/
def collect : Action Bool := do
  if 0 < (← get).evaluations then
    modify fun e => { e with collectPending := true }
    report .collectionDeferred
    return false
  else
    collectNow
    return true

/-- Collects before a statement if too much is used or a collection was put
off. -/
def collectIfDue : Action Unit := do
  let e ← get
  if !e.mode.dry && (e.threshold < e.arena.used || e.collectPending) then collectNow

end ArenaScript.Engine
