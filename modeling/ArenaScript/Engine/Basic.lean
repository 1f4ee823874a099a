import ArenaScript.Cursor
import ArenaScript.Entity
import ArenaScript.Event
import ArenaScript.Host.Program

/-!
# Engines

An engine is an arena together with the registers of an evaluation: the active
scope, the cursor, the values held for later, and the counters that hosts can
ask for.

Main definitions:

- `Engine`: the state.
- `Engine.create?`: an engine over a block of zero bytes.
- `Action`: a computation on an engine that may halt.
- `Engine.fail`: how a script fails.
-/

namespace ArenaScript

/-- The state of an engine. -/
structure Engine where
  /-- The memory of all entities. -/
  arena : Arena
  /-- Statements start a collection when more bytes than this are used. -/
  threshold : UInt32
  /-- An entity that is kept besides all roots; 0 for none. -/
  pinned : UInt32
  /-- The active scope object. -/
  scope : UInt32
  /-- The value of the return statement executed last. -/
  result : Value
  /-- The messages of recent errors. -/
  log : ErrorLog
  /-- The place in the current text. -/
  cursor : Cursor
  /-- Values held by evaluations under way, the newest first. -/
  roots : List Value
  /-- Cursors of interrupted evaluations, the newest first. -/
  suspended : List Cursor
  /-- How statements are executed. -/
  mode : Mode
  /-- The number of evaluations under way. -/
  evaluations : Nat
  /-- The current nesting. -/
  depth : Nat
  /-- The limit of nesting; none unless positive. -/
  maxDepth : Int
  /-- The deepest nesting noted so far. -/
  deepest : Nat
  /-- A collection was asked for and put off. -/
  collectPending : Bool
  /-- The registered native functions. -/
  natives : Array Native
  /-- Events are wanted. -/
  tracing : Bool
  /-- The events so far. -/
  events : Array Event
  /-- What natives wrote to the output of the host. -/
  output : ByteArray

/-- A choice made when an engine is created. -/
inductive Setting where
  /-- The part of the arena above which statements collect, as the bit pattern
  of a number; without effect outside the range from 0 (excluded) to 1. -/
  | collectRatio (bits : UInt64)
  /-- The limit of nesting. -/
  | maxDepth (depth : Int)
  /-- Events are wanted. -/
  | tracing

namespace Engine

/-! ## Creation -/

/-- The size of an object record is the least size of an arena. -/
def leastCapacity : UInt32 := Arena.objectSize

/-- The part of a block that an engine can use: its length as a 32-bit word,
rounded down to a multiple of eight. -/
def capacityOf (length : Nat) : UInt32 := UInt32.ofNat length / 8 * 8

/-- The engine over a block of zero bytes.  Its first entity, at offset 0, is
the global scope: an object without properties, whose record is all zeros. -/
def initial (length : Nat) : Engine where
  arena := { Arena.blank length (capacityOf length) with used := Arena.objectSize }
  threshold := capacityOf length / 4 * 3
  pinned := 0
  scope := 0
  result := .zero
  log := .empty
  cursor := .idle
  roots := []
  suspended := []
  mode := {}
  evaluations := 0
  depth := 0
  maxDepth := 0
  deepest := 0
  collectPending := false
  natives := #[]
  tracing := false
  events := #[]
  output := ByteArray.empty

/-- A ratio counts when it is above 0 and at most 1. -/
def isRatio (bits : UInt64) : Bool :=
  0 < Float.ofBits bits && Float.ofBits bits ≤ 1

/-- The bytes that make up a part of a capacity. -/
def ratioOf (capacity : UInt32) (bits : UInt64) : UInt32 :=
  (capacity.toFloat * Float.ofBits bits).toUInt32

/-- Applies a choice to a new engine. -/
def configure (e : Engine) : Setting → Engine
  | .collectRatio bits =>
    if isRatio bits then { e with threshold := ratioOf e.arena.limit bits } else e
  | .maxDepth depth => { e with maxDepth := depth }
  | .tracing => { e with tracing := true }

/-- An engine over a block of the given length, unless the block is too small
for the global scope. -/
def create? (length : Nat) (settings : List Setting) : Option Engine :=
  if capacityOf length < leastCapacity then none
  else some (settings.foldl configure (initial length))

end Engine

/-! ## Actions -/

/-- A computation on an engine that may halt without an answer. -/
abbrev Action := StateT Engine (Except Halt)

namespace Engine

/-- Stops with a fault. -/
def fault {α : Type} : Action α := fun _ => .error .fault

/-- Reads from the arena. -/
def readArena {α : Type} (f : Arena → Except Halt α) : Action α := fun e =>
  match f e.arena with
  | .ok a => .ok (a, e)
  | .error h => .error h

/-- Changes the arena. -/
def changeArena (f : Arena → Except Halt Arena) : Action Unit := fun e =>
  match f e.arena with
  | .ok a => .ok ((), { e with arena := a })
  | .error h => .error h

/-- Changes the cursor. -/
def changeCursor (f : Cursor → Cursor) : Action Unit :=
  modify fun e => { e with cursor := f e.cursor }

/-- Changes the mode. -/
def changeMode (f : Mode → Mode) : Action Unit :=
  modify fun e => { e with mode := f e.mode }

/-- Reports an event if events are wanted. -/
def report (event : Event) : Action Unit :=
  modify fun e => if e.tracing then { e with events := e.events.push event } else e

/-- Notes the free bytes and the nesting. -/
def noteUse : Action Unit :=
  modify fun e => { e with arena := e.arena.noteLow, deepest := max e.deepest e.depth }

/-- Fails: the message is recorded and nothing more is read from the current
text. -/
def fail (f : Failure) : Action Value := do
  modify fun e => { e with log := e.log.record f, cursor := e.cursor.finish }
  report (.failed f.kind f.message)
  return (← get).log.lastValue f.kind

/-! ## Values held for later -/

/-- Holds a value, so that a collection keeps and follows it. -/
def hold (v : Value) : Action Unit := modify fun e => { e with roots := v :: e.roots }

/-- Takes back the value held last. -/
def unhold : Action Value := fun e =>
  match e.roots with
  | [] => .error .fault
  | v :: roots => .ok (v, { e with roots := roots })

/-- The value held before a number of others. -/
def held (n : Nat) : Action Value := fun e =>
  match e.roots[n]? with
  | none => .error .fault
  | some v => .ok (v, e)

/-- Sets the current cursor aside. -/
def suspend : Action Unit := modify fun e => { e with suspended := e.cursor :: e.suspended }

/-- Goes back to the cursor set aside last. -/
def resume : Action Unit := fun e =>
  match e.suspended with
  | [] => .error .fault
  | c :: suspended => .ok ((), { e with cursor := c, suspended := suspended })

end Engine

end ArenaScript
