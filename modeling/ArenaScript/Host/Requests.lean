import ArenaScript.Collector
import ArenaScript.Digest
import ArenaScript.Dump
import ArenaScript.Render
import ArenaScript.Text.Quoted

/-!
# Requests of the host

What a host can ask of an engine, apart from evaluating a text.

Main definitions:

- `Engine.setProperty`, `Engine.getProperty`, `Engine.listProperties`: the
  properties of an object.
- `Engine.registerNative`: a value that calls a native function.
- `Engine.stats`: the resources in use.
-/

namespace ArenaScript

namespace SetError

/-- The message of a property that could not be set. -/
def message : SetError → ByteArray
  | notAnObject key kind =>
    Bytes.concat [Bytes.ofString "set ", Text.quoted key, Bytes.ofString " on ",
      Bytes.ofString kind.name, Bytes.ofString ": type mismatch"]
  | outOfMemory key =>
    Bytes.concat [Bytes.ofString "set ", Text.quoted key, Bytes.ofString ": out of memory"]

/-- The kind of error that keeps a property from being set. -/
def kind : SetError → ErrorKind
  | notAnObject _ _ => .typeMismatch
  | outOfMemory _ => .outOfMemory

end SetError

namespace Engine

/-- The global scope as an object. -/
def globalObject : Value := .ref .object 0

/-- Adds a property to an object.  A property with the same key is not replaced
but hidden. -/
def setProperty (object : Value) (key : ByteArray) (value : Value) :
    Action (Option SetError) := do
  if object.kind ≠ .object then return some (.notAnObject key object.kind)
  let name ← newString key
  if name.isError then return some (.outOfMemory key)
  let property ← newProperty object name value
  return if property.isError then some (.outOfMemory key) else none

/-- The value of a property of an object, or undefined. -/
def getProperty (object : Value) (key : ByteArray) : Action Value := do
  if object.kind ≠ .object then return .undefined
  let property ← findProperty object.offset key
  if property = 0 then return .undefined else readArena (·.propertyValue property)

/-- Key and value of each property of an object, the newest first. -/
def listProperties (object : Value) : Action (List (ByteArray × Value)) := do
  if object.kind ≠ .object then return []
  readArena fun a => do
    (← a.properties object.offset).mapM fun property => do
      return (← a.stringBytes (← a.propertyKey property), ← a.propertyValue property)

/-- The bytes of a string, and none for other values. -/
def stringBytes? (v : Value) : Action (Option ByteArray) := do
  if v.kind = .string then return some (← stringBytes v) else return none

/-- Registers a native function and gives a value that calls it. -/
def registerNative (native : Native) : Action Value := do
  let index := (← get).natives.size
  modify fun e => { e with natives := e.natives.push native }
  report (.nativeRegistered index)
  return .box .native (UInt64.ofNat index)

/-- The resources in use, with a digest of the bytes in use by a given hash. -/
def statsBy (hash : ByteArray → Nat → UInt64) : Action Stats := do
  noteUse
  let e ← get
  return {
    capacity := e.arena.top
    used := e.arena.used
    low := e.arena.low
    depth := e.deepest
    digest := hash e.arena.bytes e.arena.used.toNat }

/-- The resources in use. -/
def stats : Action Stats := statsBy Digest.hash

/-- Writes to the output of the host. -/
def writeOutput (text : ByteArray) : Action Unit :=
  modify fun e => { e with output := e.output ++ text }

/-- Argument number `index` of the native call whose `count` arguments lie on
the scratch stack from an offset on. -/
def argument (offset : UInt32) (count : Nat) (index : Int) : Action Value :=
  if index < 0 ∨ count ≤ index.toNat then return .undefined
  else readArena (·.load64 (offset + UInt32.ofNat (8 * index.toNat)))

end Engine

end ArenaScript
