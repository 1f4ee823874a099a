import ArenaScript.Value

/-!
# Host programs

A native function is a program of the host that is called by a script.  What
such a program can do is a sequence of requests to the engine, each of which
may depend on the answers to those before it.  Programs are data: an engine
runs one by answering its requests, and statements about all native functions
are statements about all programs.

Main definitions:

- `HostProgram`: a program, by its first request and what follows the answer.
- `Native`: a native function, a program for each number of arguments.
-/

namespace ArenaScript

/-- A snapshot of the resources of an engine. -/
structure Stats where
  /-- The bytes of the arena. -/
  capacity : UInt32
  /-- The bytes taken by entities. -/
  used : UInt32
  /-- The least number of free bytes seen. -/
  low : UInt32
  /-- The deepest nesting seen. -/
  depth : Nat
  /-- A hash of the entities. -/
  digest : UInt64
deriving DecidableEq, Repr

/-- Why a property could not be set. -/
inductive SetError where
  /-- The target is not an object. -/
  | notAnObject (key : ByteArray) (kind : Kind)
  /-- The key or the property does not fit. -/
  | outOfMemory (key : ByteArray)

/-- A program of the host. -/
inductive HostProgram where
  /-- Ends with a value. -/
  | done (value : Value)
  /-- Asks for an argument of the call; undefined if there is none. -/
  | argument (index : Int) (next : Value → HostProgram)
  /-- Makes a string. -/
  | makeString (text : ByteArray) (next : Value → HostProgram)
  /-- Makes an object without properties. -/
  | makeObject (next : Value → HostProgram)
  /-- Makes an error with a message. -/
  | makeError (message : ByteArray) (next : Value → HostProgram)
  /-- Registers a native function. -/
  | register (native : Nat → HostProgram) (next : Value → HostProgram)
  /-- Adds a property to an object. -/
  | set (object : Value) (key : ByteArray) (value : Value)
      (next : Option SetError → HostProgram)
  /-- Asks for the value of a property. -/
  | get (object : Value) (key : ByteArray) (next : Value → HostProgram)
  /-- Asks for all properties of an object, the newest first. -/
  | properties (object : Value) (next : List (ByteArray × Value) → HostProgram)
  /-- Asks for the bytes of a string. -/
  | stringBytes (value : Value) (next : Option ByteArray → HostProgram)
  /-- Asks for the text that shows a value. -/
  | render (value : Value) (next : ByteArray → HostProgram)
  /-- Asks whether a value counts as true. -/
  | isTruthy (value : Value) (next : Bool → HostProgram)
  /-- Asks for a collection. -/
  | collect (next : Bool → HostProgram)
  /-- Asks for the resources in use. -/
  | stats (next : Stats → HostProgram)
  /-- Asks for a list of all entities. -/
  | dump (next : ByteArray → HostProgram)
  /-- Sets the size above which statements start a collection. -/
  | setThreshold (size : UInt32) (next : HostProgram)
  /-- Sets the limit of nesting. -/
  | setMaxDepth (depth : Int) (next : HostProgram)
  /-- Evaluates a text. -/
  | evaluate (text : ByteArray) (next : Value → HostProgram)
  /-- Writes to the output of the host. -/
  | write (text : ByteArray) (next : HostProgram)

/-- A native function: a program for each number of arguments. -/
structure Native where
  program : Nat → HostProgram

end ArenaScript
