import ArenaScript.Host.Requests

/-!
# Native functions of the shell

The functions that every script of the shell can call.

Main definitions:

- `Command`: a native function with its name and a line of help.
- `Shell.natives`: the functions, in the order of their names.
- `Shell.install`: makes them properties of the global object.
-/

namespace ArenaScript.Shell

/-- A native function with its name and a line of help. -/
structure Command where
  name : String
  usage : String
  native : Native

/-- Asks for the text that a value is printed as: strings stand without quotes. -/
def display (v : Value) (next : ByteArray → HostProgram) : HostProgram :=
  .stringBytes v fun
    | some s => next s
    | none => .render v next

/-- Fails with a message. -/
def failWith (message : String) : HostProgram := .makeError (Bytes.ofString message) .done

/-- Prints the arguments from one on, after those collected in reverse. -/
def printFrom : Nat → Nat → List ByteArray → HostProgram
  | 0, _, done =>
    .write (Bytes.joinWith (Bytes.ofString " ") done.reverse ++ Bytes.ofString "\n")
      (.done .undefined)
  | left + 1, index, done =>
    .argument index fun v => display v fun text => printFrom left (index + 1) (text :: done)

/-- Prints its arguments with blanks between them. -/
def print : Command where
  name := "print"
  usage := "print(a, ...) writes its arguments separated by blanks"
  native := ⟨fun count => printFrom count 0 []⟩

/-- Renders its argument as a string; a string stays as it is. -/
def str : Command where
  name := "str"
  usage := "str(v) returns v rendered as a string"
  native := ⟨fun count =>
    if count ≠ 1 then failWith "str: 1 arg expected"
    else .argument 0 fun v => .stringBytes v fun
      | some _ => .done v
      | none => .render v fun text => .makeString text .done⟩

/-- Asks for a collection. -/
def gc : Command where
  name := "gc"
  usage := "gc() requests a garbage collection"
  native := ⟨fun _ => .collect fun done => .done (.ofBool done)⟩

/-- Fails if its first argument does not count as true. -/
def assert : Command where
  name := "assert"
  usage := "assert(cond, msg) fails the script if cond is false"
  native := ⟨fun count =>
    if count < 1 ∨ 2 < count then failWith "assert: 1 or 2 args expected"
    else .argument 0 fun v => .isTruthy v fun holds =>
      if holds then .done (.ofBool true)
      else if count = 2 then
        .argument 1 fun v => display v fun text =>
          .makeError (Bytes.ofString "assertion failed: " ++ text) .done
      else failWith "assertion failed"⟩

/-- The native functions, in the order of their names. -/
def natives : List Command := [assert, gc, print, str]

/-- The lines of help on the native functions. -/
def usageLines : ByteArray :=
  Bytes.concat <| natives.map fun c =>
    Bytes.ofString (c.name.pushn ' ' (8 - c.name.length) ++ " " ++ c.usage ++ "\n")

/-- Makes native functions properties of the global object, up to the first
that does not fit. -/
def installAll : List Command → Action (Option SetError)
  | [] => return none
  | c :: rest => do
    let v ← Engine.registerNative c.native
    match ← Engine.setProperty Engine.globalObject (Bytes.ofString c.name) v with
    | some e => return some e
    | none => installAll rest

/-- Makes the native functions of the shell properties of the global object. -/
def install : Action (Option SetError) := installAll natives

end ArenaScript.Shell
