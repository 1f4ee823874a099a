import ArenaScript.Engine.Scanning

/-!
# Entities of an engine

New entities of an engine, which fails when one does not fit, and the scopes
that hold its names.  A scope is an object; its parent is the scope around it
and the global scope, at offset 0, is the outermost.

Main definitions:

- `Engine.newString`, `Engine.newObject`, `Engine.newProperty`: new entities.
- `Engine.enterScope`, `Engine.leaveScope`: the active scope.
- `Engine.lookup`: the property of a name in the chain of scopes.
-/

namespace ArenaScript.Engine

/-! ## New entities -/

/-- Reserves a number of bytes for a new entity and fills them, or fails.  The
engine gives up its old arena before that, so that the block is not copied. -/
def place (kind : Kind) (n : UInt32) (fill : UInt32 → Arena → Except Halt Arena) :
    Action Value := fun e =>
  match e.arena.alloc? n with
  | none => fail .outOfMemory e
  | some (offset, arena) =>
    (do changeArena (fill offset); return .ref kind offset : Action Value) { e with arena := arena }

/-- A new string. -/
def newString (text : ByteArray) : Action Value :=
  place .string (4 + (UInt32.ofNat text.size + 1)) (Arena.putString text)

/-- A new object. -/
def newObject (parent : UInt32) : Action Value := place .object (4 + 4) (Arena.putObject parent)

/-- A new property of an object, in front of those it has. -/
def newProperty (object key : Value) (value : Value) : Action Value := do
  let first ← readArena (·.firstProperty object.offset)
  place .property (4 + 12) (Arena.putProperty object.offset key.offset first value)

/-! ## Reading values -/

/-- The plain value a property reference leads to. -/
def resolve (v : Value) : Action Value := readArena (·.resolve v)

/-- The bytes of a string. -/
def stringBytes (v : Value) : Action ByteArray := readArena (·.stringBytes v.offset)

/-- The length of a string. -/
def stringLength (v : Value) : Action UInt32 := readArena (·.stringLength v.offset)

/-- The property of an object with a key, or 0. -/
def findProperty (object : UInt32) (name : ByteArray) : Action UInt32 :=
  readArena (·.findProperty object name)

/-- A value counts as true in a condition. -/
def isTruthy (v : Value) : Action Bool :=
  match v.kind with
  | .boolean => return v.toBool
  | .number => return v.toFloat != 0 && !v.toFloat.isNaN
  | .object | .function => return true
  | .string => return 0 < (← stringLength v)
  | _ => return false

/-! ## Scopes -/

/-- Enters a new scope inside the active one. -/
def enterScope : Action Value := do
  let scope ← newObject (← get).scope
  if scope.isError then return scope
  modify fun e => { e with scope := scope.offset }
  report (.scopeEntered scope.offset)
  return scope

/-- Goes back to the scope around the active one. -/
def leaveScope : Action Unit := do
  let scope := (← get).scope
  report (.scopeLeft scope)
  let parent ← readArena (·.parent scope)
  modify fun e => { e with scope := parent }

end ArenaScript.Engine

namespace ArenaScript.Arena

/-- Looks for a name in a scope and in those around it; 0 if it is in none. -/
def findInScopes (a : Arena) (name : ByteArray) : Nat → UInt32 → Except Halt UInt32
  | 0, _ => .error .endless
  | bound + 1, scope => do
    let property ← a.findProperty scope name
    if property ≠ 0 then return property
    else if scope = 0 then return 0
    else findInScopes a name bound (← a.parent scope)

end ArenaScript.Arena

namespace ArenaScript.Engine

/-- A reference to the property of a name. -/
def lookup (name : ByteArray) : Action Value := do
  if ← isDry then return .zero
  let scope := (← get).scope
  let property ← readArena fun a => a.findInScopes name a.chainBound scope
  if property = 0 then fail (.notFound name) else return .ref .property property

/-- Replaces the value of a property and gives the property back. -/
def assign (target value : Value) : Action Value := do
  changeArena (·.assign target.offset value)
  return target

end ArenaScript.Engine
