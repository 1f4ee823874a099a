import ArenaScript.Engine.Heap
import ArenaScript.Number.Text

/-!
# Texts of values

How values are shown.  Strings stand between quotes, objects list their
properties with the newest first, and an object inside itself is cut short.

Main definitions:

- `Arena.render`: the text of a value that is not an error.
- `Engine.render`: the text of any value.
-/

namespace ArenaScript.Arena

/-- A text between double quotes. -/
def quote (text : ByteArray) : ByteArray :=
  Bytes.ofString "\"" ++ text ++ Bytes.ofString "\""

/-- The text of a value without parts. -/
def renderPlain (v : Value) : ByteArray :=
  match v.kind with
  | .undefined => Bytes.ofString "undefined"
  | .null => Bytes.ofString "null"
  | .boolean => Bytes.ofString (if v.toBool then "true" else "false")
  | .number => Bytes.ofString (Number.text v.bits)
  | .native => quote (Bytes.ofString "c_func_0x" ++ Bytes.hex v.payload.toNat)
  | .property => Bytes.ofString "PROP@" ++ Bytes.ofNat v.offset.toNat
  | kind => Bytes.ofString "VTYPE" ++ Bytes.ofNat kind.code.toNat

/-- The text of a value inside the objects of a path.  The depth bounds the
length of the path. -/
def renderWithin (a : Arena) : Nat → List UInt32 → Value → Except Halt ByteArray
  | 0, _, _ => .error .endless
  | depth + 1, path, v =>
    match v.kind with
    | .string => quote <$> a.stringBytes v.offset
    | .function => (Bytes.ofString "function" ++ ·) <$> a.stringBytes v.offset
    | .object =>
      if path.contains v.offset then .ok (Bytes.ofString "[Circular]")
      else do
        let items ← (← a.properties v.offset).mapM fun property => do
          let key ← a.stringBytes (← a.propertyKey property)
          let value ← renderWithin a depth (v.offset :: path) (← a.propertyValue property)
          return quote key ++ Bytes.ofString ":" ++ value
        return Bytes.ofString "\x7b" ++ Bytes.joinWith (Bytes.ofString ",") items
          ++ Bytes.ofString "\x7d"
    | _ => .ok (renderPlain v)

/-- The text of a value that is not an error.  No path visits an object twice,
so the number of bytes bounds its length. -/
def render (a : Arena) (v : Value) : Except Halt ByteArray :=
  renderWithin a (a.bytes.size + 2) [] v

end ArenaScript.Arena

namespace ArenaScript.Engine

/-- The text of a value.  Errors are shown by their message. -/
def render (v : Value) : Action ByteArray := do
  if v.isError then return (← get).log.message v
  readArena (·.render v)

end ArenaScript.Engine
