import ArenaScript.Host.Requests

/-!
# Outlines of objects

The properties of an object as a list of lines with levels.  Objects inside it
are listed below their key, unless they are being listed already.

Main definitions:

- `Shell.outline`: the lines of an object.
-/

namespace ArenaScript.Shell

/-- A line of an outline. -/
structure OutlineItem where
  level : Nat
  text : ByteArray

/-- The lines of an object inside the objects of a path.  The bound limits the
length of the path. -/
def outlineWithin : Nat → List Value → Value → Action (List OutlineItem)
  | 0, _, _ => fun _ => .error .endless
  | bound + 1, path, object => do
    let level := path.length
    let items ← (← Engine.listProperties object).mapM fun (key, v) => do
      if v.kind ≠ .object then
        return [OutlineItem.mk level (key ++ Bytes.ofString " = " ++ (← Engine.render v))]
      else if v ∈ object :: path then
        return [OutlineItem.mk level (key ++ Bytes.ofString " = [Circular]")]
      else
        return OutlineItem.mk level key :: (← outlineWithin bound (object :: path) v)
    return items.flatten

/-- The lines of an object.  No path visits an object twice, so the number of
bytes of the arena bounds its length. -/
def outline (object : Value) : Action (List OutlineItem) := do
  outlineWithin ((← get).arena.bytes.size + 2) [] object

end ArenaScript.Shell
