import ArenaScript.Engine.Basic
import ArenaScript.Token.Literal

/-!
# Reading the current text

The productions of the grammar read the text of an engine token by token.
-/

namespace ArenaScript.Engine

/-- The current text. -/
def source : Action Source := fun e =>
  if e.cursor.isValid e.arena.bytes then .ok (e.cursor.source e.arena.bytes, e)
  else .error .fault

/-- The current token, scanned now if the one before it was used up. -/
def token : Action Token := fun e =>
  if e.cursor.consumed && !e.cursor.isValid e.arena.bytes then .error .fault
  else
    let cursor := e.cursor.advance e.arena.bytes
    .ok (cursor.token, { e with cursor := cursor })

/-- Uses up the current token. -/
def use : Action Unit := changeCursor Cursor.use

/-- Uses up the current token if it is the given one. -/
def expect (t : Token) : Action Bool := do
  if (← token) = t then
    use
    return true
  else return false

/-- The token after the current one, which stays current. -/
def lookahead : Action Token := do
  let saved := (← get).cursor
  use
  let t ← token
  changeCursor fun _ => saved.unuse
  return t

/-- The bytes of a part of the current text. -/
def textAt (i length : Nat) : Action ByteArray := do
  let s ← source
  if s.start + i + length ≤ s.bytes.size then return s.slice i length else fault

/-- The bytes of the current token. -/
def tokenText : Action ByteArray := do
  let c := (← get).cursor
  textAt c.tokenStart c.tokenLength

/-- The bytes a span stands for. -/
def spanText (v : Value) : Action ByteArray := textAt v.spanStart.toNat v.spanLength.toNat

/-- Fails because the text does not fit the grammar. -/
def malformed : Action Value := fail .malformed

/-- The engine is in a dry run. -/
def isDry : Action Bool := return (← get).mode.dry

end ArenaScript.Engine
