import ArenaScript.Token.Scanner

/-!
# Cursors

A cursor is a place in a text together with the token last scanned there.  A
token stays current until it is used up.  Texts of functions lie in the arena
and are addressed by offset, so that the collector can move them.

Main definitions:

- `Cursor`: a place in a text.
- `Cursor.advance`: scans the next token unless the current one is unused.
-/

namespace ArenaScript

/-- Where the text of a cursor lies. -/
inductive Origin where
  /-- A text handed over by the host, from a position on. -/
  | host (text : ByteArray) (start : Nat)
  /-- The arena, from an offset on. -/
  | arena (start : Nat)

/-- A place in a text. -/
structure Cursor where
  /-- Where the text lies. -/
  origin : Origin
  /-- The length of the text. -/
  length : Nat
  /-- Where the next token is looked for. -/
  pos : Nat
  /-- The start of the current token. -/
  tokenStart : Nat
  /-- The length of the current token. -/
  tokenLength : Nat
  /-- The current token. -/
  token : Token
  /-- The current token was used, so that the next one is due. -/
  consumed : Bool
  /-- The value of the number scanned last. -/
  number : Value

namespace Cursor

/-- A cursor at the start of a text, before its first token. -/
def start (origin : Origin) (length : Nat) : Cursor where
  origin := origin
  length := length
  pos := 0
  tokenStart := 0
  tokenLength := 0
  token := .bad
  consumed := true
  number := .zero

/-- The cursor of an engine that has not seen a text. -/
def idle : Cursor := { start (.host ByteArray.empty 0) 0 with consumed := false }

/-- A cursor over all of a text of the host. -/
def ofText (text : ByteArray) : Cursor := start (.host text 0) text.size

/-- The text of a cursor. -/
def source (c : Cursor) (arena : ByteArray) : Source :=
  match c.origin with
  | .host text start => ⟨text, start, c.length⟩
  | .arena start => ⟨arena, start, c.length⟩

/-- The text lies within the bytes it is part of. -/
def isValid (c : Cursor) (arena : ByteArray) : Bool :=
  let s := c.source arena
  s.start + s.length ≤ s.bytes.size

/-- A cursor at the start of a part of the text. -/
def part (c : Cursor) (i length : Nat) : Cursor :=
  match c.origin with
  | .host text s => start (.host text (s + i)) length
  | .arena s => start (.arena (s + i)) length

/-- Takes over a scanned token. -/
def accept (c : Cursor) (lexeme : Source.Lexeme) : Cursor :=
  { c with
    pos := lexeme.start + lexeme.length
    tokenStart := lexeme.start
    tokenLength := lexeme.length
    token := lexeme.token
    consumed := false
    number := lexeme.number.getD c.number }

/-- Scans the next token unless the current one is unused. -/
def advance (c : Cursor) (arena : ByteArray) : Cursor :=
  if c.consumed then c.accept ((c.source arena).scan c.pos) else c

/-- The current token is used up. -/
def use (c : Cursor) : Cursor := { c with consumed := true }

/-- The current token is to be seen again. -/
def unuse (c : Cursor) : Cursor := { c with consumed := false }

/-- A cursor from which nothing more is read. -/
def finish (c : Cursor) : Cursor :=
  { c with pos := c.length, token := .eof, consumed := false }

/-- Goes to a position, before a token. -/
def seek (c : Cursor) (pos : Nat) : Cursor := { c with pos := pos, consumed := true }

/-- Follows a text of the arena when the bytes of a removed entity vanish from
below it. -/
def relocate (c : Cursor) (removed size : UInt32) : Cursor :=
  match c.origin with
  | .host _ _ => c
  | .arena start =>
    if removed.toNat < start then { c with origin := .arena (start - size.toNat) } else c

end Cursor

/-! ## Modes -/

/-- How statements are executed. -/
structure Mode where
  /-- Dry run: the text is checked and has no effect. -/
  dry : Bool := false
  /-- Inside the body of a loop. -/
  inLoop : Bool := false
  /-- Inside the body of a function. -/
  inCall : Bool := false
  /-- A break statement was executed. -/
  broken : Bool := false
  /-- A continue statement was executed. -/
  continued : Bool := false
  /-- A return statement was executed. -/
  returned : Bool := false
deriving DecidableEq, Repr

namespace Mode

/-- The mode as a number, one bit for each field. -/
def code (m : Mode) : Nat :=
  m.dry.toNat + 2 * m.inLoop.toNat + 4 * m.inCall.toNat + 8 * m.broken.toNat
    + 16 * m.continued.toNat + 32 * m.returned.toNat

/-- The rest of a body is passed over. -/
def isSkipping (m : Mode) : Bool := m.broken || m.continued || m.returned

end Mode

end ArenaScript
