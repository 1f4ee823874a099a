import ArenaScript.Evaluate.Routine

/-!
# Primary expressions

Literals, names and groups.  A name is not looked up here: its value is the
span of text where it stands.

Main definitions:

- `Routine.stringLiteral`, `Routine.objectLiteral`, `Routine.functionLiteral`.
- `Routine.primary`: a literal or a name.
- `Routine.group`: a primary expression or one in parentheses.
-/

namespace ArenaScript.Routine

open Engine

/-! ## Strings -/

/-- The string of the current token, decoded right above the entities, where it
then stays.  The bytes before a bad escape are written all the same. -/
def placeString : Action Value := do
  let c := (← get).cursor
  let s ← source
  let (text, ok) := Source.unescape ⟨s.bytes, s.start + c.tokenStart, c.tokenLength⟩
  let start := (← get).arena.used.toNat + 4
  if (← get).arena.limit.toNat < start + c.tokenLength then fail .outOfMemory
  else
    changeArena (·.write start text)
    let length := UInt32.ofNat text.size
    if ok then place .string (4 + (length + 1)) (Arena.closeString length)
    else fail .badLiteral

/-- A string literal, which is only measured in a dry run. -/
def stringLiteral : Action Value := do
  if ← isDry then
    let c := (← get).cursor
    let s ← source
    let (_, ok) := Source.measure ⟨s.bytes, s.start + c.tokenStart, c.tokenLength⟩
    if ok then return .zero else fail .badLiteral
  else placeString

/-! ## Objects -/

/-- The key of a member, which may be a name or a string. -/
def memberKey : Action Value := do
  match ← token with
  | .ident => if ← isDry then return .zero else newString (← tokenText)
  | .string => stringLiteral
  | _ => malformed

/-- Adds a member to the object held before its key, unless the run is dry. -/
def addMember (object key value : Value) : Action Value := do
  if ← isDry then return .zero else newProperty object key (← resolve value)

/-- The rest of an object literal, up to its closing brace.  The object is
held. -/
def members : Routine Next := do
  if (← token) = .rightBrace then give .undefined
  else
    let key ← memberKey
    if key.isError then give key
    else
      use
      if !(← expect .colon) then give (← malformed)
      else
        hold key
        let value ← call .expression
        let key ← unhold
        if value.isError then give value
        else
          let added ← addMember (← held 0) key value
          if added.isError then give added
          else if (← token) = .rightBrace then give .undefined
          else if !(← expect .comma) then give (← malformed)
          else goOn .members

/-- An object literal after its opening brace. -/
def objectLiteral : Routine Value := do
  let object ← if ← isDry then pure Value.zero else newObject 0
  if object.isError then return object
  hold object
  let outcome ← call .members
  let object ← unhold
  if outcome.isError then return outcome
  if !(← expect .rightBrace) then malformed else return object

/-! ## Functions -/

/-- The rest of a parameter list, up to its closing parenthesis. -/
def parameters (afterComma : Bool) : Routine Next := do
  let t ← token
  if t = .eof then give .undefined
  else if !afterComma && t = .rightParen then give .undefined
  else if !(← expect .ident) then give (← malformed)
  else if (← token) = .rightParen then give .undefined
  else if !(← expect .comma) then give (← malformed)
  else goOn (.parameters true)

/-- The body of a function literal, which is only checked. -/
def checkBody : Routine Value := do
  let mode := (← get).mode
  changeCursor Cursor.unuse
  changeMode fun m => { m with dry := true }
  let outcome ← call (.block false)
  changeMode fun _ => mode
  return outcome

/-- A function literal after its keyword.  The value is the text from the
opening parenthesis to the closing brace. -/
def functionLiteral : Routine Value := do
  if !(← expect .leftParen) then return ← malformed
  let start := (← get).cursor.pos - 1
  let outcome ← call (.parameters false)
  if outcome.isError then return outcome
  if !(← expect .rightParen) then return ← malformed
  if !(← expect .leftBrace) then return ← malformed
  let outcome ← checkBody
  if outcome.isError then return outcome
  if (← token) ≠ .rightBrace then return ← malformed
  use
  if ← isDry then return .zero
  let text ← textAt start ((← get).cursor.pos - start)
  let string ← newString text
  return if string.isError then string else .ref .function string.offset

/-! ## Primary expressions -/

/-- The nesting is deeper than allowed. -/
def tooDeep (e : Engine) : Bool := 0 < e.maxDepth && e.maxDepth < e.depth

/-- A literal or a name. -/
def primary : Routine Value := do
  let _ ← token
  noteUse
  if tooDeep (← get) then return ← fail .stackOverflow
  use
  let c := (← get).cursor
  match c.token with
  | .bad => malformed
  | .number => return c.number
  | .string => stringLiteral
  | .leftBrace => objectLiteral
  | .keyword .functionKw => functionLiteral
  | .keyword .nullKw => return .null
  | .keyword .undefinedKw => return .undefined
  | .keyword .trueKw => return .ofBool true
  | .keyword .falseKw => return .ofBool false
  | .ident => return .span (UInt32.ofNat c.tokenStart) (UInt32.ofNat c.tokenLength)
  | _ => fail .badExpression

/-- A primary expression or an expression in parentheses. -/
def group : Routine Value := do
  if (← token) ≠ .leftParen then primary
  else
    use
    let v ← call .expression
    if v.isError then return v
    if (← token) ≠ .rightParen then fail .parenExpected
    else
      use
      return v

end ArenaScript.Routine
