import ArenaScript.Evaluate.Call

/-!
# Statements

Statements are read and executed one by one.  A break, a continue or a return
turns the rest of the body into a dry run.  The parts of a loop are read once
in a dry run to find where they start, then evaluated from there in every
round.

Main definitions:

- `Routine.statement`, `Routine.block`, `Routine.script`: sequences.
- `Routine.declaration`, `Routine.choice`, `Routine.loop`, `Routine.jump`,
  `Routine.returnStatement`: the statements with a keyword.
-/

namespace ArenaScript.Routine

open Engine

/-- The statement after this token is done without a further semicolon. -/
def endsStatement (t : Token) : Bool := t = .semicolon || t = .eof || t = .rightBrace

/-! ## Blocks -/

/-- Statements up to a closing brace, which is left to be seen. -/
def block (inScope : Bool) : Routine Next := do
  let scope ← if inScope then enterScope else pure Value.undefined
  if scope.isError then give scope
  else
    use
    let v ← call (.blockRest .undefined)
    if inScope then leaveScope
    give v

/-- The rest of a block.  Only a block or a choice may end without a
semicolon. -/
def blockRest (v : Value) : Routine Next := do
  let t ← token
  if t = .eof || t = .rightBrace || v.isError then give v
  else
    let v ← call .statement
    if !v.isError && t ≠ .leftBrace && t ≠ .keyword .ifKw
        && (← get).cursor.token ≠ .semicolon then
      give (← fail .semicolonExpected)
    else goOn (.blockRest v)

/-- A block in a scope of its own, or a single statement whose last token is to
be seen again. -/
def body : Routine Value := do
  if (← token) = .leftBrace then call (.block !(← isDry))
  else
    let v ← resolve (← call .statement)
    changeCursor Cursor.unuse
    return v

/-! ## Declarations -/

/-- Declares a name in the active scope. -/
def declare (name : ByteArray) (v : Value) : Action Value := do
  let scope := (← get).scope
  if (← findProperty scope name) ≠ 0 then fail (.alreadyDeclared name)
  else
    let v ← resolve v
    let key ← newString name
    if key.isError then return key
    newProperty (.ref .object scope) key v

/-- The value of a declared name, if it is given one. -/
def initializer : Routine Value := do
  if (← token) = .assign none then
    use
    call .expression
  else return .undefined

/-- The rest of a declaration. -/
def bindings (execute : Bool) : Routine Next := do
  if !(← expect .ident) then give (← malformed)
  else
    let c := (← get).cursor
    let v ← initializer
    if v.isError then give v
    else
      let declared ←
        if execute then do declare (← textAt c.tokenStart c.tokenLength) v
        else pure Value.undefined
      if declared.isError then give declared
      else
        let t ← token
        if t = .semicolon || t = .eof then give .undefined
        else if !(← expect .comma) then give (← malformed)
        else goOn (.bindings execute)

/-- A declaration. -/
def declaration : Routine Value := do
  let execute := !(← isDry)
  use
  call (.bindings execute)

/-! ## Choices -/

/-- The second branch of a choice. -/
def elseBranch (taken execute : Bool) (v : Value) : Routine Value := do
  use
  let _ ← token
  use
  if taken then goDry
  let other ← body
  if other.isError then return other
  if taken && execute && !(← get).mode.isSkipping then
    changeMode fun m => { m with dry := false }
  return if taken then v else other

/-- A choice.  The branch that is not taken is only read. -/
def choice : Routine Value := do
  use
  if !(← expect .leftParen) then return ← malformed
  let condition ← resolve (← call .expression)
  if condition.isError then return condition
  if !(← expect .rightParen) then return ← malformed
  let taken ← isTruthy condition
  let execute := !(← isDry)
  if !taken then goDry
  let v ← body
  if v.isError then return v
  if execute && !taken then changeMode fun m => { m with dry := false }
  let v := if taken then v else .undefined
  if (← lookahead) = .keyword .elseKw then elseBranch taken execute v else return v

/-! ## Loops -/

/-- An expression, unless a token stands in its place. -/
def optional (t : Token) : Routine Value := do
  if (← token) = t then return .undefined else call .expression

/-- The first part of a loop. -/
def loopStart : Routine Value := do
  match ← token with
  | .semicolon => return .undefined
  | .keyword .letKw => declaration
  | _ => call .expression

/-- Leaves a loop: the cursor goes behind the body, unless a return has put it
at the end of the text. -/
def leaveLoop (marks : LoopMarks) : Action Value := do
  if !(← get).mode.returned then changeCursor fun c => { c with pos := marks.after }
  return .undefined

/-- The condition of a loop holds; it is true if there is none. -/
def loopCondition : Routine (Value × Bool) := do
  if (← token) = .semicolon then return (.undefined, true)
  else
    let v ← resolve (← call .expression)
    if v.isError then return (v, false)
    return (v, ← isTruthy v)

/-- One round after the other. -/
def rounds (mode : Mode) (marks : LoopMarks) : Routine Next := do
  if mode.dry then give (← leaveLoop marks)
  else
    restoreMode mode
    changeCursor (·.seek marks.condition)
    let (v, holds) ← loopCondition
    if v.isError then give v
    else if !holds then give (← leaveLoop marks)
    else
      changeCursor (·.seek marks.body)
      changeMode fun m => { m with inLoop := true }
      let v ← body
      if v.isError then give v
      else
        let m := (← get).mode
        if m.broken || m.returned then give (← leaveLoop marks)
        else
          restoreMode mode
          changeCursor (·.seek marks.step)
          let v ← optional .rightParen
          if v.isError then give v else goOn (.rounds mode marks)

/-- The parts of a loop after the first one, read in a dry run. -/
def loopParts (mode : Mode) : Routine Value := do
  goDry
  let condition := (← get).cursor.pos
  let v ← optional .semicolon
  if v.isError then return v
  if !(← expect .semicolon) then return ← malformed
  let step := (← get).cursor.pos
  let v ← optional .rightParen
  if v.isError then return v
  if !(← expect .rightParen) then return ← malformed
  let start := (← get).cursor.pos
  let v ← body
  if v.isError then return v
  let after := (← get).cursor.pos
  call (.rounds mode { condition, step, body := start, after })

/-- A loop inside its scope. -/
def loopInScope (mode : Mode) : Routine Value := do
  if !(← expect (.keyword .forKw)) then return ← malformed
  if !(← expect .leftParen) then return ← malformed
  let v ← loopStart
  if v.isError then return v
  if !(← expect .semicolon) then return ← malformed
  loopParts mode

/-- A loop.  A return inside it outlives it, and a semicolon is seen after
it. -/
def loop : Routine Value := do
  let mode := (← get).mode
  let scope ← if mode.dry then pure Value.undefined else enterScope
  if scope.isError then return scope
  let v ← loopInScope mode
  if !mode.dry then leaveScope
  changeMode fun m => { mode with returned := mode.returned || m.returned }
  if !v.isError then changeCursor fun c => { c with token := .semicolon, consumed := false }
  return v

/-! ## Jumps -/

/-- A break or continue statement, which marks the mode. -/
def jump (mark : Mode → Mode) : Routine Value := do
  let mode := (← get).mode
  if !mode.dry && !mode.inLoop then fail .notInLoop
  else
    if !mode.dry then changeMode fun m => { mark m with dry := true }
    use
    return .undefined

/-- The value of a return statement. -/
def returnValue : Routine Value := do
  if endsStatement (← token) then return .undefined else resolve (← call .expression)

/-- A return statement.  Nothing more of the text is read. -/
def returnStatement : Routine Value := do
  let mode := (← get).mode
  use
  if !mode.dry && !mode.inCall then fail .notInFunction
  else
    let v ← returnValue
    if v.isError then return v
    if !mode.dry then
      modify fun e => { e with
        result := v
        cursor := { e.cursor with pos := e.cursor.length }
        mode := { e.mode with returned := true, dry := true } }
    return v

/-! ## Statements -/

/-- A statement without its end. -/
def openStatement : Routine Value := do
  match ← token with
  | .keyword .continueKw => jump fun m => { m with continued := true }
  | .keyword .breakKw => jump fun m => { m with broken := true }
  | .keyword .letKw => declaration
  | .keyword .ifKw => choice
  | .keyword .forKw => loop
  | .keyword .returnKw => returnStatement
  | .leftBrace => call (.block !(← isDry))
  | .keyword word =>
    if word.isReserved then fail (.notImplemented (← tokenText))
    else resolve (← call .expression)
  | _ => resolve (← call .expression)

/-- A statement and its end.  A collection may take place before it. -/
def statement : Routine Next := do
  collectIfDue
  let v ← openStatement
  if v.isError then give v
  else if !endsStatement (← token) then give (← fail .semicolonExpected)
  else
    use
    give v

/-- The statements of the current text up to its end or the first error. -/
def script (v : Value) : Routine Next := do
  if (← token) = .eof || v.isError then give v else goOn (.script (← call .statement))

/-- The evaluation of a text.  The evaluation it interrupts goes on
afterwards. -/
def evaluate (text : ByteArray) : Routine Next := do
  let mode := (← get).mode
  suspend
  modify fun e => { e with
    cursor := .ofText text
    mode := {}
    evaluations := e.evaluations + 1 }
  let v ← call (.script .undefined)
  modify fun e => { e with evaluations := e.evaluations - 1 }
  resume
  restoreMode mode
  give v

end ArenaScript.Routine
