import ArenaScript.Evaluate.Expression

/-!
# Accesses and calls

The arguments of a call are first passed over in a dry run and kept as a span
of text.  They are evaluated by the callee: those of a function one by one as
its parameters are bound, those of a native onto the scratch stack.

Main definitions:

- `Routine.access`: chains of properties and calls.
- `Routine.callFunction`, `Routine.bindParameters`: calls of functions.
- `Routine.callNative`, `Routine.pushArguments`: calls of natives.
- `Routine.ofProgram`: answers the requests of a host program.
-/

namespace ArenaScript.Routine

open Engine

/-! ## Argument lists -/

/-- The rest of an argument list, up to its closing parenthesis.  What the
arguments would give is of no interest. -/
def argumentList (afterComma : Bool) : Routine Next := do
  let t ← token
  if t = .eof then give .undefined
  else if !afterComma && t = .rightParen then give .undefined
  else
    let _ ← call .expression
    if (← token) = .rightParen then give .undefined
    else if !(← expect .comma) then give (← malformed)
    else goOn (.argumentList true)

/-- Passes over an argument list; the value is the span between its
parentheses. -/
def argumentSpan : Routine Value := do
  let start := (← get).cursor.pos
  let mode := (← get).mode
  goDry
  use
  let outcome ← call (.argumentList false)
  restoreMode mode
  if outcome.isError then return outcome
  if !(← expect .rightParen) then return ← malformed
  let c := (← get).cursor
  return .span (UInt32.ofNat start) (UInt32.ofNat (c.pos - start - c.tokenLength))

/-! ## Host programs -/

/-- Answers the requests of a host program.  Its arguments lie on the scratch
stack from an offset on. -/
def ofProgram (offset : UInt32) (count : Nat) : HostProgram → Routine Value
  | .done value => return value
  | .argument index next => do
    ofProgram offset count (next (← Engine.argument offset count index))
  | .makeString text next => do ofProgram offset count (next (← newString text))
  | .makeObject next => do ofProgram offset count (next (← newObject 0))
  | .makeError message next => do ofProgram offset count (next (← fail (.native message)))
  | .register native next => do ofProgram offset count (next (← registerNative ⟨native⟩))
  | .set object key value next => do
    ofProgram offset count (next (← setProperty object key value))
  | .get object key next => do ofProgram offset count (next (← getProperty object key))
  | .properties object next => do ofProgram offset count (next (← listProperties object))
  | .stringBytes value next => do ofProgram offset count (next (← stringBytes? value))
  | .render value next => do ofProgram offset count (next (← Engine.render value))
  | .isTruthy value next => do ofProgram offset count (next (← Engine.isTruthy value))
  | .collect next => do ofProgram offset count (next (← collect))
  | .stats next => do ofProgram offset count (next (← stats))
  | .dump next => do ofProgram offset count (next (← dump))
  | .setThreshold size next => do
    modify fun e => { e with threshold := size }
    ofProgram offset count next
  | .setMaxDepth depth next => do
    modify fun e => { e with maxDepth := depth }
    ofProgram offset count next
  | .evaluate text next => do ofProgram offset count (next (← call (.evaluate text)))
  | .write text next => do
    writeOutput text
    ofProgram offset count next

/-! ## Calls of natives -/

/-- Drops the arguments pushed so far. -/
def dropArguments (count : UInt32) : Action Unit :=
  modify fun e => { e with arena := e.arena.pop count }

/-- Places an argument on the scratch stack, if it fits. -/
def pushArgument (v : Value) : Action Bool := fun e =>
  if e.arena.hasRoom then (do changeArena (·.push v); return true : Action Bool) e
  else .ok (false, e)

/-- Runs a native on the arguments on the scratch stack, then drops them. -/
def runNative (index : Nat) (count : UInt32) : Routine Value := do
  changeArena (·.reverse count)
  match (← get).natives[index]? with
  | none => fault
  | some native =>
    let n := count.toNat
    let v ← ofProgram (← get).arena.limit n (native.program n)
    noteUse
    dropArguments count
    return v

/-- Evaluates the arguments of a native from the current position on, then runs
it. -/
def pushArguments (index : Nat) (count : UInt32) : Routine Next := do
  let c := (← get).cursor
  if c.length ≤ c.pos then give (← runNative index count)
  else if (← token) = .rightParen then give (← runNative index count)
  else
    let v ← resolve (← call .expression)
    if v.isError then
      dropArguments count
      give v
    else if !(← pushArgument v) then
      dropArguments count
      give (← fail .argumentsTooLarge)
    else
      if (← token) = .comma then use
      goOn (.pushArguments index (count + 1))

/-- Calls a native. -/
def callNative (native : Value) : Routine Value := do
  let index := native.payload.toNat
  if (← get).natives.size ≤ index then fail .badCall
  else call (.pushArguments index 0)

/-! ## Calls of functions -/

/-- The text of the function that is being called, which is held before the
scope and the result of the caller and the scope of the callee. -/
def calleeText : Action Source := do
  let function ← held 3
  let length ← readArena (·.stringLength function.offset)
  let e ← get
  let start := (function.offset + 4).toNat
  if start + length.toNat ≤ e.arena.bytes.size then
    return ⟨e.arena.bytes, start, length.toNat⟩
  else fault

/-- Passes over blanks at the current position of the arguments. -/
def skipArgumentBlanks : Action Unit := do
  let s ← source
  changeCursor fun c => { c with pos := s.skipBlanks c.pos }

/-- Evaluates the next argument in the scope of the caller; undefined if there
is none. -/
def nextArgument : Routine Value := do
  skipArgumentBlanks
  changeCursor Cursor.use
  let c := (← get).cursor
  if c.length ≤ c.pos then return .undefined
  let caller ← held 2
  modify fun e => { e with scope := caller.offset }
  let v ← resolve (← call .expression)
  let callee ← held 0
  modify fun e => { e with scope := callee.offset }
  return v

/-- Passes over the comma after an argument. -/
def skipArgumentComma : Action Unit := do
  skipArgumentBlanks
  let s ← source
  changeCursor fun c => if s.holds c.pos ',' then { c with pos := c.pos + 1 } else c

/-- Runs the body of a function, which starts at a position of its text. -/
def runBody (start pos length : Nat) : Routine Next := do
  if length ≤ pos then fault
  else
    modify fun e => { e with
      cursor := Cursor.start (.arena (start + pos)) (length - pos - 1)
      mode := { inCall := true }
      result := .undefined }
    let v ← call (.script .undefined)
    if v.isError then give v
    else
      let e ← get
      give (if e.mode.returned then e.result else .undefined)

/-- Passes over the end of a parameter list and runs the body. -/
def enterBody (pos length : Nat) : Routine Next := do
  let s ← calleeText
  let pos := if s.holds pos ')' then pos + 1 else pos
  let pos := s.skipBlanks pos
  let pos := if s.holds pos '\x7b' then pos + 1 else pos
  runBody s.start pos length

/-- Binds the parameters of the called function from a position of its text on
to the values of the arguments, then runs its body.  The text is looked up
again after each argument, since that may have moved it. -/
def bindParameters (pos length : Nat) : Routine Next := do
  if length ≤ pos then enterBody pos length
  else
    let s ← calleeText
    let pos := s.skipBlanks pos
    let (kind, stop) := s.scanName pos
    if s.holds pos ')' || kind ≠ .ident then enterBody pos length
    else
      let v ← nextArgument
      if v.isError then give v
      else
        let key ← newString ((← calleeText).slice pos (stop - pos))
        if key.isError then give key
        else
          let bound ← newProperty (← held 0) key v
          if bound.isError then give bound
          else
            skipArgumentComma
            let s ← calleeText
            let pos := s.skipBlanks stop
            goOn (.bindParameters (if s.holds pos ',' then pos + 1 else pos) length)

/-- Calls a function in a new scope.  The scope and the result of the caller
come back at the end. -/
def callFunction (function : Value) : Routine Value := do
  let e ← get
  hold function
  hold (.ref .object e.scope)
  hold e.result
  let scope ← enterScope
  let v ←
    if scope.isError then pure scope
    else do
      hold scope
      let length ← readArena (·.stringLength function.offset)
      let v ← call (.bindParameters 1 length.toNat)
      let _ ← unhold
      pure v
  let result ← unhold
  let caller ← unhold
  let _ ← unhold
  modify fun e => { e with scope := caller.offset, result := result }
  return v

/-! ## Calls -/

/-- The pinned entity as a value that can be held. -/
def pinnedValue (e : Engine) : Value :=
  if e.pinned = 0 then .undefined else .ref .string e.pinned

/-- Calls a plain value with the arguments of a span.  The cursor, the mode and
the pinned entity of the caller come back at the end. -/
def callValue (function arguments : Value) : Routine Value := do
  if arguments.kind ≠ .span then return ← fail .badCall
  if function.kind ≠ .function ∧ function.kind ≠ .native then return ← fail .notAFunction
  let mode := (← get).mode
  suspend
  hold (pinnedValue (← get))
  changeCursor (·.part arguments.spanStart.toNat arguments.spanLength.toNat)
  skipArgumentBlanks
  modify fun e => { e with depth := e.depth + 1 }
  let v ←
    if function.kind = .function then do
      modify fun e => { e with pinned := function.offset }
      callFunction function
    else callNative function
  modify fun e => { e with depth := e.depth - 1 }
  let pinned ← unhold
  modify fun e => { e with pinned := if pinned.kind = .string then pinned.offset else 0 }
  resume
  restoreMode mode
  changeCursor fun c => if v.isError then c.finish else c.use
  return v

/-- The call operator. -/
def applyCall (function arguments : Value) : Routine Value := do
  if function.isError then return function
  if arguments.isError then return arguments
  if ← isDry then return .zero
  let f ← resolve function
  let a ← resolve arguments
  noteUse
  if f.isError then return f
  if a.isError then return a
  callValue f a

/-! ## Chains -/

/-- A value followed by accesses and calls.  A name is looked up here. -/
def access : Routine Next := do
  let v ← group
  if v.isError then give v
  else if v.kind = .span then goOn (.accessRest (← lookup (← spanText v)))
  else goOn (.accessRest v)

/-- The rest of a chain of accesses and calls. -/
def accessRest (v : Value) : Routine Next := do
  match ← token with
  | .dot =>
    use
    hold v
    let name ← group
    let v ← unhold
    goOn (.accessRest (← applyDot v name))
  | .leftParen =>
    let arguments ← argumentSpan
    if arguments.isError then give arguments
    else goOn (.accessRest (← applyCall v arguments))
  | _ => give v

end ArenaScript.Routine
