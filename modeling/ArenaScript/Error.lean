import ArenaScript.Text.Bytes
import ArenaScript.Value

/-!
# Errors of scripts

A script fails with a value.  The value carries the kind of the error and a
running number; the message is kept aside, for the last 32 errors.

Main definitions:

- `ErrorKind`: the kinds, with code and name.
- `Failure`: every way a script can fail, with its kind and its message.
- `ErrorLog`: the recent messages.
-/

namespace ArenaScript

/-! ## Kinds -/

/-- The kinds of errors. -/
inductive ErrorKind where
  | native
  | parse
  | notFound
  | redeclared
  | typeMismatch
  | divisionByZero
  | badTarget
  | call
  | notInLoop
  | notInFunction
  | unsupported
  | outOfMemory
  | stackOverflow
deriving DecidableEq, Repr

namespace ErrorKind

/-- The code of a kind. -/
def code (kind : ErrorKind) : UInt64 := UInt64.ofNat kind.ctorIdx

/-- The kind with a given code; all unknown codes are errors of natives. -/
def ofCode (code : UInt64) : ErrorKind :=
  match code.toNat with
  | 1 => parse
  | 2 => notFound
  | 3 => redeclared
  | 4 => typeMismatch
  | 5 => divisionByZero
  | 6 => badTarget
  | 7 => call
  | 8 => notInLoop
  | 9 => notInFunction
  | 10 => unsupported
  | 11 => outOfMemory
  | 12 => stackOverflow
  | _ => native

@[simp]
theorem ofCode_code (kind : ErrorKind) : ofCode kind.code = kind := by
  cases kind <;> rfl

/-- The name of a kind. -/
def name : ErrorKind → String
  | native => "native function error"
  | parse => "parse error"
  | notFound => "undeclared identifier"
  | redeclared => "redeclaration"
  | typeMismatch => "type mismatch"
  | divisionByZero => "division by zero"
  | badTarget => "bad assignment target"
  | call => "call error"
  | notInLoop => "not in loop"
  | notInFunction => "not in function"
  | unsupported => "unsupported construct"
  | outOfMemory => "out of memory"
  | stackOverflow => "stack overflow"

end ErrorKind

/-! ## Failures -/

/-- The ways a script can fail. -/
inductive Failure where
  /-- The text does not fit the grammar. -/
  | malformed
  /-- No expression starts here. -/
  | badExpression
  /-- A statement does not end here. -/
  | semicolonExpected
  /-- A group does not end here. -/
  | parenExpected
  /-- A string literal has an unknown escape. -/
  | badLiteral
  /-- No name follows a dot. -/
  | nameExpected
  /-- A statement starts with a word that is set aside. -/
  | notImplemented (word : ByteArray)
  /-- A name is not declared. -/
  | notFound (name : ByteArray)
  /-- A name is declared twice in one scope. -/
  | alreadyDeclared (name : ByteArray)
  /-- An operator does not apply to the kinds of its operands. -/
  | typeMismatch
  /-- An operator does not apply to strings. -/
  | badStringOperator
  /-- A property is asked of something that is not an object. -/
  | lookupInNonObject
  /-- The divisor is zero. -/
  | divisionByZero
  /-- The left side of an assignment is not a property. -/
  | badTarget
  /-- A call has no arguments to look at, or an unknown native. -/
  | badCall
  /-- The called value is not a function. -/
  | notAFunction
  /-- The arguments of a native call do not fit. -/
  | argumentsTooLarge
  /-- A loop statement outside a loop. -/
  | notInLoop
  /-- A return statement outside a function. -/
  | notInFunction
  /-- A new entity does not fit. -/
  | outOfMemory
  /-- The nesting is deeper than allowed. -/
  | stackOverflow
  /-- A native function failed. -/
  | native (message : ByteArray)

namespace Failure

/-- The kind of a failure. -/
def kind : Failure → ErrorKind
  | malformed | badExpression | semicolonExpected | parenExpected | badLiteral | nameExpected =>
    .parse
  | notImplemented _ => .unsupported
  | notFound _ => .notFound
  | alreadyDeclared _ => .redeclared
  | typeMismatch | badStringOperator | lookupInNonObject => .typeMismatch
  | divisionByZero => .divisionByZero
  | badTarget => .badTarget
  | badCall | notAFunction => .call
  | argumentsTooLarge | outOfMemory => .outOfMemory
  | notInLoop => .notInLoop
  | notInFunction => .notInFunction
  | stackOverflow => .stackOverflow
  | native _ => .native

/-- A name between single quotes. -/
def quoted (name : ByteArray) : ByteArray :=
  Bytes.ofString "'" ++ name ++ Bytes.ofString "'"

/-- The wording of a failure. -/
def wording : Failure → ByteArray
  | malformed => Bytes.ofString "parse error"
  | badExpression => Bytes.ofString "bad expr"
  | semicolonExpected => Bytes.ofString "; expected"
  | parenExpected => Bytes.ofString ") expected"
  | badLiteral => Bytes.ofString "bad str literal"
  | nameExpected => Bytes.ofString "ident expected"
  | notImplemented word => quoted word ++ Bytes.ofString " not implemented"
  | notFound name => quoted name ++ Bytes.ofString " not found"
  | alreadyDeclared name => quoted name ++ Bytes.ofString " already declared"
  | typeMismatch => Bytes.ofString "type mismatch"
  | badStringOperator => Bytes.ofString "bad str op"
  | lookupInNonObject => Bytes.ofString "lookup in non-obj"
  | divisionByZero => Bytes.ofString "div by zero"
  | badTarget => Bytes.ofString "bad lhs"
  | badCall => Bytes.ofString "bad call"
  | notAFunction => Bytes.ofString "calling non-function"
  | argumentsTooLarge => Bytes.ofString "call oom"
  | notInLoop => Bytes.ofString "not in loop"
  | notInFunction => Bytes.ofString "not in func"
  | outOfMemory => Bytes.ofString "oom"
  | stackOverflow => Bytes.ofString "stack overflow"
  | native message => message

/-- Every message starts with the same word. -/
def announce (wording : ByteArray) : ByteArray := Bytes.ofString "ERROR: " ++ wording

/-- The message of a failure. -/
def message (f : Failure) : ByteArray := announce f.wording

end Failure

/-! ## The log -/

/-- The number of messages that are kept. -/
def ErrorLog.capacity : Nat := 32

/-- The messages of the most recent errors.  The message of error number `n`
is in slot `n` modulo the capacity. -/
structure ErrorLog where
  /-- The number of errors so far. -/
  count : UInt32
  /-- The slots. -/
  slots : Array ByteArray

namespace ErrorLog

/-- A log without errors. -/
def empty : ErrorLog := ⟨0, Array.replicate capacity ByteArray.empty⟩

/-- The slot of an error number. -/
def slot (number : UInt32) : Nat := number.toNat % capacity

/-- Records a failure. -/
def record (log : ErrorLog) (f : Failure) : ErrorLog :=
  let number := log.count + 1
  ⟨number, log.slots.setIfInBounds (slot number) f.message⟩

/-- The value of the error recorded last. -/
def lastValue (log : ErrorLog) (kind : ErrorKind) : Value :=
  Value.box .error (kind.code ||| (log.count.toUInt64 <<< 8))

/-- The kind of an error value. -/
def kind (v : Value) : ErrorKind := ErrorKind.ofCode (v.payload &&& 0xff)

/-- The running number of an error value. -/
def number (v : Value) : UInt32 := (v.payload >>> 8).toUInt32

/-- The message of an error value: the one it was made with while that is
kept, and the name of its kind afterwards. -/
def message (log : ErrorLog) (v : Value) : ByteArray :=
  if number v ≠ 0 ∧ (log.count - number v).toNat < capacity then
    log.slots.getD (slot (number v)) ByteArray.empty
  else Failure.announce (Bytes.ofString (kind v).name)

end ErrorLog

end ArenaScript
