import ArenaScript.Evaluate.Machine
import ArenaScript.Shell.Dialogue
import ArenaScript.Shell.Options

/-!
# The shell

The shell evaluates an expression, some files or its input on one engine, and
prints what comes out of it.

Main definitions:

- `Shell.start`: an engine with the native functions of the shell.
- `Shell.printExpression`, `Shell.runFiles`, `Shell.runInput`: the three ways to run.
- `Shell.run`: a whole command line.
-/

namespace ArenaScript

/-- Why a run of the shell fails. -/
inductive ShellError where
  /-- There is no engine for the configuration. -/
  | config (cause : ConfigError)
  /-- The native functions do not fit. -/
  | natives (cause : SetError)
  /-- There is no file of that name. -/
  | unreadable (name : String)
  /-- A script failed. -/
  | script (name : String) (kind : ErrorKind) (message : ByteArray)

/-- The text of an error. -/
def ShellError.message : ShellError → ByteArray
  | config cause => cause.message
  | natives cause => Bytes.ofString "cannot install natives: " ++ cause.message
  | unreadable name => (ConfigError.unreadable name).message
  | script name _ message => Bytes.ofString (name ++ ": ") ++ message

namespace Shell

/-- An engine with the native functions of the shell. -/
def start (c : Config) (further : List Setting) : Except Halt (Except ShellError Engine) :=
  match c.engine further with
  | .error cause => .ok (.error (.config cause))
  | .ok e => do
    match ← install e with
    | (some cause, _) => return .error (.natives cause)
    | (none, e) => return .ok e

/-! ## Ways to run -/

/-- The result of an action of the shell. -/
abbrev Run (α : Type) := ExceptT ShellError Action α

/-- Evaluates a text; a script that fails does so under its name. -/
def evaluate (steps : Nat) (name : String) (text : ByteArray) : Run Value := do
  let v ← Engine.evaluate steps text
  if v.isError then
    let message := (← get).log.message v
    throw (.script name (ErrorLog.kind v) message)
  return v

/-- Prints the text of a value on a line of its own. -/
def printValue (v : Value) : Run Unit := do
  let text ← Engine.render v
  Engine.writeOutput (text ++ Bytes.ofString "\n")

/-- Evaluates an expression and prints its value. -/
def printExpression (steps : Nat) (text : ByteArray) : Run Unit := do
  printValue (← evaluate steps "-e" text)

/-- Evaluates files in order, up to the first that fails. -/
def runFiles (steps : Nat) (files : Files) : List String → Run Unit
  | [] => return ()
  | name :: rest => do
    match files name with
    | none => throw (.unreadable name)
    | some text =>
      let _ ← evaluate steps name text
      runFiles steps files rest

/-- Evaluates the input and prints its value unless it is undefined. -/
def runInput (steps : Nat) (name : String) (text : ByteArray) : Run Unit := do
  let v ← evaluate steps name text
  if v ≠ .undefined then printValue v

/-! ## Command lines -/

/-- What a run of the program gives. -/
structure Outcome where
  exitCode : UInt32
  output : ByteArray

/-- The lines of a text, without empty ones at its end. -/
def messageLines (text : ByteArray) : List ByteArray :=
  let bytes := (text.toList.reverse.dropWhile (· = '\n'.toUInt8)).reverse
  (bytes.splitOn '\n'.toUInt8).map List.toByteArray

/-- An error as it is printed: further lines are indented as far as the first. -/
def errorText (e : ShellError) : ByteArray :=
  Bytes.ofString "   Error  "
    ++ Bytes.joinWith (Bytes.ofString "\n          ") (messageLines e.message)
    ++ Bytes.ofString "\n"

/-- The way to run that options and words ask for. -/
def session (steps : Nat) (files : Files) (o : Options) (names : List String)
    (input : ByteArray) : Run Unit :=
  if o.expression ≠ "" then printExpression steps (Bytes.ofString o.expression)
  else if !names.isEmpty then runFiles steps files names
  else runInput steps "<stdin>" input

/-- A run that ends before an engine is made. -/
def refused (e : ShellError) : Outcome := ⟨2, errorText e⟩

/-- Runs a command line on some files and an input. -/
def run (steps : Nat) (files : Files) (words : List String) (input : ByteArray) :
    Except Halt Outcome :=
  match Options.parse words with
  | .error .helpRequested => .ok ⟨0, ByteArray.empty⟩
  | .error _ => .ok ⟨2, ByteArray.empty⟩
  | .ok (o, names) =>
    match o.config files with
    | .error cause => .ok (refused (.config cause))
    | .ok c => do
      match ← start c [] with
      | .error e => return refused e
      | .ok engine =>
        match ← session steps files o names input engine with
        | (.ok (), e) => return ⟨0, e.output⟩
        | (.error cause, e) => return ⟨1, e.output ++ errorText cause⟩

end Shell

end ArenaScript
