import ArenaScript.Config.File

/-!
# Options of the command line

Options come first, as `-name value` or `-name=value` with one or two dashes.
A lone dash or a word without a dash ends them and is kept; two dashes end them
and are dropped.

Main definitions:

- `Options`: the values of all options.
- `Options.parse`: the options of a command line and the words after them.
- `Options.config`: the configuration that options ask for.
-/

namespace ArenaScript

/-- The values of all options. -/
structure Options where
  /-- A configuration file; none if empty. -/
  configFile : String := ""
  /-- The bytes of the arena; taken from the configuration unless positive. -/
  memory : Int := 0
  /-- The part of the arena above which statements collect, as a bit pattern;
  taken from the configuration unless positive. -/
  ratio : UInt64 := 0
  /-- The limit of nesting; taken from the configuration if negative. -/
  maxDepth : Int := -1
  /-- How much is traced; taken from the configuration if empty. -/
  trace : String := ""
  /-- A text to evaluate; none if empty. -/
  expression : String := ""
deriving DecidableEq, Repr

/-- Why a command line has no options. -/
inductive OptionError where
  /-- A word has too many dashes or no name. -/
  | badForm (word : String)
  /-- There is no option of that name. -/
  | unknown (name : String)
  /-- The value is missing. -/
  | missingValue (name : String)
  /-- The value is not a number of the right kind. -/
  | invalidValue (name value : String) (cause : Numeral.Error)
  /-- Help was asked for. -/
  | helpRequested
deriving DecidableEq, Repr

namespace OptionError

/-- The text of an error. -/
def message : OptionError → ByteArray
  | badForm word => Bytes.ofString ("bad flag syntax: " ++ word)
  | unknown name => Bytes.ofString ("flag provided but not defined: -" ++ name)
  | missingValue name => Bytes.ofString ("flag needs an argument: -" ++ name)
  | invalidValue name value cause =>
    Bytes.concat [Bytes.ofString "invalid value ", Text.quoted (Bytes.ofString value),
      Bytes.ofString (" for flag -" ++ name ++ ": "),
      Bytes.ofString (match cause with
        | .malformed => "parse error"
        | .outOfRange => "value out of range")]
  | helpRequested => Bytes.ofString "flag: help requested"

end OptionError

namespace Options

/-! ## Single options -/

/-- The names of the options. -/
def names : List String := ["config", "mem", "gct", "maxdepth", "trace", "e"]

/-- Sets an option of a known name. -/
def assign (o : Options) (name value : String) : Except OptionError Options :=
  let invalid (cause : Numeral.Error) : OptionError := .invalidValue name value cause
  match name with
  | "config" => .ok { o with configFile := value }
  | "mem" => (Numeral.signed value.toList).mapError invalid |>.map fun n => { o with memory := n }
  | "gct" =>
    (Numeral.float value.toList).mapError invalid |>.map fun bits => { o with ratio := bits }
  | "maxdepth" =>
    (Numeral.signed value.toList).mapError invalid |>.map fun n => { o with maxDepth := n }
  | "trace" => .ok { o with trace := value }
  | "e" => .ok { o with expression := value }
  | _ => .error (.unknown name)

/-- How a word of the command line is understood. -/
inductive Word where
  /-- The word is not an option. -/
  | plain
  /-- The word ends the options. -/
  | finish
  /-- The word has too many dashes or no name. -/
  | bad
  /-- An option, perhaps with its value. -/
  | named (name : String) (value : Option String)
deriving DecidableEq, Repr

/-- Splits a name from a value at the first equals sign after the first
character. -/
def splitValue (text : List Char) : Word :=
  let name := text.take 1 ++ (text.drop 1).takeWhile (· ≠ '=')
  match (text.drop 1).dropWhile (· ≠ '=') with
  | [] => .named (String.ofList name) none
  | _ :: value => .named (String.ofList name) (some (String.ofList value))

/-- An option after its dashes. -/
def named (text : List Char) : Word :=
  match text with
  | [] => .bad
  | c :: _ => if c = '-' || c = '=' then .bad else splitValue text

/-- How a word is understood. -/
def classify (word : String) : Word :=
  match word.toList with
  | ['-', '-'] => .finish
  | '-' :: '-' :: rest => named rest
  | '-' :: c :: rest => named (c :: rest)
  | _ => .plain

/-! ## Command lines -/

/-- Reads the options at the start of a list of words. -/
def parseFrom (o : Options) : List String → Except OptionError (Options × List String)
  | [] => .ok (o, [])
  | word :: rest =>
    match classify word with
    | .plain => .ok (o, word :: rest)
    | .finish => .ok (o, rest)
    | .bad => .error (.badForm word)
    | .named name value =>
      if name ∉ names then
        .error (if name = "help" ∨ name = "h" then .helpRequested else .unknown name)
      else
        match value, rest with
        | some value, rest =>
          match o.assign name value with
          | .ok o => parseFrom o rest
          | .error e => .error e
        | none, value :: rest =>
          match o.assign name value with
          | .ok o => parseFrom o rest
          | .error e => .error e
        | none, [] => .error (.missingValue name)

/-- The options of a command line and the words after them. -/
def parse (words : List String) : Except OptionError (Options × List String) :=
  parseFrom {} words

/-! ## Configurations -/

/-- A configuration with the options that are set put in. -/
def override (o : Options) (c : Config) : Config where
  memorySize := if 0 < o.memory then o.memory else c.memorySize
  ratio := if 0 < Float.ofBits o.ratio then o.ratio else c.ratio
  maxDepth := if 0 ≤ o.maxDepth then o.maxDepth else c.maxDepth
  traceLevel := if o.trace ≠ "" then o.trace else c.traceLevel

/-- The configuration that options ask for.  The configuration file is checked
on its own first. -/
def config (o : Options) (files : Files) : Except ConfigError Config := do
  let base ← if o.configFile = "" then pure {} else Config.ofFile files o.configFile
  let c := o.override base
  c.check
  return c

end Options

end ArenaScript
