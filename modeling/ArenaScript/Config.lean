import ArenaScript.Engine.Basic
import ArenaScript.Number.Text
import ArenaScript.Text.Quoted

/-!
# Configurations

The settings that make an engine, and when they do.

Main definitions:

- `Config`: the settings, with their defaults.
- `Config.check`: the first fault of a configuration.
- `Config.engine`: the engine of a configuration.
- `ConfigError`: every way a configuration can fail, with its message.
-/

namespace ArenaScript

/-- The settings of an engine. -/
structure Config where
  /-- The bytes of the arena. -/
  memorySize : Int := 65536
  /-- The part of the arena above which statements collect, as a bit pattern. -/
  ratio : UInt64 := 0x3fe8000000000000
  /-- The limit of nesting; none for 0. -/
  maxDepth : Int := 10000
  /-- How much is traced. -/
  traceLevel : String := "Error"
deriving DecidableEq, Repr

/-- Why there is no configuration, or no engine for it. -/
inductive ConfigError where
  /-- There is no file of that name. -/
  | unreadable (path : String)
  /-- The extension is not that of a known format. -/
  | unknownFormat (extension : String)
  /-- The file does not follow its format, or has a value of a wrong type. -/
  | malformed (path : String)
  /-- The arena cannot hold the global scope. -/
  | memoryTooSmall (size : Int)
  /-- The ratio is not above 0 and at most 1. -/
  | badRatio (bits : UInt64)
  /-- The limit of nesting is negative. -/
  | negativeDepth
  /-- The part of the arena that can be addressed cannot hold the global
  scope. -/
  | bufferTooSmall
deriving DecidableEq, Repr

namespace ConfigError

/-- The text of an error. -/
def message : ConfigError → ByteArray
  | unreadable path =>
    Bytes.ofString ("cannot read " ++ path ++ ": open " ++ path ++ ": no such file or directory")
  | unknownFormat extension =>
    Bytes.ofString "unknown config format " ++ Text.quoted (Bytes.ofString extension)
  | malformed path => Bytes.ofString ("parse error in " ++ path)
  | memoryTooSmall size =>
    Bytes.concat [Bytes.ofString "memory_size ", Bytes.ofInt size,
      Bytes.ofString ": buffer too small"]
  | badRatio bits =>
    Bytes.ofString ("gc_ratio " ++ Number.settingText bits ++ " must be in (0, 1]")
  | negativeDepth => Bytes.ofString "max_depth must not be negative"
  | bufferTooSmall => Bytes.ofString "buffer too small"

/-- The error says that the arena is too small. -/
def isTooSmall : ConfigError → Bool
  | memoryTooSmall _ => true
  | bufferTooSmall => true
  | _ => false

end ConfigError

namespace Config

/-- A ratio is refused at or below 0 and above 1.  A not-a-number is neither. -/
def refusesRatio (bits : UInt64) : Bool :=
  Float.ofBits bits ≤ 0 || 1 < Float.ofBits bits

/-- The first fault of a configuration, if it has one. -/
def check (c : Config) : Except ConfigError Unit :=
  if c.memorySize < Engine.leastCapacity.toNat then .error (.memoryTooSmall c.memorySize)
  else if refusesRatio c.ratio then .error (.badRatio c.ratio)
  else if c.maxDepth < 0 then .error .negativeDepth
  else .ok ()

/-- The choices that a configuration makes for a new engine. -/
def settings (c : Config) : List Setting := [.collectRatio c.ratio, .maxDepth c.maxDepth]

/-- The engine of a configuration; further choices come after its own. -/
def engine (c : Config) (further : List Setting) : Except ConfigError Engine := do
  c.check
  match Engine.create? c.memorySize.toNat (c.settings ++ further) with
  | some e => return e
  | none => throw .bufferTooSmall

end Config

end ArenaScript
