import ArenaScript.Config.Toml
import ArenaScript.Config.Yaml

/-!
# Configuration files

The extension of a file tells its format.  Fields that a file does not set
keep their defaults.

Main definitions:

- `Config.ofFile`: the configuration of a file.
-/

namespace ArenaScript

/-- The formats of configuration files. -/
inductive Format where
  | yaml
  | toml
deriving DecidableEq, Repr

/-- The files that can be read: the contents of each name. -/
abbrev Files := String → Option ByteArray

namespace Format

/-- The extension of a path: from the last dot of its last part on. -/
def extension (path : String) : String :=
  let name := path.toList.reverse.takeWhile (· ≠ '/')
  if name.contains '.' then String.ofList ('.' :: (name.takeWhile (· ≠ '.')).reverse) else ""

/-- The format of an extension, in any case of letters. -/
def ofExtension? (extension : String) : Option Format :=
  match String.ofList (extension.toList.map Char.toLower) with
  | ".yaml" => some yaml
  | ".yml" => some yaml
  | ".toml" => some toml
  | _ => none

/-- The configuration of a text in a format. -/
def config? (format : Format) (text : ByteArray) : Option Config := do
  let text ← String.fromUTF8? text
  match format with
  | yaml => Yaml.dialect.putAll? (← Yaml.entries? text) {}
  | toml => Toml.dialect.putAll? (← Toml.entries? text) {}

end Format

/-- The configuration of a file.  The file is read before its format is looked
at, and the configuration is checked. -/
def Config.ofFile (files : Files) (path : String) : Except ConfigError Config := do
  match files path with
  | none => throw (.unreadable path)
  | some text =>
    match Format.ofExtension? (Format.extension path) with
    | none => throw (.unknownFormat (Format.extension path))
    | some format =>
      match format.config? text with
      | none => throw (.malformed path)
      | some c =>
        c.check
        return c

end ArenaScript
