import ArenaScript.Config

/-!
# Entries of configuration files

A configuration file is a list of keys with values.  The formats differ in how
a value is spelled, and in which values a field takes.

Main definitions:

- `Scalar`: the values.
- `Entry`: a key with its value.
- `Dialect`: what the fields of a configuration take in a format.
- `Dialect.putAll?`: the entries of a file put into a configuration.
-/

namespace ArenaScript

/-- A value of a configuration file. -/
inductive Scalar where
  /-- No value: the field keeps the one it has. -/
  | nothing
  | boolean (value : Bool)
  | integer (value : Int)
  /-- A number, as a bit pattern. -/
  | number (bits : UInt64)
  | text (value : String)
deriving DecidableEq, Repr

/-- A key with its value. -/
structure Entry where
  key : String
  value : Scalar
  /-- The text of the value, without quotes. -/
  spelling : String
deriving DecidableEq, Repr

/-- A key with a quoted text. -/
def Entry.ofText (key text : String) : Entry := ⟨key, .text text, text⟩

/-- The fields of a configuration. -/
inductive Field where
  | memorySize
  | ratio
  | maxDepth
  | traceLevel
deriving DecidableEq, Repr

namespace Field

/-- The key of a field. -/
def key : Field → String
  | memorySize => "memory_size"
  | ratio => "gc_ratio"
  | maxDepth => "max_depth"
  | traceLevel => "trace_level"

/-- All fields. -/
def all : List Field := [memorySize, ratio, maxDepth, traceLevel]

end Field

/-- What the fields of a configuration take in a format. -/
structure Dialect where
  /-- A key of a file is that of a field. -/
  names : String → Field → Bool
  /-- The whole number of an entry. -/
  integer? : Entry → Option Int
  /-- The number of an entry, as a bit pattern. -/
  number? : Entry → Option UInt64
  /-- The text of an entry. -/
  text? : Entry → Option String

namespace Dialect

/-- Puts the value of an entry into a field; none if the field does not take
it. -/
def assign? (d : Dialect) (entry : Entry) (c : Config) : Field → Option Config
  | .memorySize => (d.integer? entry).map fun n => { c with memorySize := n }
  | .ratio => (d.number? entry).map fun bits => { c with ratio := bits }
  | .maxDepth => (d.integer? entry).map fun n => { c with maxDepth := n }
  | .traceLevel => (d.text? entry).map fun s => { c with traceLevel := s }

/-- Puts an entry into a configuration.  Unknown keys are passed over. -/
def put? (d : Dialect) (c : Config) (entry : Entry) : Option Config :=
  if entry.value = .nothing then some c
  else
    match Field.all.find? (d.names entry.key) with
    | none => some c
    | some field => d.assign? entry c field

/-- Puts the entries of a file into a configuration; none if a key comes twice
or a field does not take its value. -/
def putAll? (d : Dialect) (entries : List Entry) (c : Config) : Option Config :=
  if (entries.map (·.key)).Nodup then entries.foldlM d.put? c else none

end Dialect

end ArenaScript
