import ArenaScript.Error

/-!
# Events

What an engine reports to a host that asked for a trace.
-/

namespace ArenaScript

/-- A step worth reporting. -/
inductive Event where
  /-- A scope was entered. -/
  | scopeEntered (scope : UInt32)
  /-- A scope was left. -/
  | scopeLeft (scope : UInt32)
  /-- A collection took the entities from one size to another. -/
  | collected (before after : UInt32)
  /-- A collection was put off until a statement ends. -/
  | collectionDeferred
  /-- A native function was registered under a number. -/
  | nativeRegistered (index : Nat)
  /-- A script failed. -/
  | failed (kind : ErrorKind) (message : ByteArray)

namespace Event

/-- A key with its value, as it stands in front of a message. -/
def label (key : String) (value : ByteArray) : ByteArray :=
  Bytes.concat [Bytes.ofString "[", Bytes.ofString key, Bytes.ofString "=", value,
    Bytes.ofString "] "]

/-- The text of an event. -/
def text : Event → ByteArray
  | scopeEntered scope =>
    label "scope" (Bytes.ofNat scope.toNat) ++ Bytes.ofString "pushing new scope"
  | scopeLeft scope =>
    Bytes.concat [Bytes.ofString "popping scope [", Bytes.ofNat scope.toNat, Bytes.ofString "]"]
  | collected before after =>
    Bytes.concat [label "freed" (Bytes.ofNat (before - after).toNat), Bytes.ofString "gc: ",
      Bytes.ofNat before.toNat, Bytes.ofString " -> ", Bytes.ofNat after.toNat,
      Bytes.ofString " bytes"]
  | collectionDeferred => Bytes.ofString "gc: deferred, evaluation in progress"
  | nativeRegistered index =>
    label "native" (Bytes.ofNat index) ++ Bytes.ofString "registered native function"
  | failed kind message => label "kind" (Bytes.ofString kind.name) ++ message

end Event

end ArenaScript
