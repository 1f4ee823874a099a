import ArenaScript.Halt
import ArenaScript.Value

/-!
# The arena

An arena is one block of bytes in which every entity of an engine lives.
Entities are packed from the start of the block up to `used`; a stack of
scratch words grows down from `top`, and `limit` is its lower end.

```text
| entity | entity | ... | entity |      free      | scratch words |
0                               used            limit            top
```

All sizes and offsets are 32-bit words and their arithmetic wraps around.
Loads and stores outside the block are a fault.

Main definitions:

- `Arena.load32`, `Arena.store32`, `Arena.load64`, `Arena.store64`: words in
  little-endian order at any byte offset.
- `Arena.alloc?`: moves the end of the entities.
- `Arena.push?`, `Arena.pop`, `Arena.reverse`: the scratch stack.
-/

namespace ArenaScript

/-- A block of bytes shared by packed entities and a scratch stack. -/
structure Arena where
  /-- The bytes themselves. -/
  bytes : ByteArray
  /-- The end of the entities. -/
  used : UInt32
  /-- The lower end of the scratch stack; entities stay below it. -/
  limit : UInt32
  /-- The limit while the scratch stack is empty. -/
  top : UInt32
  /-- The least number of free bytes seen so far. -/
  low : UInt32

namespace Arena

/-- Adds pages of zero bytes. -/
def addPages : Nat → ByteArray → ByteArray
  | 0, bytes => bytes
  | n + 1, bytes => addPages n (bytes ++ ⟨Array.replicate 4096 0⟩)

/-- An arena without entities: a block of zero bytes and the part of it that
may be used. -/
def blank (length : Nat) (limit : UInt32) : Arena where
  bytes := addPages (length / 4096)
    (ByteArray.emptyWithCapacity length ++ ⟨Array.replicate (length % 4096) 0⟩)
  used := 0
  limit := limit
  top := limit
  low := limit

/-- Rounds a size up to a multiple of four. -/
def roundUp (n : UInt32) : UInt32 := (n + 3) &&& ~~~3

/-- The number of bytes between the entities and the scratch stack. -/
def free (a : Arena) : UInt32 :=
  if a.used < a.limit then a.limit - a.used else 0

/-- Records the number of free bytes if it is the least seen so far. -/
def noteLow (a : Arena) : Arena :=
  if a.free < a.low then { a with low := a.free } else a

/-! ## Words in the block -/

/-- The 32-bit word at a byte offset. -/
@[inline]
def load32 (a : Arena) (offset : UInt32) : Except Halt UInt32 :=
  let i := offset.toNat
  if i + 4 ≤ a.bytes.size then
    .ok <| (a.bytes.get! i).toUInt32
      ||| ((a.bytes.get! (i + 1)).toUInt32 <<< 8)
      ||| ((a.bytes.get! (i + 2)).toUInt32 <<< 16)
      ||| ((a.bytes.get! (i + 3)).toUInt32 <<< 24)
  else .error .fault

/-- Four bytes written from the lowest to the highest. -/
def put32 (bytes : ByteArray) (i : Nat) (word : UInt32) : ByteArray :=
  (((bytes.set! i word.toUInt8).set! (i + 1) (word >>> 8).toUInt8).set! (i + 2)
    (word >>> 16).toUInt8).set! (i + 3) (word >>> 24).toUInt8

/-- Stores a 32-bit word at a byte offset. -/
@[inline]
def store32 (a : Arena) (offset word : UInt32) : Except Halt Arena :=
  let i := offset.toNat
  if i + 4 ≤ a.bytes.size then .ok { a with bytes := put32 a.bytes i word }
  else .error .fault

/-- The value at a byte offset. -/
@[inline]
def load64 (a : Arena) (offset : UInt32) : Except Halt Value :=
  let i := offset.toNat
  if i + 8 ≤ a.bytes.size then
    .ok ⟨(a.bytes.get! i).toUInt64
      ||| ((a.bytes.get! (i + 1)).toUInt64 <<< 8)
      ||| ((a.bytes.get! (i + 2)).toUInt64 <<< 16)
      ||| ((a.bytes.get! (i + 3)).toUInt64 <<< 24)
      ||| ((a.bytes.get! (i + 4)).toUInt64 <<< 32)
      ||| ((a.bytes.get! (i + 5)).toUInt64 <<< 40)
      ||| ((a.bytes.get! (i + 6)).toUInt64 <<< 48)
      ||| ((a.bytes.get! (i + 7)).toUInt64 <<< 56)⟩
  else .error .fault

/-- Stores a value at a byte offset. -/
@[inline]
def store64 (a : Arena) (offset : UInt32) (v : Value) : Except Halt Arena :=
  let i := offset.toNat
  if i + 8 ≤ a.bytes.size then
    .ok { a with
      bytes := put32 (put32 a.bytes i v.bits.toUInt32) (i + 4) (v.bits >>> 32).toUInt32 }
  else .error .fault

/-- The bytes from a position on. -/
def slice (a : Arena) (start length : Nat) : Except Halt ByteArray :=
  if start + length ≤ a.bytes.size then .ok (a.bytes.extract start (start + length))
  else .error .fault

/-- Writes a text at a position. -/
def write (a : Arena) (start : Nat) (text : ByteArray) : Except Halt Arena :=
  if start + text.size ≤ a.bytes.size then
    .ok { a with bytes := text.copySlice 0 a.bytes start text.size }
  else .error .fault

/-- Writes a single byte. -/
def writeByte (a : Arena) (i : Nat) (byte : UInt8) : Except Halt Arena :=
  if i < a.bytes.size then .ok { a with bytes := a.bytes.set! i byte } else .error .fault

/-! ## Allocation -/

/-- Reserves a number of bytes, rounded up, at the end of the entities.  There
is no answer when they would reach the scratch stack. -/
def alloc? (a : Arena) (n : UInt32) : Option (UInt32 × Arena) :=
  let n := roundUp n
  if a.used.toNat + n.toNat ≤ a.limit.toNat then some (a.used, { a with used := a.used + n })
  else none

/-! ## The scratch stack -/

/-- A value on the scratch stack would not reach the entities. -/
def hasRoom (a : Arena) : Bool := a.used.toNat + 8 ≤ a.limit.toNat

/-- Places a value on the scratch stack. -/
def push (a : Arena) (v : Value) : Except Halt Arena :=
  { a with limit := a.limit - 8 }.store64 (a.limit - 8) v

/-- Places a value on the scratch stack, if it fits. -/
def push? (a : Arena) (v : Value) : Except Halt (Option Arena) :=
  if a.hasRoom then some <$> a.push v else .ok none

/-- Drops a number of values from the scratch stack. -/
def pop (a : Arena) (n : UInt32) : Arena := { a with limit := a.limit + 8 * n }

/-- Exchanges the values at two offsets. -/
def swap (a : Arena) (i j : UInt32) : Except Halt Arena := do
  let x ← a.load64 i
  let y ← a.load64 j
  (← a.store64 i y).store64 j x

/-- Exchanges the outermost of the scratch words from number `i` to number `j`,
then goes on inwards, for a number of rounds. -/
def reverseRounds : Nat → UInt32 → UInt32 → Arena → Except Halt Arena
  | 0, _, _, a => .ok a
  | rounds + 1, i, j, a => do
    reverseRounds rounds (i + 1) (j - 1) (← a.swap (a.limit + 8 * i) (a.limit + 8 * j))

/-- Turns the topmost values of the scratch stack around, so that the value
pushed first has the lowest offset. -/
def reverse (a : Arena) (n : UInt32) : Except Halt Arena :=
  reverseRounds (n.toNat / 2) 0 (n - 1) a

end Arena

end ArenaScript
