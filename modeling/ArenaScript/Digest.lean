/-!
# Digests

A 64-bit hash of a stretch of bytes.  Blocks of 32 bytes are mixed into four
lanes, the rest is added in pieces of 16, 8, 4, 2 and 1 bytes, and a last step
spreads the bits.  All arithmetic wraps around and words are little-endian.

Main definitions:

- `Digest.hash`: the hash of the first bytes of a block.
-/

namespace ArenaScript.Digest

/-- The first multiplier. -/
def k0 : UInt64 := 0xD6D018F5

/-- The second multiplier. -/
def k1 : UInt64 := 0xA2AA033B

/-- The third multiplier. -/
def k2 : UInt64 := 0x62992FC1

/-- The fourth multiplier. -/
def k3 : UInt64 := 0x30BC5B29

/-- Rotates a word to the right by 1 to 63 places. -/
def rotateRight (x n : UInt64) : UInt64 := (x >>> n) ||| (x <<< (64 - n))

/-- The number whose little-endian bytes start at a position. -/
def word (bytes : ByteArray) : (width : Nat) → (i : Nat) → UInt64
  | 0, _ => 0
  | width + 1, i => (bytes.get! i).toUInt64 ||| (word bytes width (i + 1) <<< 8)

/-- The four lanes. -/
structure Lanes where
  a : UInt64
  b : UInt64
  c : UInt64
  d : UInt64

namespace Lanes

/-- Mixes 32 bytes into the lanes. -/
def absorb (l : Lanes) (bytes : ByteArray) (i : Nat) : Lanes :=
  let a := rotateRight (l.a + word bytes 8 i * k0) 29 + l.c
  let b := rotateRight (l.b + word bytes 8 (i + 8) * k1) 29 + l.d
  let c := rotateRight (l.c + word bytes 8 (i + 16) * k2) 29 + a
  let d := rotateRight (l.d + word bytes 8 (i + 24) * k3) 29 + b
  ⟨a, b, c, d⟩

/-- Mixes a number of blocks into the lanes. -/
def absorbBlocks (bytes : ByteArray) : (blocks : Nat) → (i : Nat) → Lanes → Lanes
  | 0, _, l => l
  | blocks + 1, i, l => absorbBlocks bytes blocks (i + 32) (l.absorb bytes i)

/-- What the lanes add to the hash. -/
def fold (l : Lanes) : UInt64 :=
  let c := l.c ^^^ (rotateRight ((l.a + l.d) * k0 + l.b) 37 * k1)
  let d := l.d ^^^ (rotateRight ((l.b + c) * k1 + l.a) 37 * k0)
  let a := l.a ^^^ (rotateRight ((l.a + c) * k0 + d) 37 * k1)
  let b := l.b ^^^ (rotateRight ((l.b + d) * k1 + c) 37 * k0)
  a ^^^ b

end Lanes

/-- Adds 16 bytes to a hash. -/
def addPair (bytes : ByteArray) (i : Nat) (h : UInt64) : UInt64 :=
  let a := rotateRight (h + word bytes 8 i * k2) 29 * k3
  let b := rotateRight (h + word bytes 8 (i + 8) * k2) 29 * k3
  let a := a ^^^ (rotateRight (a * k0) 21 + b)
  h + (b ^^^ (rotateRight (b * k3) 21 + a))

/-- Adds a piece of a number of bytes to a hash. -/
def addPiece (bytes : ByteArray) (width : Nat) (turn : UInt64) (i : Nat) (h : UInt64) : UInt64 :=
  let h := h + word bytes width i * k3
  h ^^^ (rotateRight h turn * k1)

/-- The pieces that follow the blocks, as width and rotation. -/
def pieces : List (Nat × UInt64) := [(8, 55), (4, 26), (2, 48), (1, 37)]

/-- Adds the pieces that still fit between a position and the end. -/
def addPieces (bytes : ByteArray) (stop : Nat) : List (Nat × UInt64) → Nat → UInt64 → UInt64
  | [], _, h => h
  | (width, turn) :: rest, i, h =>
    if width ≤ stop - i then addPieces bytes stop rest (i + width) (addPiece bytes width turn i h)
    else addPieces bytes stop rest i h

/-- The hash of the first `length` bytes of a block. -/
def hash (bytes : ByteArray) (length : Nat) : UInt64 :=
  let seed := k2 * k0
  let blocks := length / 32
  let h :=
    if blocks = 0 then seed
    else seed + (Lanes.absorbBlocks bytes blocks 0 ⟨seed, seed, seed, seed⟩).fold
  let i := blocks * 32
  let (i, h) := if 16 ≤ length - i then (i + 16, addPair bytes i h) else (i, h)
  let h := addPieces bytes length pieces i h
  let h := (h ^^^ rotateRight h 28) * k0
  h ^^^ rotateRight h 29

end ArenaScript.Digest
