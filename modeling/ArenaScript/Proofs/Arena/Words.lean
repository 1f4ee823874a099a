import ArenaScript.Entity
import Mathlib.Data.List.Basic

/-!
# Words of the arena

The bytes of an arena are read and written as little-endian words at any
offset.  This module says what a read gives after a write: the word itself at
the same place, and the old word at a place that the write does not touch.
The views `word32` and `word64` are total, so that later statements about the
contents of an arena need no bounds.

Main results:

- `word32_put32_self`, `word32_put32_of_disjoint`: words after a write of a word.
- `word64_putValue_self`, `word64_putValue_of_disjoint`: values after a write of a value.
- `get!_copySlice`: bytes after a piece of text was copied.
- `extract_congr`: a stretch of text is determined by its bytes.
-/

namespace ArenaScript.Arena

/-! ## Bytes -/

/-- A byte after one byte was written. -/
theorem get!_set! (b : ByteArray) (i j : Nat) (v : UInt8) :
    (b.set! i v).get! j = if i = j ∧ i < b.size then v else b.get! j := by
  rcases b with ⟨data⟩
  show (data.set! i v)[j]! = if i = j ∧ i < data.size then v else data[j]!
  grind

/-- Reading inside the bounds is the same as checked reading. -/
theorem get!_eq_getElem (b : ByteArray) (i : Nat) (h : i < b.size) : b.get! i = b[i] := by
  rcases b with ⟨data⟩
  exact getElem!_pos data i h

/-- A byte after a piece of one text was copied over another. -/
theorem get!_copySlice (src dest : ByteArray) (srcOff destOff len j : Nat)
    (hsrc : srcOff + len ≤ src.size) (hdest : destOff + len ≤ dest.size) :
    (src.copySlice srcOff dest destOff len).get! j
      = if destOff ≤ j ∧ j < destOff + len then src.get! (srcOff + (j - destOff))
        else dest.get! j := by
  rcases src with ⟨src⟩
  rcases dest with ⟨dest⟩
  have hsrc' : srcOff + len ≤ src.size := hsrc
  have hdest' : destOff + len ≤ dest.size := hdest
  show (dest.extract 0 destOff ++ src.extract srcOff (srcOff + len)
      ++ dest.extract (destOff + min len (src.size - srcOff)) dest.size)[j]!
    = if destOff ≤ j ∧ j < destOff + len then src[srcOff + (j - destOff)]! else dest[j]!
  have hmin : min len (src.size - srcOff) = len := by omega
  simp only [hmin, Array.getElem!_eq_getD, Array.getD_eq_getD_getElem?, Array.getElem?_append,
    Array.getElem?_extract, Array.size_append, Array.size_extract]
  by_cases h : destOff ≤ j ∧ j < destOff + len
  · rw [if_pos h, if_pos (by omega), if_neg (by omega), if_pos (by omega)]
    rw [show min destOff dest.size - 0 = destOff by omega]
  · rw [if_neg h]
    by_cases h1 : j < destOff
    · rw [if_pos (by omega), if_pos (by omega), if_pos (by omega)]
      simp
    · rw [if_neg (by omega)]
      by_cases h2 : j < dest.size
      · rw [if_pos (by omega)]
        have place : destOff + len + (j - (min destOff dest.size - 0
            + (min (srcOff + len) src.size - srcOff))) = j := by
          omega
        rw [place]
      · rw [if_neg (by omega), Array.getElem?_eq_none (by omega)]

/-- Copying inside the bounds keeps the size. -/
theorem size_copySlice (src dest : ByteArray) (srcOff destOff len : Nat)
    (hsrc : srcOff + len ≤ src.size) (hdest : destOff + len ≤ dest.size) :
    (src.copySlice srcOff dest destOff len).size = dest.size := by
  rcases src with ⟨src⟩
  rcases dest with ⟨dest⟩
  have hsrc' : srcOff + len ≤ src.size := hsrc
  have hdest' : destOff + len ≤ dest.size := hdest
  show (dest.extract 0 destOff ++ src.extract srcOff (srcOff + len)
      ++ dest.extract (destOff + min len (src.size - srcOff)) dest.size).size = dest.size
  grind

/-- A stretch of text is determined by its bytes. -/
theorem extract_congr {b b' : ByteArray} {i i' n : Nat} (hb : i + n ≤ b.size)
    (hb' : i' + n ≤ b'.size) (same : ∀ j, j < n → b.get! (i + j) = b'.get! (i' + j)) :
    b.extract i (i + n) = b'.extract i' (i' + n) := by
  apply ByteArray.ext_getElem
  · simp only [ByteArray.size_extract]
    omega
  · intro j hj hj'
    have hj : j < n := by
      simp only [ByteArray.size_extract] at hj
      omega
    rw [ByteArray.getElem_extract, ByteArray.getElem_extract, ← get!_eq_getElem, ← get!_eq_getElem]
    exact same j hj

/-- A text that was written at a position stands there. -/
theorem extract_copySlice (text dest : ByteArray) (start : Nat)
    (inside : start + text.size ≤ dest.size) :
    (text.copySlice 0 dest start text.size).extract start (start + text.size) = text := by
  have whole : text.extract 0 (0 + text.size) = text := by
    rw [Nat.zero_add]
    exact ByteArray.extract_zero_size
  refine Eq.trans (extract_congr ?_ (by omega) fun k hk => ?_) whole
  · rw [size_copySlice _ _ _ _ _ (by omega) inside]
    exact inside
  · rw [get!_copySlice _ _ _ _ _ _ (by omega) inside, if_pos (by omega), Nat.add_sub_cancel_left]

variable (b : ByteArray)
include b

/-- A byte of a stretch of text. -/
theorem get!_extract (i n j : Nat) (hb : i + n ≤ b.size) (hj : j < n) :
    (b.extract i (i + n)).get! j = b.get! (i + j) := by
  have hsize : j < (b.extract i (i + n)).size := by
    simp only [ByteArray.size_extract]
    omega
  rw [get!_eq_getElem _ _ hsize, ByteArray.getElem_extract, ← get!_eq_getElem]

/-! ## Words of 32 bits -/

/-- The 32-bit word at a position. -/
def word32 (b : ByteArray) (i : Nat) : UInt32 :=
  (b.get! i).toUInt32 ||| ((b.get! (i + 1)).toUInt32 <<< 8)
    ||| ((b.get! (i + 2)).toUInt32 <<< 16) ||| ((b.get! (i + 3)).toUInt32 <<< 24)

omit b in
/-- A word is made of its four bytes. -/
theorem word_of_bytes (w : UInt32) :
    w.toUInt8.toUInt32 ||| ((w >>> 8).toUInt8.toUInt32 <<< 8)
      ||| ((w >>> 16).toUInt8.toUInt32 <<< 16) ||| ((w >>> 24).toUInt8.toUInt32 <<< 24) = w := by
  apply UInt32.toBitVec_inj.mp
  ext i hi
  simp only [UInt32.toBitVec_or, UInt32.toBitVec_shiftLeft, UInt8.toBitVec_toUInt32,
    UInt32.toBitVec_toUInt8, UInt32.toBitVec_shiftRight, BitVec.getElem_or,
    BitVec.getElem_setWidth, BitVec.shiftLeft_eq', BitVec.getElem_shiftLeft,
    BitVec.getLsbD_setWidth, BitVec.ushiftRight_eq', BitVec.getLsbD_ushiftRight]
  simp [BitVec.getLsbD_eq_getElem, hi]
  grind

@[simp]
theorem size_put32 (i : Nat) (w : UInt32) : (put32 b i w).size = b.size := by
  simp [put32]

/-- Bytes outside a written word are kept. -/
theorem get!_put32_of_outside (i j : Nat) (w : UInt32)
    (outside : j < i ∨ i + 4 ≤ j) : (put32 b i w).get! j = b.get! j := by
  simp only [put32, get!_set!]
  grind

/-- The four bytes of a written word. -/
theorem get!_put32_inside (i : Nat) (w : UInt32) (h : i + 4 ≤ b.size) :
    (put32 b i w).get! i = w.toUInt8 ∧ (put32 b i w).get! (i + 1) = (w >>> 8).toUInt8
      ∧ (put32 b i w).get! (i + 2) = (w >>> 16).toUInt8
      ∧ (put32 b i w).get! (i + 3) = (w >>> 24).toUInt8 := by
  simp only [put32, get!_set!, ByteArray.size_set!]
  grind

/-- A written word is read back. -/
theorem word32_put32_self (i : Nat) (w : UInt32) (h : i + 4 ≤ b.size) :
    word32 (put32 b i w) i = w := by
  obtain ⟨r0, r1, r2, r3⟩ := get!_put32_inside b i w h
  simp only [word32, r0, r1, r2, r3]
  exact word_of_bytes w

omit b in
/-- A word is determined by its four bytes. -/
theorem word32_congr {b b' : ByteArray} {i i' : Nat}
    (same : ∀ k, k < 4 → b.get! (i + k) = b'.get! (i' + k)) : word32 b i = word32 b' i' := by
  have s0 := same 0 (by omega)
  have s1 := same 1 (by omega)
  have s2 := same 2 (by omega)
  have s3 := same 3 (by omega)
  simp only [Nat.add_zero] at s0
  simp only [word32, s0, s1, s2, s3]

/-- The bytes of a word can be told from the word. -/
theorem get!_eq_shift_word32 (i : Nat) :
    b.get! i = (word32 b i).toUInt8 ∧ b.get! (i + 1) = (word32 b i >>> 8).toUInt8
      ∧ b.get! (i + 2) = (word32 b i >>> 16).toUInt8
      ∧ b.get! (i + 3) = (word32 b i >>> 24).toUInt8 := by
  refine ⟨?_, ?_, ?_, ?_⟩
  all_goals
    apply UInt8.toBitVec_inj.mp
    ext j hj
    simp only [word32, UInt32.toBitVec_or, UInt32.toBitVec_shiftLeft, UInt8.toBitVec_toUInt32,
      UInt32.toBitVec_toUInt8, UInt32.toBitVec_shiftRight, BitVec.getElem_setWidth,
      BitVec.shiftLeft_eq', BitVec.ushiftRight_eq', BitVec.getLsbD_ushiftRight,
      BitVec.getLsbD_or, BitVec.getLsbD_shiftLeft, BitVec.getLsbD_setWidth]
    simp [BitVec.getLsbD_eq_getElem, hj]
    grind

omit b in
/-- Equal words have equal bytes. -/
theorem get!_eq_of_word32_eq {b b' : ByteArray} {i k : Nat} (hk : k < 4)
    (same : word32 b i = word32 b' i) : b.get! (i + k) = b'.get! (i + k) := by
  obtain ⟨r0, r1, r2, r3⟩ := get!_eq_shift_word32 b i
  obtain ⟨r0', r1', r2', r3'⟩ := get!_eq_shift_word32 b' i
  have cases : k = 0 ∨ k = 1 ∨ k = 2 ∨ k = 3 := by omega
  rcases cases with rfl | rfl | rfl | rfl
  · rw [Nat.add_zero, r0, r0', same]
  · rw [r1, r1', same]
  · rw [r2, r2', same]
  · rw [r3, r3', same]

/-- Words outside a written word are kept. -/
theorem word32_put32_of_disjoint (i j : Nat) (w : UInt32)
    (disjoint : j + 4 ≤ i ∨ i + 4 ≤ j) : word32 (put32 b i w) j = word32 b j :=
  word32_congr fun k hk => get!_put32_of_outside b i (j + k) w (by omega)

omit b in
/-- Reading a word is checked against the bounds only. -/
theorem load32_eq (a : Arena) (offset : UInt32) :
    a.load32 offset = if offset.toNat + 4 ≤ a.bytes.size
      then .ok (word32 a.bytes offset.toNat) else .error .fault := rfl

omit b in
/-- Writing a word is checked against the bounds only. -/
theorem store32_eq (a : Arena) (offset word : UInt32) :
    a.store32 offset word = if offset.toNat + 4 ≤ a.bytes.size
      then .ok { a with bytes := put32 a.bytes offset.toNat word } else .error .fault := rfl

/-! ## Values -/

/-- The value at a position. -/
def word64 (b : ByteArray) (i : Nat) : Value :=
  ⟨(b.get! i).toUInt64
    ||| ((b.get! (i + 1)).toUInt64 <<< 8)
    ||| ((b.get! (i + 2)).toUInt64 <<< 16)
    ||| ((b.get! (i + 3)).toUInt64 <<< 24)
    ||| ((b.get! (i + 4)).toUInt64 <<< 32)
    ||| ((b.get! (i + 5)).toUInt64 <<< 40)
    ||| ((b.get! (i + 6)).toUInt64 <<< 48)
    ||| ((b.get! (i + 7)).toUInt64 <<< 56)⟩

/-- The bytes after a value was written at a position. -/
def putValue (b : ByteArray) (i : Nat) (v : Value) : ByteArray :=
  put32 (put32 b i v.bits.toUInt32) (i + 4) (v.bits >>> 32).toUInt32

omit b in
/-- The word of a value is made of its eight bytes. -/
theorem value_of_bytes (w : UInt64) :
    w.toUInt32.toUInt8.toUInt64 ||| ((w.toUInt32 >>> 8).toUInt8.toUInt64 <<< 8)
      ||| ((w.toUInt32 >>> 16).toUInt8.toUInt64 <<< 16)
      ||| ((w.toUInt32 >>> 24).toUInt8.toUInt64 <<< 24)
      ||| ((w >>> 32).toUInt32.toUInt8.toUInt64 <<< 32)
      ||| (((w >>> 32).toUInt32 >>> 8).toUInt8.toUInt64 <<< 40)
      ||| (((w >>> 32).toUInt32 >>> 16).toUInt8.toUInt64 <<< 48)
      ||| (((w >>> 32).toUInt32 >>> 24).toUInt8.toUInt64 <<< 56) = w := by
  apply UInt64.toBitVec_inj.mp
  ext i hi
  simp only [UInt64.toBitVec_or, UInt64.toBitVec_shiftLeft, UInt8.toBitVec_toUInt64,
    UInt64.toBitVec_toUInt32, UInt64.toBitVec_shiftRight, UInt32.toBitVec_toUInt8,
    UInt32.toBitVec_shiftRight, BitVec.getElem_or, BitVec.getElem_setWidth,
    BitVec.shiftLeft_eq', BitVec.getElem_shiftLeft, BitVec.getLsbD_setWidth,
    BitVec.ushiftRight_eq', BitVec.getLsbD_ushiftRight]
  simp [BitVec.getLsbD_eq_getElem, hi]
  grind

@[simp]
theorem size_putValue (i : Nat) (v : Value) : (putValue b i v).size = b.size := by
  simp [putValue]

/-- Bytes outside a written value are kept. -/
theorem get!_putValue_of_outside (i j : Nat) (v : Value)
    (outside : j < i ∨ i + 8 ≤ j) : (putValue b i v).get! j = b.get! j := by
  rw [putValue, get!_put32_of_outside _ _ _ _ (by omega),
    get!_put32_of_outside _ _ _ _ (by omega)]

omit b in
/-- A value is determined by its eight bytes. -/
theorem word64_congr {b b' : ByteArray} {i i' : Nat}
    (same : ∀ k, k < 8 → b.get! (i + k) = b'.get! (i' + k)) : word64 b i = word64 b' i' := by
  have s0 := same 0 (by omega)
  have s1 := same 1 (by omega)
  have s2 := same 2 (by omega)
  have s3 := same 3 (by omega)
  have s4 := same 4 (by omega)
  have s5 := same 5 (by omega)
  have s6 := same 6 (by omega)
  have s7 := same 7 (by omega)
  simp only [Nat.add_zero] at s0
  simp only [word64, s0, s1, s2, s3, s4, s5, s6, s7]

/-- A written value is read back. -/
theorem word64_putValue_self (i : Nat) (v : Value) (h : i + 8 ≤ b.size) :
    word64 (putValue b i v) i = v := by
  have low : ∀ k, k < 4 →
      (putValue b i v).get! (i + k) = (put32 b i v.bits.toUInt32).get! (i + k) :=
    fun k hk => get!_put32_of_outside _ _ _ _ (by omega)
  obtain ⟨r0, r1, r2, r3⟩ := get!_put32_inside b i v.bits.toUInt32 (by omega)
  obtain ⟨r4, r5, r6, r7⟩ := get!_put32_inside (put32 b i v.bits.toUInt32) (i + 4)
    (v.bits >>> 32).toUInt32 (by simp only [size_put32]; omega)
  have l0 := (low 0 (by omega)).trans r0
  have l1 := (low 1 (by omega)).trans r1
  have l2 := (low 2 (by omega)).trans r2
  have l3 := (low 3 (by omega)).trans r3
  rw [← putValue] at r4 r5 r6 r7
  simp only [Nat.add_zero, Nat.add_assoc, Nat.reduceAdd] at l0 r4 r5 r6 r7
  simp only [word64, l0, l1, l2, l3, r4, r5, r6, r7]
  exact congrArg Value.mk (value_of_bytes v.bits)

/-- Values outside a written value are kept. -/
theorem word64_putValue_of_disjoint (i j : Nat) (v : Value)
    (disjoint : j + 8 ≤ i ∨ i + 8 ≤ j) : word64 (putValue b i v) j = word64 b j :=
  word64_congr fun k hk => get!_putValue_of_outside b i (j + k) v (by omega)

omit b in
/-- Reading a value is checked against the bounds only. -/
theorem load64_eq (a : Arena) (offset : UInt32) :
    a.load64 offset = if offset.toNat + 8 ≤ a.bytes.size
      then .ok (word64 a.bytes offset.toNat) else .error .fault := rfl

omit b in
/-- Writing a value is checked against the bounds only. -/
theorem store64_eq (a : Arena) (offset : UInt32) (v : Value) :
    a.store64 offset v = if offset.toNat + 8 ≤ a.bytes.size
      then .ok { a with bytes := putValue a.bytes offset.toNat v } else .error .fault := rfl

end ArenaScript.Arena
