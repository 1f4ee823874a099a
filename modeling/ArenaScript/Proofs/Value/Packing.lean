import ArenaScript.Value
import Mathlib.Algebra.Group.Nat.Defs

/-!
# Packing

A packed value has sixteen bits above its payload.  They hold the marker and
the code of the kind, and nothing of the payload, so both can be read back.

Main results:

- `Value.bits_pack_shift`, `Value.payload_pack`: the two halves of a packed value.
- `Value.kind_box`: the kind of a packed value.
- `Value.kind_ref`, `Value.offset_ref`: what a reference refers to.
- `Value.kind_ofBits`: no number is mistaken for a packed value.
- `Value.spanStart_span_le`, `Value.spanLength_span_le`: a span never starts later and is never
  longer than asked for.
-/

namespace ArenaScript.Value

/-! ## The two halves of a word -/

/-- The bits of the payload mask. -/
theorem getLsbD_payloadMask (i : Nat) :
    payloadMask.toBitVec.getLsbD i = decide (i < 48) := by
  have mask : payloadMask.toBitVec = (BitVec.allOnes 48).setWidth 64 := by decide
  rw [mask, BitVec.getLsbD_setWidth, BitVec.getLsbD_allOnes]
  grind

/-- A shift by 48 places, as the bits see it. -/
theorem toNat_shift48 : (UInt64.toBitVec 48 % 64).toNat = 48 := by decide

/-- The bits of a packed value: the payload below the marker and the code. -/
theorem getLsbD_pack (code : UInt8) (payload : UInt64) (i : Nat) (hi : i < 64) :
    (pack code payload).bits.toBitVec.getLsbD i
      = if i < 48 then payload.toBitVec.getLsbD i
        else (0x7ff0 ||| (code + 1).toUInt64 : UInt64).toBitVec.getLsbD (i - 48) := by
  have hmarker : marker = (0x7ff0 : UInt64) <<< 48 := by decide
  simp only [pack, hmarker, UInt64.toBitVec_or, UInt64.toBitVec_and, UInt64.toBitVec_shiftLeft,
    BitVec.getLsbD_or, BitVec.getLsbD_and, BitVec.shiftLeft_eq', BitVec.getLsbD_shiftLeft,
    getLsbD_payloadMask]
  rw [toNat_shift48]
  grind

/-- The sixteen bits above the payload. -/
theorem bits_pack_shift (code : UInt8) (payload : UInt64) :
    (pack code payload).bits >>> 48 = 0x7ff0 ||| (code + 1).toUInt64 := by
  apply UInt64.toBitVec_inj.mp
  ext i hi
  rw [← BitVec.getLsbD_eq_getElem, ← BitVec.getLsbD_eq_getElem]
  simp only [UInt64.toBitVec_shiftRight, BitVec.ushiftRight_eq', BitVec.getLsbD_ushiftRight]
  rw [toNat_shift48]
  by_cases low : i < 16
  · rw [getLsbD_pack _ _ _ (by omega), if_neg (by omega), Nat.add_sub_cancel_left]
  · have word : (0x7ff0 : UInt64).toBitVec = (0x7ff0#16).setWidth 64 := by decide
    have clear : (0x7ff0 ||| (code + 1).toUInt64 : UInt64).toBitVec.getLsbD i = false := by
      simp only [UInt64.toBitVec_or, word, UInt8.toBitVec_toUInt64, BitVec.getLsbD_or,
        BitVec.getLsbD_setWidth]
      rw [BitVec.getLsbD_of_ge _ _ (by omega), BitVec.getLsbD_of_ge _ _ (by omega)]
      simp
    rw [clear, BitVec.getLsbD_of_ge _ _ (by omega)]

/-- The payload of a packed value. -/
theorem payload_pack (code : UInt8) (payload : UInt64) :
    (pack code payload).payload = payload &&& payloadMask := by
  apply UInt64.toBitVec_inj.mp
  ext i hi
  rw [← BitVec.getLsbD_eq_getElem, ← BitVec.getLsbD_eq_getElem]
  simp only [Value.payload, UInt64.toBitVec_and, BitVec.getLsbD_and, getLsbD_payloadMask]
  rw [getLsbD_pack _ _ _ hi]
  grind

/-! ## Kinds -/

/-- The upper half of a packed value tells its kind. -/
theorem kind_of_upper (k : Kind) :
    (0x7ff0 ||| (k.code + 1).toUInt64 : UInt64) >>> 4 = 0x7ff
      ∧ (0x7ff0 ||| (k.code + 1).toUInt64 : UInt64) &&& 15 = (k.code + 1).toUInt64
      ∧ (k.code + 1).toUInt64 ≠ 0
      ∧ Kind.ofCode ((k.code + 1).toUInt64.toUInt8 - 1) = k := by
  cases k with
  | reserved slot => revert slot; decide
  | _ => decide

/-- A packed value lies in the packed space, under the code of its kind. -/
theorem isBoxed_box (k : Kind) (payload : UInt64) :
    (box k payload).isBoxed = true ∧ (box k payload).tag = (k.code + 1).toUInt64 := by
  obtain ⟨upper, low, nonzero, -⟩ := kind_of_upper k
  have shift : (box k payload).bits >>> 48 = 0x7ff0 ||| (k.code + 1).toUInt64 :=
    bits_pack_shift k.code payload
  have top : (box k payload).bits >>> 52 = 0x7ff := by
    rw [← upper, ← shift]
    apply UInt64.toBitVec_inj.mp
    ext i hi
    simp [UInt64.toBitVec_shiftRight]
  have tag : (box k payload).tag = (k.code + 1).toUInt64 := by
    rw [Value.tag, shift, low]
  refine ⟨?_, tag⟩
  simp only [isBoxed, top, tag, bne_iff_ne, Bool.and_eq_true, beq_self_eq_true, true_and]
  exact nonzero

/-- The kind of a packed value. -/
@[simp]
theorem kind_box (k : Kind) (payload : UInt64) : (box k payload).kind = k := by
  obtain ⟨-, -, -, code⟩ := kind_of_upper k
  obtain ⟨boxed, tag⟩ := isBoxed_box k payload
  rw [kind, if_pos boxed, tag, code]

/-! ## References -/

@[simp]
theorem kind_ref (k : Kind) (offset : UInt32) : (ref k offset).kind = k := kind_box k _

@[simp]
theorem offset_ref (k : Kind) (offset : UInt32) : (ref k offset).offset = offset := by
  have payload : (ref k offset).payload = offset.toUInt64 &&& payloadMask :=
    payload_pack k.code _
  rw [Value.offset, payload]
  apply UInt32.toBitVec_inj.mp
  ext i hi
  simp only [UInt64.toBitVec_toUInt32, UInt64.toBitVec_and, UInt32.toBitVec_toUInt64,
    BitVec.getElem_setWidth, BitVec.getLsbD_and, BitVec.getLsbD_setWidth, getLsbD_payloadMask]
  rw [BitVec.getLsbD_eq_getElem hi]
  grind

/-- References of one kind are equal only if they refer to the same offset. -/
theorem ref_inj {k : Kind} {a b : UInt32} (h : ref k a = ref k b) : a = b := by
  rw [← offset_ref k a, h, offset_ref]

/-! ## Numbers -/

/-- The tag as a number. -/
theorem toNat_tag (v : Value) : v.tag.toNat = v.bits.toNat / 2 ^ 48 % 2 ^ 4 := by
  rw [tag, UInt64.toNat_and, UInt64.toNat_shiftRight, ← Nat.shiftRight_eq_div_pow]
  exact Nat.and_two_pow_sub_one_eq_mod _ 4

/-- A pattern is a not-a-number when it lies above infinity, whatever its sign. -/
theorem isNotANumber_iff (bits : UInt64) :
    isNotANumber bits = true ↔ 2047 * 2 ^ 52 < bits.toNat % 2 ^ 63 := by
  have infinity : (0x7ff0000000000000 : UInt64).toNat = 2047 * 2 ^ 52 := by decide
  have mask : (bits &&& 0x7fffffffffffffff).toNat = bits.toNat % 2 ^ 63 := by
    rw [UInt64.toNat_and]
    exact Nat.and_two_pow_sub_one_eq_mod _ 63
  rw [isNotANumber, decide_eq_true_eq, UInt64.lt_iff_toNat_lt, mask, infinity]

/-- A word in the packed space is a not-a-number. -/
theorem isNotANumber_of_isBoxed {v : Value} (boxed : v.isBoxed = true) :
    isNotANumber v.bits = true := by
  simp only [isBoxed, Bool.and_eq_true, beq_iff_eq, bne_iff_ne, ne_eq, ← UInt64.toNat_inj,
    UInt64.toNat_shiftRight, Nat.shiftRight_eq_div_pow, toNat_tag, UInt64.reduceToNat,
    Nat.reduceMod] at boxed
  rw [isNotANumber_iff]
  omega

/-- The word of a number lies outside the packed space. -/
theorem isBoxed_ofBits (bits : UInt64) : (ofBits bits).isBoxed = false := by
  unfold ofBits
  split
  next => decide
  next number =>
    rw [← Bool.not_eq_true]
    exact fun boxed => number (isNotANumber_of_isBoxed boxed)

/-- The word of a number is a number. -/
@[simp]
theorem kind_ofBits (bits : UInt64) : (ofBits bits).kind = .number := by
  rw [kind, isBoxed_ofBits]
  rfl

@[simp]
theorem kind_ofFloat (x : Float) : (ofFloat x).kind = .number := kind_ofBits _

@[simp]
theorem kind_ofBool (b : Bool) : (ofBool b).kind = .boolean := kind_box _ _

/-! ## Spans -/

/-- The bits of the mask of a position or a length. -/
theorem getLsbD_spanMask (i : Nat) : spanMask.toBitVec.getLsbD i = decide (i < 24) := by
  have mask : spanMask.toBitVec = (BitVec.allOnes 24).setWidth 32 := by decide
  rw [mask, BitVec.getLsbD_setWidth, BitVec.getLsbD_allOnes]
  grind

/-- A shift by 24 places, as the bits see it. -/
theorem toNat_shift24 : (UInt64.toBitVec 24 % 64).toNat = 24 := by decide

/-- The payload of a span holds its start below its length. -/
theorem payload_span (start length : UInt32) :
    (span start length).payload
      = (start &&& spanMask).toUInt64 ||| ((length &&& spanMask).toUInt64 <<< 24) := by
  have packed : (span start length).payload
      = ((start &&& spanMask).toUInt64 ||| ((length &&& spanMask).toUInt64 <<< 24))
        &&& payloadMask :=
    payload_pack _ _
  rw [packed]
  apply UInt64.toBitVec_inj.mp
  ext i hi
  rw [← BitVec.getLsbD_eq_getElem, ← BitVec.getLsbD_eq_getElem]
  simp only [UInt64.toBitVec_or, UInt64.toBitVec_and, UInt32.toBitVec_toUInt64,
    UInt32.toBitVec_and, UInt64.toBitVec_shiftLeft, BitVec.shiftLeft_eq', BitVec.getLsbD_or,
    BitVec.getLsbD_and, BitVec.getLsbD_shiftLeft, BitVec.getLsbD_setWidth, getLsbD_payloadMask,
    getLsbD_spanMask]
  rw [toNat_shift24]
  grind

/-- Where a span starts, in 24 bits. -/
theorem spanStart_span (start length : UInt32) :
    (span start length).spanStart = start &&& spanMask := by
  rw [spanStart, payload_span]
  apply UInt32.toBitVec_inj.mp
  ext i hi
  rw [← BitVec.getLsbD_eq_getElem, ← BitVec.getLsbD_eq_getElem]
  simp only [UInt32.toBitVec_and, UInt64.toBitVec_toUInt32, UInt64.toBitVec_or,
    UInt32.toBitVec_toUInt64, UInt64.toBitVec_shiftLeft, BitVec.shiftLeft_eq', BitVec.getLsbD_or,
    BitVec.getLsbD_and, BitVec.getLsbD_shiftLeft, BitVec.getLsbD_setWidth, getLsbD_spanMask]
  rw [toNat_shift24]
  grind

/-- How long a span is, in 24 bits. -/
theorem spanLength_span (start length : UInt32) :
    (span start length).spanLength = length &&& spanMask := by
  rw [spanLength, payload_span]
  apply UInt32.toBitVec_inj.mp
  ext i hi
  rw [← BitVec.getLsbD_eq_getElem, ← BitVec.getLsbD_eq_getElem]
  simp only [UInt32.toBitVec_and, UInt64.toBitVec_toUInt32, UInt64.toBitVec_or,
    UInt64.toBitVec_shiftRight, BitVec.ushiftRight_eq', BitVec.getLsbD_ushiftRight,
    UInt32.toBitVec_toUInt64, UInt64.toBitVec_shiftLeft, BitVec.shiftLeft_eq', BitVec.getLsbD_or,
    BitVec.getLsbD_and, BitVec.getLsbD_shiftLeft, BitVec.getLsbD_setWidth, getLsbD_spanMask]
  rw [toNat_shift24]
  grind

/-- A span does not start later than asked for. -/
theorem spanStart_span_le (start : Nat) (length : UInt32) :
    (span (UInt32.ofNat start) length).spanStart.toNat ≤ start := by
  rw [spanStart_span, UInt32.toNat_and]
  calc (UInt32.ofNat start).toNat &&& spanMask.toNat
    _ ≤ (UInt32.ofNat start).toNat := Nat.and_le_left
    _ ≤ start := by simpa using Nat.mod_le start _

/-- A span is not longer than asked for. -/
theorem spanLength_span_le (start : UInt32) (length : Nat) :
    (span start (UInt32.ofNat length)).spanLength.toNat ≤ length := by
  rw [spanLength_span, UInt32.toNat_and]
  calc (UInt32.ofNat length).toNat &&& spanMask.toNat
    _ ≤ (UInt32.ofNat length).toNat := Nat.and_le_left
    _ ≤ length := by simpa using Nat.mod_le length _

end ArenaScript.Value
