import ArenaScript.Proofs.Number.Rounding
import ArenaScript.Proofs.Value.Packing

/-!
# Words are unambiguous

A word of 64 bits is a number or a packed value and never both.  Packing keeps
the code of a kind and 48 bits of a payload, a number keeps its pattern unless it
is a not-a-number, and a span keeps 24 bits of each of its parts.

Main results:

- `Value.pack_eq_iff`: packed values are equal only if their parts are.
- `Value.kind_eq_number_iff`: the words that stand for numbers.
- `Value.words_are_unambiguous`: what every test of a kind relies on.
-/

namespace ArenaScript.Value

/-! ## Packed values -/

/-- The codes up to 14 are those of the kinds. -/
theorem code_ofCode {t : UInt8} (small : t ≤ 14) : (Kind.ofCode t).code = t := by
  have each : ∀ n : Fin 15, (Kind.ofCode (UInt8.ofNat n)).code = UInt8.ofNat n := by decide
  have bound : t.toNat < 15 := Nat.lt_succ_of_le (UInt8.le_iff_toNat_le.mp small)
  have this := each ⟨t.toNat, bound⟩
  rwa [UInt8.ofNat_toNat] at this

/-- Under a code up to 14 a value is packed as one of the kind with that code. -/
theorem pack_eq_box {t : UInt8} (small : t ≤ 14) (d : UInt64) :
    pack t d = box (Kind.ofCode t) d := by
  rw [box, code_ofCode small]

theorem toNat_payload_pack (t : UInt8) (d : UInt64) :
    (pack t d).payload.toNat = d.toNat % 2 ^ 48 := by
  rw [payload_pack, UInt64.toNat_and]
  exact Nat.and_two_pow_sub_one_eq_mod _ 48

theorem code_kind_pack {t : UInt8} (small : t ≤ 14) (d : UInt64) : (pack t d).kind.code = t := by
  rw [pack_eq_box small, kind_box, code_ofCode small]

/-- Packed values are equal only if their codes are and the payloads agree in 48
bits. -/
theorem pack_eq_iff {t t' : UInt8} (small : t ≤ 14) (small' : t' ≤ 14) (d d' : UInt64) :
    pack t d = pack t' d' ↔ t = t' ∧ d.toNat % 2 ^ 48 = d'.toNat % 2 ^ 48 := by
  constructor
  · intro same
    constructor
    · rw [← code_kind_pack small d, same, code_kind_pack small']
    · rw [← toNat_payload_pack t d, same, toNat_payload_pack]
  · rintro ⟨rfl, same⟩
    rw [← toNat_payload_pack t d, ← toNat_payload_pack t d', UInt64.toNat_inj, payload_pack,
      payload_pack] at same
    simp only [pack, same]

/-! ## Numbers -/

/-- A not-a-number has a full exponent and a fraction that is not zero. -/
theorem isNotANumber_iff_fields (f : UInt64) :
    isNotANumber f = true ↔ Binary64.exponentField f = 2047 ∧ Binary64.fractionField f ≠ 0 := by
  rw [isNotANumber_iff, Binary64.exponentField_eq, Binary64.fractionField_eq]
  omega

/-- A word stands for a number when it lies outside the packed space or under the
code of numbers. -/
theorem kind_eq_number_iff (v : Value) :
    v.kind = .number ↔ v.isBoxed = false ∨ v.tag = Kind.number.code.toUInt64 + 1 := by
  cases boxed : v.isBoxed with
  | false => simp [kind, boxed]
  | true =>
    have bound : v.tag.toNat < 2 ^ 4 := by
      rw [toNat_tag]
      exact Nat.mod_lt _ (by decide)
    rw [kind, if_pos boxed]
    simp only [isBoxed, Bool.and_eq_true, bne_iff_ne] at boxed
    have each : ∀ n : Fin 16, UInt64.ofNat n ≠ 0 →
        (Kind.ofCode ((UInt64.ofNat n).toUInt8 - 1) = .number
          ↔ UInt64.ofNat n = Kind.number.code.toUInt64 + 1) := by
      decide
    have this := each ⟨v.tag.toNat, bound⟩
    rw [UInt64.ofNat_toNat] at this
    simpa using this boxed.2

/-- A packed value gives back its kind and 48 bits of its payload, and packed
values are equal only if these are.  The word of a number is a number, equals no
packed value and has the pattern of the number, but for the not-a-numbers, which
share one word.  The words of numbers are those outside the packed space and
those under the code of numbers.  A span of a text below 2 ^ 24 gives back where
it starts and how long it is. -/
theorem words_are_unambiguous (t t' : UInt8) (small : t ≤ 14) (small' : t' ≤ 14)
    (d d' f g : UInt64) (v : Value) (o n : UInt32) (near : o.toNat < 2 ^ 24)
    (short : n.toNat < 2 ^ 24) :
    ((pack t d).kind.code = t ∧ (pack t d).payload.toNat = d.toNat % 2 ^ 48)
      ∧ (pack t d = pack t' d' ↔ t = t' ∧ d.toNat % 2 ^ 48 = d'.toNat % 2 ^ 48)
      ∧ ((ofBits f).kind = .number ∧ ofBits f ≠ pack t d)
      ∧ (¬ (Binary64.exponentField f = 2047 ∧ Binary64.fractionField f ≠ 0) → (ofBits f).bits = f)
      ∧ (Binary64.exponentField f = 2047 ∧ Binary64.fractionField f ≠ 0 →
          Binary64.exponentField g = 2047 ∧ Binary64.fractionField g ≠ 0 → ofBits f = ofBits g)
      ∧ (v.kind = .number ↔ v.isBoxed = false ∨ v.tag = Kind.number.code.toUInt64 + 1)
      ∧ (span o n).kind = .span ∧ (span o n).spanStart = o ∧ (span o n).spanLength = n := by
  have masked : ∀ x : UInt32, x.toNat < 2 ^ 24 → x &&& spanMask = x := by
    intro x bound
    rw [← UInt32.toNat_inj, UInt32.toNat_and]
    exact (Nat.and_two_pow_sub_one_eq_mod _ 24).trans (Nat.mod_eq_of_lt bound)
  refine ⟨⟨code_kind_pack small d, toNat_payload_pack t d⟩, pack_eq_iff small small' d d',
    ⟨kind_ofBits f, fun same => ?_⟩, fun number => ?_, fun first second => ?_,
    kind_eq_number_iff v, kind_box _ _, ?_, ?_⟩
  · have boxed := (isBoxed_box (Kind.ofCode t) d).1
    rw [← pack_eq_box small, ← same, isBoxed_ofBits] at boxed
    cases boxed
  · rw [← isNotANumber_iff_fields] at number
    rw [ofBits, if_neg number]
  · rw [← isNotANumber_iff_fields] at first second
    rw [ofBits, ofBits, if_pos first, if_pos second]
  · rw [spanStart_span, masked o near]
  · rw [spanLength_span, masked n short]

/-- A signalling not-a-number of either sign, the greatest code and the greatest
span. -/
theorem greatest_parts_are_told_apart :
    (pack 14 0xffffffffffffffff).kind.code = 14 ∧ pack 14 1 ≠ pack 5 1
      ∧ ofBits 0x7ff0000000000001 = ofBits 0xfff0000000000001
      ∧ ofBits 0xfff0000000000001 ≠ pack 5 1
      ∧ (span 0xffffff 0xffffff).spanLength = 0xffffff := by
  obtain ⟨⟨code, -⟩, -, -, -, same, -, -, -, length⟩ := words_are_unambiguous 14 5 (by decide)
    (by decide) 0xffffffffffffffff 1 0x7ff0000000000001 0xfff0000000000001 zero 0xffffff 0xffffff
    (by decide) (by decide)
  obtain ⟨-, differ, ⟨-, apart⟩, -⟩ := words_are_unambiguous 5 14 (by decide) (by decide) 1 1
    0xfff0000000000001 0 zero 0 0 (by decide) (by decide)
  refine ⟨code, fun eq => ?_, same (by decide) (by decide), apart, length⟩
  exact absurd (differ.mp eq.symm).1 (by decide)

end ArenaScript.Value
