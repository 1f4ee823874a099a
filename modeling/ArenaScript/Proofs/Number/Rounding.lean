import ArenaScript.Number.Binary64
import Mathlib.Algebra.Order.Archimedean.Basic
import Mathlib.Algebra.Order.Field.Power
import Mathlib.Data.Rat.Cast.Order
import Mathlib.Tactic.FieldSimp
import Mathlib.Tactic.Linarith
import Mathlib.Tactic.NormNum
import Mathlib.Tactic.Ring

/-!
# Rounding to doubles

A double stands for all numbers within half a gap of it.  The gap below a power
of two is half as wide as the others, and the ends belong to the double whose
mantissa is even.  Rounding a quotient to the nearest pattern gives the double
that admits it, so every number that a double admits reads back as that double.

Main definitions:

- `Dyadic.toRat`: the number itself.
- `Dyadic.Canonical`: mantissa and exponent as patterns have them.
- `Dyadic.Admits`: the numbers a double stands for.

Main results:

- `Binary64.toNat_eq_of_decode`: a pattern is told by its mantissa and exponent.
- `Binary64.ofRatio_of_admits`: a quotient rounds to the double that admits it.
-/

namespace ArenaScript

/-- The number itself. -/
def Dyadic.toRat (x : Dyadic) : ℚ := x.mantissa * 2 ^ x.exponent

/-- The mantissa has 53 bits, the first of which is set unless the exponent is
the least one. -/
structure Dyadic.Canonical (x : Dyadic) : Prop where
  positive : 0 < x.mantissa
  short : x.mantissa < 2 ^ 53
  least : -1074 ≤ x.exponent
  full : 2 ^ 52 ≤ x.mantissa ∨ x.exponent = -1074

/-- Half of the gap below a double, in units of its last bit. -/
def Dyadic.halfBelow (x : Dyadic) : ℚ :=
  if x.mantissa = 2 ^ 52 ∧ x.exponent ≠ -1074 then 1 / 4 else 1 / 2

/-- A number lies within half a gap of a double.  The ends count for an even
mantissa. -/
structure Dyadic.Admits (x : Dyadic) (y : ℚ) : Prop where
  low : (x.mantissa - x.halfBelow) * 2 ^ x.exponent ≤ y
  high : y ≤ (x.mantissa + 1 / 2) * 2 ^ x.exponent
  ends : x.mantissa % 2 = 0 ∨
    (x.mantissa - x.halfBelow) * 2 ^ x.exponent < y ∧ y < (x.mantissa + 1 / 2) * 2 ^ x.exponent

namespace Binary64

/-! ## Quotients -/

/-- A power as a quotient. -/
theorem exists_scaled (coefficient : Nat) {base : Nat} (pos : 0 < base) (exponent : Int) :
    ∃ n d : Nat, scaled coefficient base exponent = (n, d) ∧ (0 < coefficient → (0 : ℚ) < n)
      ∧ (0 : ℚ) < d ∧ (n : ℚ) / d = coefficient * (base : ℚ) ^ exponent := by
  have ne : (base : ℚ) ≠ 0 := Nat.cast_ne_zero.mpr pos.ne'
  unfold scaled
  split
  · next up =>
    obtain ⟨n, rfl⟩ := Int.eq_ofNat_of_zero_le up
    exact ⟨_, _, rfl, fun some => by positivity, by simp, by simp⟩
  · next down =>
    obtain ⟨n, hn⟩ := Int.eq_ofNat_of_zero_le (a := -exponent) (by omega)
    obtain rfl : exponent = -(n : Int) := by omega
    exact ⟨_, _, rfl, fun some => by positivity, by positivity, by simp [div_eq_mul_inv]⟩

/-- Rounding gives the whole number within a half of a quotient, at a distance of
a half the even one. -/
theorem roundDiv_eq {num den m : Nat} (pos : 0 < den) (low : (m : ℚ) - 1 / 2 ≤ num / den)
    (high : (num : ℚ) / den ≤ m + 1 / 2)
    (ends : m % 2 = 0 ∨ (m : ℚ) - 1 / 2 < num / den ∧ (num : ℚ) / den < m + 1 / 2) :
    roundDiv num den = m := by
  have pos' : (0 : ℚ) < den := Nat.cast_pos.mpr pos
  have low' : 2 * m * den ≤ 2 * num + den := by
    rw [le_div_iff₀ pos'] at low
    have : (2 * m * den : ℚ) ≤ 2 * num + den := by linarith
    exact_mod_cast this
  have high' : 2 * num ≤ 2 * m * den + den := by
    rw [div_le_iff₀ pos'] at high
    have : (2 * num : ℚ) ≤ 2 * m * den + den := by linarith
    exact_mod_cast this
  have ends' : m % 2 = 0 ∨ 2 * m * den < 2 * num + den ∧ 2 * num < 2 * m * den + den := by
    refine ends.imp id fun ⟨below, above⟩ => ?_
    rw [lt_div_iff₀ pos'] at below
    rw [div_lt_iff₀ pos'] at above
    have first : (2 * m * den : ℚ) < 2 * num + den := by linarith
    have second : (2 * num : ℚ) < 2 * m * den + den := by linarith
    exact ⟨by exact_mod_cast first, by exact_mod_cast second⟩
  have split := Nat.div_add_mod num den
  have rest := Nat.mod_lt num pos
  unfold roundDiv
  generalize num / den = q at split ⊢
  generalize num % den = r at split rest ⊢
  have atMost : m ≤ q + 1 := by
    by_contra more
    nlinarith [Nat.mul_le_mul_right den (show q + 2 ≤ m by omega)]
  have atLeast : q ≤ m := by
    by_contra less
    nlinarith [Nat.mul_le_mul_right den (show m + 1 ≤ q by omega)]
  have spread : 2 * (den * q) = 2 * q * den := by ring
  dsimp only
  obtain rfl | next : m = q ∨ m = q + 1 := by omega
  · split_ifs <;> omega
  · have spread' : 2 * m * den = 2 * q * den + 2 * den := by
      rw [next]
      ring
    split_ifs <;> omega

/-- Rounding goes no further than a half. -/
theorem roundDiv_near (num : Nat) {den : Nat} (pos : 0 < den) :
    |(roundDiv num den : ℚ) - num / den| ≤ 1 / 2 := by
  have pos' : (0 : ℚ) < den := Nat.cast_pos.mpr pos
  have near : 2 * num ≤ 2 * (roundDiv num den * den) + den
      ∧ 2 * (roundDiv num den * den) ≤ 2 * num + den := by
    have whole := Nat.div_add_mod num den
    have rest := Nat.mod_lt num pos
    unfold roundDiv
    generalize num / den = q at whole ⊢
    generalize num % den = r at whole rest ⊢
    rw [mul_comm den] at whole
    have next : (q + 1) * den = q * den + den := by ring
    dsimp only
    rcases Nat.mod_two_eq_zero_or_one q with even | odd
    · rw [even, add_zero]
      split_ifs <;> omega
    · rw [odd]
      split_ifs <;> omega
  have low : (2 * num : ℚ) ≤ 2 * (roundDiv num den * den) + den := by exact_mod_cast near.1
  have high : (2 * (roundDiv num den * den) : ℚ) ≤ 2 * num + den := by exact_mod_cast near.2
  have up : (num : ℚ) / den ≤ roundDiv num den + 1 / 2 := (div_le_iff₀ pos').mpr (by linarith)
  have down : (roundDiv num den : ℚ) - 1 / 2 ≤ num / den := (le_div_iff₀ pos').mpr (by linarith)
  rw [abs_le]
  constructor <;> linarith

/-- The exponent of the last mantissa bit, from the power of two below the
quotient. -/
theorem lastBit_eq {num den : Nat} (pos : 0 < num) (pos' : 0 < den) {k : Int}
    (low : (2 : ℚ) ^ k ≤ num / den) (high : (num : ℚ) / den < 2 ^ (k + 1)) :
    lastBit num den = max (-1074) (k - 52) := by
  have den_pos : (0 : ℚ) < den := Nat.cast_pos.mpr pos'
  have up : (1 : ℚ) < 2 := by norm_num
  -- the quotient of the two powers of two below the numerator and the denominator
  have numLow : (2 : ℚ) ^ (num.log2 : Int) ≤ num := by
    rw [zpow_natCast]
    exact_mod_cast Nat.log2_self_le pos.ne'
  have numHigh : (num : ℚ) < 2 ^ ((num.log2 : Int) + 1) := by
    rw [← Nat.cast_one, ← Nat.cast_add, zpow_natCast]
    exact_mod_cast Nat.lt_log2_self
  have denLow : (2 : ℚ) ^ (den.log2 : Int) ≤ den := by
    rw [zpow_natCast]
    exact_mod_cast Nat.log2_self_le pos'.ne'
  have denHigh : (den : ℚ) < 2 ^ ((den.log2 : Int) + 1) := by
    rw [← Nat.cast_one, ← Nat.cast_add, zpow_natCast]
    exact_mod_cast Nat.lt_log2_self
  have above : (num : ℚ) / den < 2 ^ ((num.log2 : Int) - den.log2 + 1) := by
    rw [div_lt_iff₀ den_pos]
    calc (num : ℚ) < 2 ^ ((num.log2 : Int) + 1) := numHigh
      _ = 2 ^ ((num.log2 : Int) - den.log2 + 1) * 2 ^ (den.log2 : Int) := by
        rw [← zpow_add₀ (by norm_num)]
        congr 1
        ring
      _ ≤ 2 ^ ((num.log2 : Int) - den.log2 + 1) * den := by gcongr
  have below : (2 : ℚ) ^ ((num.log2 : Int) - den.log2 - 1) < num / den := by
    rw [lt_div_iff₀ den_pos]
    calc (2 : ℚ) ^ ((num.log2 : Int) - den.log2 - 1) * den
        < 2 ^ ((num.log2 : Int) - den.log2 - 1) * 2 ^ ((den.log2 : Int) + 1) := by gcongr
      _ = 2 ^ (num.log2 : Int) := by
        rw [← zpow_add₀ (by norm_num)]
        congr 1
        ring
      _ ≤ num := numLow
  have kHigh := (zpow_lt_zpow_iff_right₀ up).mp (low.trans_lt above)
  have kLow := (zpow_lt_zpow_iff_right₀ up).mp (below.trans high)
  unfold lastBit
  dsimp only
  rw [show (num.log2 : Int) - (den.log2 : Int) - 53 + 53 = num.log2 - den.log2 by ring]
  obtain ⟨n, d, power, -, d_pos, scale⟩ :=
    exists_scaled 1 (show 0 < 2 by decide) ((num.log2 : Int) - den.log2)
  simp only [Nat.cast_one, one_mul, Nat.cast_ofNat] at scale
  rw [power]
  have compared : num * d < den * n ↔ (num : ℚ) / den < 2 ^ ((num.log2 : Int) - den.log2) := by
    rw [← scale, div_lt_div_iff₀ den_pos d_pos, mul_comm (n : ℚ)]
    exact_mod_cast Iff.rfl
  simp only [compared]
  split
  · next small =>
    have := (zpow_lt_zpow_iff_right₀ up).mp (low.trans_lt small)
    congr 1
    omega
  · next large =>
    have := (zpow_lt_zpow_iff_right₀ up).mp ((not_lt.mp large).trans_lt high)
    congr 1
    omega

/-- Units of a power of two are counted to the nearest. -/
theorem units_eq {num den : Nat} (pos : 0 < den) {m : Nat} {exponent : Int}
    (low : ((m : ℚ) - 1 / 2) * 2 ^ exponent ≤ num / den)
    (high : (num : ℚ) / den ≤ (m + 1 / 2) * 2 ^ exponent)
    (ends : m % 2 = 0 ∨ ((m : ℚ) - 1 / 2) * 2 ^ exponent < num / den
      ∧ (num : ℚ) / den < (m + 1 / 2) * 2 ^ exponent) :
    units num den exponent = m := by
  obtain ⟨n, d, power, n_pos, d_pos, scale⟩ := exists_scaled 1 (show 0 < 2 by decide) exponent
  have n_pos := n_pos Nat.one_pos
  simp only [Nat.cast_one, one_mul, Nat.cast_ofNat] at scale
  rw [units, power]
  have unit_pos : (0 : ℚ) < 2 ^ exponent := by positivity
  have den_pos : (0 : ℚ) < den := Nat.cast_pos.mpr pos
  have quotient : ((num * d : Nat) : ℚ) / (den * n : Nat) = num / den / 2 ^ exponent := by
    rw [← scale]
    push_cast
    field_simp
  refine roundDiv_eq (Nat.mul_pos pos (by exact_mod_cast n_pos)) ?_ ?_
    (ends.imp id fun within => ⟨?_, ?_⟩)
  all_goals rw [quotient]
  · exact (le_div_iff₀ unit_pos).mpr low
  · exact (div_le_iff₀ unit_pos).mpr high
  · exact (lt_div_iff₀ unit_pos).mpr within.1
  · exact (div_lt_iff₀ unit_pos).mpr within.2

/-! ## Patterns -/

variable {bits : UInt64}

theorem exponentField_eq (bits : UInt64) : exponentField bits = bits.toNat / 2 ^ 52 % 2 ^ 11 := by
  rw [exponentField, UInt64.toNat_and, UInt64.toNat_shiftRight, ← Nat.shiftRight_eq_div_pow]
  exact Nat.and_two_pow_sub_one_eq_mod _ 11

theorem fractionField_eq (bits : UInt64) : fractionField bits = bits.toNat % 2 ^ 52 := by
  rw [fractionField, UInt64.toNat_and]
  exact Nat.and_two_pow_sub_one_eq_mod _ 52

/-- A pattern without a sign is its exponent bits and its fraction bits. -/
theorem toNat_eq_fields (plus : isNegative bits = false) :
    bits.toNat = exponentField bits * 2 ^ 52 + fractionField bits := by
  have small : bits.toNat / 2 ^ 63 = 0 := by
    simp only [isNegative, bne_eq_false_iff_eq] at plus
    have := congrArg UInt64.toNat plus
    rw [UInt64.toNat_shiftRight] at this
    rw [← Nat.shiftRight_eq_div_pow]
    exact this
  rw [exponentField_eq, fractionField_eq]
  omega

theorem fractionField_lt (bits : UInt64) : fractionField bits < 2 ^ 52 := by
  rw [fractionField_eq]
  exact Nat.mod_lt _ (by decide)

/-- A pattern without a sign is told by its mantissa and exponent. -/
theorem toNat_eq_of_decode (plus : isNegative bits = false) :
    bits.toNat = ((decode bits).exponent + 1074).toNat * 2 ^ 52 + (decode bits).mantissa := by
  rw [toNat_eq_fields plus, decode]
  split
  · next zero => simp [zero]
  · next normal =>
    rw [show (exponentField bits : Int) - 1075 + 1074 = ((exponentField bits - 1 : Nat) : Int)
      by omega]
    simp only [Int.toNat_natCast]
    omega

/-- The mantissa and exponent of a pattern other than zero. -/
theorem canonical_decode (positive : 0 < (decode bits).mantissa) : (decode bits).Canonical := by
  have fraction := fractionField_lt bits
  revert positive
  unfold decode
  split
  · exact fun positive => ⟨positive, by dsimp only; omega, by dsimp only; omega, .inr rfl⟩
  · exact fun positive => ⟨positive, by dsimp only; omega, by dsimp only; omega,
      .inl (by dsimp only; omega)⟩

theorem toNat_lt_of_isFinite (finite : isFinite bits = true) (plus : isNegative bits = false) :
    bits.toNat < 0x7ff0000000000000 := by
  have exponent : exponentField bits ≠ 2047 := by
    simpa only [isFinite, bne_iff_ne, ne_eq] using finite
  have fraction := fractionField_lt bits
  have range : exponentField bits < 2 ^ 11 := by
    rw [exponentField_eq]
    exact Nat.mod_lt _ (by decide)
  have := toNat_eq_fields plus
  omega

end Binary64

namespace Dyadic

variable {x : Dyadic} {y : ℚ}

theorem halfBelow_le (x : Dyadic) : x.halfBelow ≤ 1 / 2 := by
  unfold halfBelow
  split <;> norm_num

/-- What is admitted lies within half a unit of the last bit. -/
theorem Admits.half_le (admits : x.Admits y) :
    ((x.mantissa : ℚ) - 1 / 2) * 2 ^ x.exponent ≤ y := by
  have half := x.halfBelow_le
  refine le_trans ?_ admits.low
  gcongr

theorem Admits.half_lt (admits : x.Admits y) (odd : x.mantissa % 2 ≠ 0) :
    ((x.mantissa : ℚ) - 1 / 2) * 2 ^ x.exponent < y
      ∧ y < ((x.mantissa : ℚ) + 1 / 2) * 2 ^ x.exponent := by
  obtain ⟨low, high⟩ := admits.ends.resolve_left odd
  have half := x.halfBelow_le
  refine ⟨lt_of_le_of_lt ?_ low, high⟩
  gcongr

theorem Admits.pos (admits : x.Admits y) (positive : 0 < x.mantissa) : 0 < y := by
  have one : (1 : ℚ) ≤ x.mantissa := by exact_mod_cast positive
  have unit : (0 : ℚ) < 2 ^ x.exponent := by positivity
  refine lt_of_lt_of_le ?_ admits.half_le
  exact mul_pos (by linarith) unit

end Dyadic

namespace Binary64

/-- The mantissa and the exponent that a quotient is rounded to. -/
theorem rounded_of_admits {x : Dyadic} (canonical : x.Canonical) {num den : Nat} (pos : 0 < den)
    (admits : x.Admits (num / den)) :
    (lastBit num den + 1074).toNat * 2 ^ 52 + units num den (lastBit num den)
      = (x.exponent + 1074).toNat * 2 ^ 52 + x.mantissa := by
  obtain ⟨m, p⟩ := x
  obtain ⟨positive, short, least, full⟩ := canonical
  dsimp only at positive short least full ⊢
  have quotient_pos := admits.pos positive
  have num_pos : 0 < num := by
    rcases Nat.eq_zero_or_pos num with rfl | pos
    · simp at quotient_pos
    · exact pos
  obtain ⟨k, low, high⟩ := exists_mem_Ico_zpow quotient_pos (show (1 : ℚ) < 2 by norm_num)
  have two : (1 : ℚ) < 2 := by norm_num
  have unit : (0 : ℚ) < 2 ^ p := by positivity
  have shift (n : Nat) : (2 : ℚ) ^ (p + n) = 2 ^ n * 2 ^ p := by
    rw [zpow_add₀ (by norm_num), zpow_natCast, mul_comm]
  have last := lastBit_eq num_pos pos low high
  -- the quotient is below the next power of two
  have above : k < p + 53 := by
    rw [← zpow_lt_zpow_iff_right₀ two]
    have short' : (m : ℚ) + 1 ≤ 2 ^ 53 := by exact_mod_cast short
    calc (2 : ℚ) ^ k ≤ (m + 1 / 2) * 2 ^ p := low.trans admits.high
      _ < 2 ^ 53 * 2 ^ p := by gcongr; linarith
      _ = 2 ^ (p + 53) := (shift 53).symm
  by_cases same : lastBit num den = p
  · rw [same, units_eq pos admits.half_le admits.high
      (or_iff_not_imp_left.mpr fun odd => admits.half_lt odd)]
  · -- only at a power of two the gap below belongs to smaller exponents
    have lower : k < p + 52 ∧ p ≠ -1074 := by omega
    have full' : 2 ^ 52 ≤ m := full.resolve_right lower.2
    have under : (num : ℚ) / den < 2 ^ 52 * 2 ^ p := by
      rw [← shift 52]
      refine high.trans_le (zpow_le_zpow_right₀ two.le ?_)
      push_cast
      omega
    obtain rfl : m = 2 ^ 52 := by
      by_contra other
      have more : (2 ^ 52 : ℚ) + 1 ≤ m := by exact_mod_cast (show 2 ^ 52 + 1 ≤ m by omega)
      have := admits.half_le.trans_lt under
      rw [mul_lt_mul_iff_of_pos_right unit] at this
      dsimp only at this
      linarith
    have quarter : ((2 : ℚ) ^ 52 - 1 / 4) * 2 ^ p ≤ num / den := by
      have := admits.low
      rw [Dyadic.halfBelow, if_pos ⟨rfl, lower.2⟩] at this
      exact_mod_cast this
    have kLow : p + 51 < k + 1 := by
      rw [← zpow_lt_zpow_iff_right₀ two]
      refine lt_of_le_of_lt ?_ (quarter.trans_lt high)
      refine (shift 51).le.trans ?_
      gcongr
      norm_num
    have last' : lastBit num den = p - 1 := by omega
    have unit' : (2 : ℚ) ^ p = 2 * 2 ^ (p - 1) := by
      rw [← zpow_one_add₀ (by norm_num)]
      congr 1
      ring
    rw [unit'] at quarter under
    have count : units num den (p - 1) = 2 ^ 53 := by
      refine units_eq pos ?_ ?_ (.inl (by decide))
      · refine le_trans (le_of_eq ?_) quarter
        push_cast
        ring
      · refine under.le.trans ?_
        rw [← mul_assoc]
        gcongr
        norm_num
    rw [last', count]
    have : (p - 1 + 1074).toNat + 1 = (p + 1074).toNat := by omega
    omega

/-- A quotient rounds to the double that admits it. -/
theorem ofRatio_of_admits {bits : UInt64} (finite : isFinite bits = true)
    (plus : isNegative bits = false) (positive : 0 < (decode bits).mantissa) {num den : Nat}
    (pos : 0 < den) (admits : (decode bits).Admits (num / den)) : ofRatio num den = bits := by
  have num_ne : num ≠ 0 := by
    rintro rfl
    have := admits.pos positive
    simp at this
  have pattern := (rounded_of_admits (canonical_decode positive) pos admits).trans
    (toNat_eq_of_decode plus).symm
  have small := toNat_lt_of_isFinite finite plus
  unfold ofRatio
  rw [if_neg num_ne]
  dsimp only
  rw [pattern, if_pos small, UInt64.ofNat_toNat]

end Binary64

end ArenaScript
