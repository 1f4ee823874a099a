import ArenaScript.Number.Decimal
import ArenaScript.Proofs.Number.Rounding

/-!
# Digits that read back

The decimals that a double is written with lie within half a gap of it: those
with the fewest digits because they are looked for there, and those with 17
digits because 17 digits are more than the 53 bits of a mantissa can tell apart.

Main definitions:

- `Decimal.toRat`: the number itself.

Main results:

- `Decimal.leadingExponent_spec`: the power of ten below a number.
- `Decimal.readsBack_iff`: what reads back is what the double admits.
- `Decimal.admits_shortest`, `Decimal.admits_rounded`: the decimals of a double.
- `Binary64.ofDecimal_of_admits`: a decimal reads back as the double that admits it.
-/

namespace ArenaScript

/-- The number itself. -/
def Decimal.toRat (d : Decimal) : ℚ := d.coefficient * 10 ^ d.exponent

namespace Dyadic

variable {x : Dyadic} {y : ℚ}

/-- Whatever differs from a double by less than its 54th bit is within half a
gap of it. -/
theorem Canonical.admits (canonical : x.Canonical) (near : |y - x.toRat| < x.toRat / 2 ^ 54) :
    x.Admits y := by
  obtain ⟨positive, short, least, full⟩ := canonical
  have unit : (0 : ℚ) < 2 ^ x.exponent := by positivity
  have short' : (x.mantissa : ℚ) ≤ 2 ^ 53 := by exact_mod_cast short.le
  have below : x.toRat / 2 ^ 54 ≤ x.halfBelow * 2 ^ x.exponent := by
    rw [toRat, halfBelow]
    split
    · next start =>
      rw [start.1]
      push_cast
      apply le_of_eq
      ring
    · rw [div_le_iff₀ (by positivity)]
      calc (x.mantissa : ℚ) * 2 ^ x.exponent ≤ 2 ^ 53 * 2 ^ x.exponent := by gcongr
        _ = 1 / 2 * 2 ^ x.exponent * 2 ^ 54 := by ring
  have above : x.toRat / 2 ^ 54 ≤ 1 / 2 * 2 ^ x.exponent :=
    below.trans (by have := x.halfBelow_le; gcongr)
  obtain ⟨low, high⟩ := abs_lt.mp near
  have strict : (x.mantissa - x.halfBelow) * 2 ^ x.exponent < y
      ∧ y < (x.mantissa + 1 / 2) * 2 ^ x.exponent := by
    rw [sub_mul, add_mul, ← toRat]
    constructor <;> linarith
  exact ⟨strict.1.le, strict.2.le, .inr strict⟩

theorem Canonical.toRat_pos (canonical : x.Canonical) : 0 < x.toRat :=
  mul_pos (Nat.cast_pos.mpr canonical.positive) (by positivity)

end Dyadic

namespace Decimal

open Binary64 (exists_scaled roundDiv)

/-! ## Comparisons -/

/-- Numbers are compared as they are. -/
theorem compareScaled_eq (c : Nat) (i : Int) (a : Nat) (p : Int) :
    compareScaled c i a p = compare ((c : ℚ) * 10 ^ i) (a * 2 ^ p) := by
  obtain ⟨n₁, d₁, left, -, d₁_pos, ten⟩ := exists_scaled c (show 0 < 10 by decide) i
  obtain ⟨n₂, d₂, right, -, d₂_pos, two⟩ := exists_scaled a (show 0 < 2 by decide) p
  simp only [Nat.cast_ofNat] at ten two
  simp only [compareScaled, left, right]
  rw [← ten, ← two]
  rcases lt_trichotomy (n₁ * d₂) (n₂ * d₁) with less | same | more
  · rw [compare_lt_iff_lt.mpr less, compare_lt_iff_lt.mpr]
    rw [div_lt_div_iff₀ d₁_pos d₂_pos]
    exact_mod_cast less
  · rw [compare_eq_iff_eq.mpr same, compare_eq_iff_eq.mpr]
    rw [div_eq_div_iff d₁_pos.ne' d₂_pos.ne']
    exact_mod_cast same
  · rw [compare_gt_iff_gt.mpr more, compare_gt_iff_gt.mpr]
    rw [div_lt_div_iff₀ d₂_pos d₁_pos]
    exact_mod_cast more

theorem compareScaled_ne_gt (c : Nat) (i : Int) (a : Nat) (p : Int) :
    (compareScaled c i a p != .gt) = true ↔ (c : ℚ) * 10 ^ i ≤ a * 2 ^ p := by
  rw [compareScaled_eq, bne_iff_ne, ne_eq, compare_gt_iff_gt, not_lt]

/-! ## The leading digit -/

/-- The first guess at the exponent of the leading digit of a power of two is off
by at most one, for all powers of two that are doubles. -/
theorem guess_near : ((List.range 2098).all fun n =>
    let k : Int := n - 1074
    compareScaled 1 (k * 30103 / 100000 - 1) 1 k != .gt
      && compareScaled 1 (k * 30103 / 100000 + 2) 1 (k + 1) != .lt) = true := by
  decide +kernel

variable {x : Dyadic}

/-- The power of ten below a double. -/
theorem leadingExponent_spec (canonical : x.Canonical) (most : x.exponent ≤ 971) :
    (10 : ℚ) ^ leadingExponent x ≤ x.toRat ∧ x.toRat < 10 ^ (leadingExponent x + 1) := by
  obtain ⟨m, p⟩ := x
  obtain ⟨positive, short, least, -⟩ := canonical
  dsimp only at positive short least most
  have bits : m.log2 < 53 := (Nat.log2_lt positive.ne').mpr short
  have below : (2 : ℚ) ^ ((m.log2 : Int) + p) ≤ m * 2 ^ p := by
    rw [zpow_add₀ (by norm_num), zpow_natCast]
    have : ((2 ^ m.log2 : Nat) : ℚ) ≤ m := by exact_mod_cast Nat.log2_self_le positive.ne'
    push_cast at this
    gcongr
  have above : (m : ℚ) * 2 ^ p < 2 ^ ((m.log2 : Int) + p + 1) := by
    rw [show (m.log2 : Int) + p + 1 = ((m.log2 + 1 : Nat) : Int) + p by push_cast; ring,
      zpow_add₀ (by norm_num), zpow_natCast]
    have : (m : ℚ) < ((2 ^ (m.log2 + 1) : Nat) : ℚ) := by exact_mod_cast Nat.lt_log2_self
    push_cast at this
    gcongr
  have near := List.all_eq_true.mp guess_near ((m.log2 : Int) + p + 1074).toNat
    (List.mem_range.mpr (by omega))
  rw [Int.toNat_of_nonneg (by omega), add_sub_cancel_right, Bool.and_eq_true,
    compareScaled_ne_gt, bne_iff_ne, ne_eq, compareScaled_eq, compare_lt_iff_lt, not_lt] at near
  simp only [Nat.cast_one, one_mul] at near
  unfold leadingExponent Dyadic.toRat
  simp only [compareScaled_ne_gt, Nat.cast_one, one_mul]
  generalize ((m.log2 : Int) + p) * 30103 / 100000 = guess at near ⊢
  split
  · next first => exact ⟨first, above.trans_le (by rw [add_assoc guess]; exact near.2)⟩
  · next first =>
    split
    · next second => exact ⟨second, not_le.mp first⟩
    · next second => exact ⟨near.1.trans below, by rw [sub_add_cancel]; exact not_le.mp second⟩

/-! ## Neighbours on a grid -/

/-- The units of a power of ten in a number are counted from below. -/
theorem floorUnits_spec (x : Dyadic) (i : Int) :
    (floorUnits x i : ℚ) * 10 ^ i ≤ x.toRat ∧ x.toRat < (floorUnits x i + 1 : Nat) * 10 ^ i := by
  obtain ⟨n, d, number, -, d_pos, two⟩ := exists_scaled x.mantissa (show 0 < 2 by decide) x.exponent
  obtain ⟨u, v, unit, u_pos, v_pos, ten⟩ := exists_scaled 1 (show 0 < 10 by decide) i
  simp only [Nat.cast_ofNat, Nat.cast_one, one_mul] at two ten
  simp only [floorUnits, number, unit]
  rw [Dyadic.toRat, ← two, ← ten]
  have whole := Nat.div_add_mod (n * v) (d * u)
  have rest := Nat.mod_lt (n * v)
    (Nat.mul_pos (Nat.cast_pos.mp d_pos) (Nat.cast_pos.mp (u_pos Nat.one_pos)))
  generalize n * v / (d * u) = q at whole ⊢
  constructor
  · rw [mul_div_assoc', div_le_div_iff₀ v_pos d_pos]
    have : q * u * d ≤ n * v := by
      rw [← whole]
      exact (Nat.le_of_eq (by ring)).trans (Nat.le_add_right _ _)
    exact_mod_cast this
  · rw [mul_div_assoc', div_lt_div_iff₀ d_pos v_pos]
    have : n * v < (q + 1) * u * d := by nlinarith
    exact_mod_cast this

/-- What reads back is what the double admits. -/
theorem readsBack_iff (positive : 0 < x.mantissa) (c : Nat) (i : Int) :
    readsBack x c i = true ↔ x.Admits (c * 10 ^ i) := by
  have quarter : (2 : ℚ) ^ x.exponent = 2 ^ (x.exponent - 2) * 4 := by
    rw [show x.exponent = x.exponent - 2 + 2 by ring, zpow_add₀ (by norm_num), add_sub_cancel_right]
    norm_num
  have low : ((4 * x.mantissa - (if isBinadeStart x then 1 else 2) : Nat) : ℚ) * 2 ^ (x.exponent - 2)
      = (x.mantissa - x.halfBelow) * 2 ^ x.exponent := by
    rw [quarter, Nat.cast_sub (by split <;> omega), Dyadic.halfBelow, isBinadeStart]
    by_cases start : x.mantissa = 2 ^ 52 ∧ x.exponent ≠ -1074
    · rw [if_pos start, if_pos (by simpa using start)]
      push_cast
      ring
    · rw [if_neg start, if_neg (by simpa using start)]
      push_cast
      ring
  have high : ((4 * x.mantissa + 2 : Nat) : ℚ) * 2 ^ (x.exponent - 2)
      = (x.mantissa + 1 / 2) * 2 ^ x.exponent := by
    rw [quarter]
    push_cast
    ring
  unfold readsBack
  simp only [Bool.and_eq_true, Bool.or_eq_true, beq_iff_eq, compareScaled_eq, compare_gt_iff_gt,
    compare_eq_iff_eq, compare_lt_iff_lt, low, high]
  constructor
  · rintro ⟨above | ⟨even, above⟩, below | ⟨even', below⟩⟩
    · exact ⟨above.le, below.le, .inr ⟨above, below⟩⟩
    · exact ⟨above.le, below.le, .inl even'⟩
    · exact ⟨above.ge, below.le, .inl even⟩
    · exact ⟨above.ge, below.le, .inl even⟩
  · rintro ⟨above, below, even | ⟨above', below'⟩⟩
    · exact ⟨above.lt_or_eq.imp id fun same => ⟨even, same.symm⟩,
        below.lt_or_eq.imp id fun same => ⟨even, same⟩⟩
    · exact ⟨.inl above', .inl below'⟩

/-- A neighbour that has been found reads back. -/
theorem admits_onGrid (positive : 0 < x.mantissa) {i : Int} {d : Decimal}
    (found : onGrid? x i = some d) : x.Admits d.toRat := by
  unfold onGrid? at found
  dsimp only at found
  split at found
  · next both =>
    obtain ⟨down, up⟩ := Bool.and_eq_true_iff.mp both
    obtain rfl := Option.some.inj found
    rw [toRat]
    dsimp only
    split
    · exact (readsBack_iff positive _ _).mp up
    · exact (readsBack_iff positive _ _).mp down
  · split at found
    · next down =>
      obtain rfl := Option.some.inj found
      exact (readsBack_iff positive _ _).mp down
    · split at found
      · next up =>
        obtain rfl := Option.some.inj found
        exact (readsBack_iff positive _ _).mp up
      · cases found

/-- One of the neighbours on a grid is found if it reads back. -/
theorem isSome_onGrid {i : Int}
    (admits : readsBack x (floorUnits x i) i = true ∨ readsBack x (floorUnits x i + 1) i = true) :
    (onGrid? x i).isSome = true := by
  unfold onGrid?
  dsimp only
  rcases admits with down | up
  · rw [down]
    split <;> simp
  · rw [up]
    split
    · simp
    · split <;> simp

/-! ## Seventeen digits -/

/-- Half a unit of the 17th digit is less than what a double is told by. -/
theorem half_unit_lt (canonical : x.Canonical) (most : x.exponent ≤ 971) :
    (10 : ℚ) ^ (leadingExponent x - 16) / 2 < x.toRat / 2 ^ 54 := by
  have leading := (leadingExponent_spec canonical most).1
  have positive := canonical.toRat_pos
  rw [zpow_sub₀ (by norm_num)]
  calc (10 : ℚ) ^ leadingExponent x / 10 ^ (16 : Int) / 2
      ≤ x.toRat / 10 ^ (16 : Int) / 2 := by gcongr
    _ < x.toRat / 2 ^ 54 := by
      rw [div_div]
      apply div_lt_div_of_pos_left positive (by positivity)
      norm_num

/-- On the grid of the 17th digit there is a neighbour that reads back. -/
theorem isSome_onGrid_last (canonical : x.Canonical) (most : x.exponent ≤ 971) :
    (onGrid? x (leadingExponent x - 16)).isSome = true := by
  have half := half_unit_lt canonical most
  obtain ⟨low, high⟩ := floorUnits_spec x (leadingExponent x - 16)
  have near {c : Nat} (close : |(c : ℚ) * 10 ^ (leadingExponent x - 16) - x.toRat|
      ≤ 10 ^ (leadingExponent x - 16) / 2) : readsBack x c (leadingExponent x - 16) = true :=
    (readsBack_iff canonical.positive _ _).mpr (canonical.admits (close.trans_lt half))
  push_cast at high
  rw [add_mul, one_mul] at high
  apply isSome_onGrid
  -- the nearer one of the two is within half a unit
  rcases le_total (x.toRat - floorUnits x (leadingExponent x - 16) * 10 ^ (leadingExponent x - 16))
    (10 ^ (leadingExponent x - 16) / 2) with close | far
  · left
    apply near
    rw [abs_le]
    constructor <;> linarith
  · right
    apply near
    push_cast
    rw [abs_le, add_mul, one_mul]
    constructor <;> linarith

/-- The search finds a decimal that reads back, if there is one on its way. -/
theorem admits_searchFrom (positive : 0 < x.mantissa) {rounds : Nat} {i : Int} {n : Nat}
    (inside : n < rounds) (found : (onGrid? x (i - n)).isSome = true) :
    x.Admits (searchFrom x rounds i).toRat := by
  induction rounds generalizing i n with
  | zero => omega
  | succ rounds ih =>
    rw [searchFrom]
    cases here : onGrid? x i with
    | some d => exact admits_onGrid positive here
    | none =>
      cases n with
      | zero =>
        rw [Nat.cast_zero, sub_zero, here] at found
        cases found
      | succ n =>
        refine ih (n := n) (by omega) ?_
        rw [show i - 1 - (n : Int) = i - (n + 1 : Nat) by push_cast; ring]
        exact found

/-- The decimal with the fewest digits reads back. -/
theorem admits_shortest (canonical : x.Canonical) (most : x.exponent ≤ 971) :
    x.Admits (shortest x).toRat :=
  admits_searchFrom (n := 16) canonical.positive (by decide) (isSome_onGrid_last canonical most)

/-- The decimal with 17 digits reads back. -/
theorem admits_rounded (canonical : x.Canonical) (most : x.exponent ≤ 971) :
    x.Admits (rounded x 17).toRat := by
  obtain ⟨n, d, number, -, d_pos, two⟩ := exists_scaled x.mantissa (show 0 < 2 by decide) x.exponent
  obtain ⟨u, v, power, u_pos, v_pos, ten⟩ :=
    exists_scaled 1 (show 0 < 10 by decide) (leadingExponent x - 16)
  simp only [Nat.cast_ofNat, Nat.cast_one, one_mul] at two ten
  have u_pos := u_pos Nat.one_pos
  have unit : (0 : ℚ) < 10 ^ (leadingExponent x - 16) := by positivity
  have half := half_unit_lt canonical most
  refine canonical.admits (lt_of_le_of_lt ?_ half)
  unfold rounded
  simp only [Nat.cast_ofNat]
  rw [show leadingExponent x + 1 - 17 = leadingExponent x - 16 by ring, number, power]
  have near := Binary64.roundDiv_near (n * v)
    (Nat.mul_pos (Nat.cast_pos.mp d_pos) (Nat.cast_pos.mp u_pos))
  have quotient : ((n * v : Nat) : ℚ) / (d * u : Nat) = x.toRat / 10 ^ (leadingExponent x - 16) := by
    rw [Dyadic.toRat, ← two, ← ten]
    push_cast
    field_simp
  rw [quotient] at near
  calc |toRat ⟨roundDiv (n * v) (d * u), leadingExponent x - 16⟩ - x.toRat|
      = |(roundDiv (n * v) (d * u) : ℚ) - x.toRat / 10 ^ (leadingExponent x - 16)|
        * 10 ^ (leadingExponent x - 16) := by
        rw [← abs_of_pos unit, ← abs_mul, abs_of_pos unit, sub_mul, div_mul_cancel₀ _ unit.ne',
          toRat]
    _ ≤ 1 / 2 * 10 ^ (leadingExponent x - 16) := by gcongr
    _ = 10 ^ (leadingExponent x - 16) / 2 := by ring

end Decimal

/-! ## Reading decimals -/

namespace Decimal

/-- The power of ten below a number is told by how many digits it has. -/
theorem digits_spec {c : Nat} (positive : 0 < c) (i : Int) :
    (10 : ℚ) ^ ((Nat.toDigits 10 c).length + i - 1) ≤ c * 10 ^ i
      ∧ (c : ℚ) * 10 ^ i < 10 ^ ((Nat.toDigits 10 c).length + i) := by
  have some : 0 < (Nat.toDigits 10 c).length := Nat.length_toDigits_pos
  have high : c < 10 ^ (Nat.toDigits 10 c).length :=
    (Nat.length_toDigits_le_iff (by decide) some).mp (Nat.le_refl _)
  have low : 10 ^ ((Nat.toDigits 10 c).length - 1) ≤ c := by
    rcases Nat.eq_or_lt_of_le (show 1 ≤ (Nat.toDigits 10 c).length from some) with one | more
    · rw [← one]
      exact positive
    · by_contra less
      have := (Nat.length_toDigits_le_iff (by decide) (by omega)).mpr (not_le.mp less)
      omega
  have low' : ((10 ^ ((Nat.toDigits 10 c).length - 1) : Nat) : ℚ) ≤ c := by exact_mod_cast low
  have high' : (c : ℚ) < ((10 ^ (Nat.toDigits 10 c).length : Nat) : ℚ) := by exact_mod_cast high
  push_cast at low' high'
  constructor
  · have count : ((Nat.toDigits 10 c).length : Int) + i - 1
        = ((Nat.toDigits 10 c).length - 1 : Nat) + i := by
      omega
    rw [count, zpow_add₀ (by norm_num), zpow_natCast]
    gcongr
  · rw [zpow_add₀ (by norm_num), zpow_natCast]
    gcongr

end Decimal

namespace Binary64

variable {bits : UInt64}

theorem exponent_le_of_isFinite (finite : isFinite bits = true) : (decode bits).exponent ≤ 971 := by
  have other : exponentField bits ≠ 2047 := by
    simpa only [isFinite, bne_iff_ne, ne_eq] using finite
  have range : exponentField bits < 2 ^ 11 := by
    rw [exponentField_eq]
    exact Nat.mod_lt _ (by decide)
  unfold decode
  split <;> dsimp only <;> omega

/-- What a double admits is neither too large nor too small to be computed. -/
theorem range_of_admits (finite : isFinite bits = true) (positive : 0 < (decode bits).mantissa)
    {y : ℚ}
    (admits : (decode bits).Admits y) : (10 : ℚ) ^ (-331 : Int) ≤ y ∧ y < 10 ^ (309 : Int) := by
  have canonical := canonical_decode positive
  have most := exponent_le_of_isFinite finite
  have one : (1 : ℚ) ≤ (decode bits).mantissa := by exact_mod_cast positive
  have short : ((decode bits).mantissa : ℚ) + 1 ≤ 2 ^ 53 := by exact_mod_cast canonical.short
  constructor
  · refine le_trans ?_ admits.half_le
    have small : (2 : ℚ) ^ 1075 ≤ 10 ^ 331 := by
      exact_mod_cast (show 2 ^ 1075 ≤ 10 ^ 331 by decide +kernel)
    calc (10 : ℚ) ^ (-331 : Int) = (10 ^ 331)⁻¹ := zpow_neg_coe_of_pos 10 (by decide)
      _ ≤ (2 ^ 1075)⁻¹ := by gcongr
      _ = 2 ^ (-1075 : Int) := (zpow_neg_coe_of_pos 2 (by decide)).symm
      _ = 1 / 2 * 2 ^ (-1074 : Int) := by
        rw [show (-1075 : Int) = -1 + -1074 by decide, zpow_add₀ (by norm_num), zpow_neg_one,
          one_div]
      _ ≤ 1 / 2 * 2 ^ (decode bits).exponent :=
        mul_le_mul_of_nonneg_left (zpow_le_zpow_right₀ (by norm_num) canonical.least) (by norm_num)
      _ ≤ _ := by
        gcongr
        linarith
  · refine lt_of_le_of_lt admits.high ?_
    have large : (2 : ℚ) ^ 53 * 2 ^ 971 < 10 ^ 309 := by
      exact_mod_cast (show 2 ^ 53 * 2 ^ 971 < 10 ^ 309 by decide +kernel)
    calc ((decode bits).mantissa + 1 / 2 : ℚ) * 2 ^ (decode bits).exponent
        ≤ 2 ^ 53 * 2 ^ (decode bits).exponent := by
          gcongr
          linarith
      _ ≤ 2 ^ 53 * 2 ^ (971 : Int) := by
        gcongr
        norm_num
      _ < 10 ^ (309 : Int) := large

/-- How many digits a decimal may have that a double admits. -/
theorem digits_of_admits (finite : isFinite bits = true) (positive : 0 < (decode bits).mantissa)
    {c : Nat} {i : Int} (admits : (decode bits).Admits (c * 10 ^ i)) : 0 < c
      ∧ (Nat.toDigits 10 c).length + i - 1 < 309 ∧ -331 < (Nat.toDigits 10 c).length + i := by
  have c_pos : 0 < c := by
    rcases Nat.eq_zero_or_pos c with rfl | pos
    · have := admits.pos positive
      simp at this
    · exact pos
  obtain ⟨low, high⟩ := range_of_admits finite positive admits
  obtain ⟨least, most⟩ := Decimal.digits_spec c_pos i
  have ten : (1 : ℚ) < 10 := by norm_num
  exact ⟨c_pos, (zpow_lt_zpow_iff_right₀ ten).mp (least.trans_lt high),
    (zpow_lt_zpow_iff_right₀ ten).mp (low.trans_lt most)⟩

/-- A decimal reads back as the double that admits it. -/
theorem ofDecimal_of_admits (finite : isFinite bits = true) (plus : isNegative bits = false)
    (positive : 0 < (decode bits).mantissa) {c : Nat} {i : Int}
    (admits : (decode bits).Admits (c * 10 ^ i)) : ofDecimal c i = bits := by
  obtain ⟨c_pos, above, below⟩ := digits_of_admits finite positive admits
  unfold ofDecimal
  rw [if_neg c_pos.ne']
  dsimp only
  rw [if_neg (by omega), if_neg (by omega)]
  obtain ⟨n, d, ratio, -, d_pos, scale⟩ := exists_scaled c (show 0 < 10 by decide) i
  rw [ratio]
  exact ofRatio_of_admits finite plus positive (Nat.cast_pos.mp d_pos) (scale ▸ admits)

end Binary64

end ArenaScript
