import ArenaScript.Collector.Compaction
import Mathlib.Data.Nat.Bitwise

/-!
# Headers as numbers

A header packs a kind into its low two bits, a link or a length above them,
and the mark of the collector into bit 31.  This module reads the packing as
arithmetic on natural numbers, where `omega` can go on.

Main results:

- `toNat_headerKind`, `toNat_headerLink`, `toNat_headerLength`: the parts of a header.
- `toNat_or_markBit`, `isMarked_iff`, `unmarked_or_markBit`: the mark.
- `toNat_roundUp`, `toNat_stringHeader`: sizes and the header of a string.
-/

namespace ArenaScript.Arena

/-! ## Low bits -/

/-- Clearing the low two bits is a shift down and up again. -/
theorem headerLink_eq_shift (x : UInt32) : headerLink x = (x >>> 2) <<< 2 := by
  apply UInt32.toBitVec_inj.mp
  ext i hi
  have two : (UInt32.toBitVec 2 % 32).toNat = 2 := by decide
  have three : UInt32.toBitVec 3 = (BitVec.allOnes 2).setWidth 32 := by decide
  rw [← BitVec.getLsbD_eq_getElem, ← BitVec.getLsbD_eq_getElem]
  simp only [headerLink, UInt32.toBitVec_and, UInt32.toBitVec_not, UInt32.toBitVec_shiftLeft,
    UInt32.toBitVec_shiftRight, BitVec.shiftLeft_eq', BitVec.ushiftRight_eq', BitVec.getLsbD_and,
    BitVec.getLsbD_not, BitVec.getLsbD_shiftLeft, BitVec.getLsbD_ushiftRight, three,
    BitVec.getLsbD_setWidth, BitVec.getLsbD_allOnes]
  rw [two]
  grind

theorem toNat_headerLink (x : UInt32) : (headerLink x).toNat = x.toNat / 4 * 4 := by
  have two : (2 : UInt32).toNat % 32 = 2 := by decide
  have bound := x.toNat_lt
  rw [headerLink_eq_shift, UInt32.toNat_shiftLeft, UInt32.toNat_shiftRight, two,
    Nat.shiftRight_eq_div_pow, Nat.shiftLeft_eq]
  omega

theorem toNat_headerKind (x : UInt32) : (headerKind x).toNat = x.toNat % 4 := by
  rw [headerKind, UInt32.toNat_and]
  exact Nat.and_two_pow_sub_one_eq_mod x.toNat 2

theorem toNat_headerLength (x : UInt32) : (headerLength x).toNat = x.toNat / 4 := by
  have two : (2 : UInt32).toNat % 32 = 2 := by decide
  rw [headerLength, UInt32.toNat_shiftRight, two, Nat.shiftRight_eq_div_pow]

/-- A size rounded up to a multiple of four. -/
theorem toNat_roundUp {n : UInt32} (fits : n.toNat + 3 < 2 ^ 32) :
    (roundUp n).toNat = (n.toNat + 3) / 4 * 4 := by
  have three : (3 : UInt32).toNat = 3 := by decide
  have sum : (n + 3).toNat = n.toNat + 3 := by
    rw [UInt32.toNat_add, three, Nat.mod_eq_of_lt fits]
  rw [roundUp, ← headerLink, toNat_headerLink, sum]

/-- Adding a kind below an aligned link. -/
theorem toNat_or_of_aligned {x k : UInt32} (aligned : x.toNat % 4 = 0) (small : k.toNat < 4) :
    (x ||| k).toNat = x.toNat + k.toNat := by
  have split := Nat.two_pow_add_eq_or_of_lt (i := 2) (b := k.toNat) small (x.toNat / 4)
  have whole : 2 ^ 2 * (x.toNat / 4) = x.toNat := by omega
  rw [UInt32.toNat_or, ← whole, ← split]

/-- The header of a string that fits. -/
theorem toNat_stringHeader {n : UInt32} (fits : n.toNat + 1 < 2 ^ 30) :
    (stringHeader n).toNat = 4 * (n.toNat + 1) + 2 := by
  have two : (2 : UInt32).toNat = 2 := by decide
  have shift : ((n + 1) <<< 2).toNat = 4 * (n.toNat + 1) := by
    simp only [UInt32.toNat_shiftLeft, UInt32.toNat_add, UInt32.reduceToNat, Nat.shiftLeft_eq,
      Nat.reduceMod, Nat.reducePow]
    omega
  rw [stringHeader, toNat_or_of_aligned (by omega) (by decide), shift, two]

/-! ## The mark -/

variable {x : UInt32}

/-- The mark goes above a header that has none. -/
theorem toNat_or_markBit (clear : x.toNat < 2 ^ 31) : (x ||| markBit).toNat = x.toNat + 2 ^ 31 := by
  have mark : markBit.toNat = 2 ^ 31 := by decide
  have split := Nat.two_pow_add_eq_or_of_lt (i := 31) (b := x.toNat) clear 1
  rw [Nat.mul_one] at split
  rw [UInt32.toNat_or, mark, Nat.or_comm, ← split, Nat.add_comm]

/-- Bits below the mark are kept when it is cleared. -/
theorem toNat_unmarked (x : UInt32) : (unmarked x).toNat = x.toNat % 2 ^ 31 := by
  have mask : (~~~markBit).toNat = 2 ^ 31 - 1 := by decide
  rw [unmarked, UInt32.toNat_and, mask, Nat.and_two_pow_sub_one_eq_mod]

/-- A header carries the mark when its number reaches bit 31. -/
theorem isMarked_iff (x : UInt32) : isMarked x = true ↔ 2 ^ 31 ≤ x.toNat := by
  have mark : markBit.toNat = 2 ^ 31 := by decide
  have bound := x.toNat_lt
  rw [isMarked, bne_iff_ne, ne_eq, ← UInt32.toNat_inj, UInt32.toNat_and, mark, Nat.and_two_pow,
    Nat.testBit_eq_decide_div_mod_eq]
  by_cases set : x.toNat / 2 ^ 31 % 2 = 1
  · simp
    omega
  · simp
    omega

variable (clear : x.toNat < 2 ^ 31)
include clear

/-- A header below the mark has none. -/
theorem isMarked_eq_false : isMarked x = false := by
  rw [← Bool.not_eq_true, isMarked_iff]
  omega

/-- A header that was given the mark has it. -/
theorem isMarked_or_markBit : isMarked (x ||| markBit) = true := by
  rw [isMarked_iff, toNat_or_markBit clear]
  omega

/-- Clearing the mark gives the header from before it was set. -/
theorem unmarked_or_markBit : unmarked (x ||| markBit) = x := by
  rw [← UInt32.toNat_inj, toNat_unmarked, toNat_or_markBit clear]
  omega

/-- Clearing a mark that is not set changes nothing. -/
theorem unmarked_of_clear : unmarked x = x := by
  rw [← UInt32.toNat_inj, toNat_unmarked]
  omega

end ArenaScript.Arena
