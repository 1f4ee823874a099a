import ArenaScript.Number.Text
import ArenaScript.Proofs.Number.Digits
import ArenaScript.Proofs.Source.Padding
import Mathlib.Data.List.TakeWhile

/-!
# Numbers as literals

The text of a number is one of three layouts of its digits: digits alone, digits
with a point, or digits with a point and an exponent.  All are figures, and the
scanner reads a figure to its end and takes it for the number that it stands
for.  So a number that is shown and scanned again is the same number.

Main definitions:

- `Figure`: digits, digits after a point and an exponent.
- `Figure.text`, `Figure.toRat`: how it is written, and what it stands for.
- `Decimal.plainFigure`, `Decimal.scientificFigure`: the two layouts.

Main results:

- `Figure.Proper.scanNumber`: a figure is scanned to its end.
- `Decimal.toRat_plainFigure`, `Decimal.toRat_scientificFigure`: a layout keeps
  the number.
- `Number.text_reads_back`: numbers are shown as literals that read back.
-/

namespace ArenaScript

/-- A number as it is written: digits, digits after a point unless there are
none, and an exponent that may be negative. -/
structure Figure where
  whole : List Char
  fraction : List Char
  exponent : Option (Bool × List Char)

namespace Figure

/-- The digits of the exponent with their sign and mark. -/
def exponentText (n : Figure) : List Char :=
  match n.exponent with
  | none => []
  | some (negative, ds) => 'e' :: (if negative then '-' else '+') :: ds

/-- The digits after the point with the point. -/
def fractionText (n : Figure) : List Char := if n.fraction = [] then [] else '.' :: n.fraction

/-- The characters of a figure. -/
def text (n : Figure) : List Char := n.whole ++ (n.fractionText ++ n.exponentText)

/-- The exponent as a number. -/
def power (n : Figure) : Int :=
  match n.exponent with
  | none => 0
  | some (negative, ds) => if negative then -(Nat.ofDigitChars 10 ds 0 : Int) else Nat.ofDigitChars
    10 ds 0

/-- All digits as a number. -/
def coefficient (n : Figure) : Nat := Nat.ofDigitChars 10 (n.whole ++ n.fraction) 0

/-- The exponent of the last digit. -/
def scale (n : Figure) : Int := n.power - n.fraction.length

/-- What a figure stands for. -/
def toRat (n : Figure) : ℚ := n.coefficient * 10 ^ n.scale

/-- There are digits where there have to be, and the exponent is short. -/
structure Proper (n : Figure) : Prop where
  nonempty : n.whole ≠ []
  whole : ∀ c ∈ n.whole, c.isDigit = true
  fraction : ∀ c ∈ n.fraction, c.isDigit = true
  exponent : ∀ negative ds, n.exponent = some (negative, ds) →
    ds ≠ [] ∧ ds.length ≤ 4 ∧ ∀ c ∈ ds, c.isDigit = true

end Figure

/-! ## Characters as bytes -/

namespace Bytes

/-- The bytes of characters that take one byte each. -/
def plain (cs : List Char) : List UInt8 := cs.map Char.toUInt8

theorem plain_append (cs ds : List Char) : plain (cs ++ ds) = plain cs ++ plain ds := List.map_append

theorem length_plain (cs : List Char) : (plain cs).length = cs.length := List.length_map ..

/-- Each of these characters takes one byte. -/
theorem toUTF8_eq_plain {cs : List Char} (small : ∀ c ∈ cs, c.toNat < 128) :
    (String.ofList cs).toUTF8 = ⟨(plain cs).toArray⟩ := by
  have each : ∀ cs : List Char, (∀ c ∈ cs, c.toNat < 128) →
      cs.flatMap String.utf8EncodeChar = plain cs := by
    intro cs small
    induction cs with
    | nil => rfl
    | cons c cs ih =>
      have one : String.utf8EncodeChar c = [c.toUInt8] := by
        apply String.utf8EncodeChar_eq_singleton
        rw [Char.utf8Size_eq_one_iff]
        exact UInt32.le_iff_toNat_le.mpr (Nat.le_of_lt_succ (small c (List.mem_cons_self ..)))
      rw [List.flatMap_cons, one, ih fun c mem => small c (List.mem_cons_of_mem _ mem)]
      rfl
  show cs.utf8Encode = _
  rw [List.utf8Encode, each cs small]
  exact ByteArray.ext List.data_toByteArray

end Bytes

namespace Source

variable {s : Source} {i : Nat}

theorem isDigit_toUInt8 {c : Char} (digit : c.isDigit = true) :
    isDigit c.toUInt8 = true ∧ (hexValue c.toUInt8).toNat = c.toNat - '0'.toNat := by
  simp only [Char.isDigit, Bool.and_eq_true, decide_eq_true_eq, ge_iff_le] at digit
  have low : 48 ≤ c.toNat := UInt32.le_iff_toNat_le.mp digit.1
  have high : c.toNat ≤ 57 := UInt32.le_iff_toNat_le.mp digit.2
  have byte : c.toUInt8.toNat = c.toNat := by
    rw [Char.toUInt8, UInt32.toNat_toUInt8]
    exact Nat.mod_eq_of_lt (show c.toNat < 256 by omega)
  have here : isDigit c.toUInt8 = true := by
    simp only [isDigit, Bool.and_eq_true, decide_eq_true_eq, UInt8.le_iff_toNat_le, byte]
    exact ⟨low, high⟩
  refine ⟨here, ?_⟩
  rw [hexValue, if_pos here, UInt8.toNat_sub_of_le _ _ (UInt8.le_iff_toNat_le.mpr (byte ▸ low)),
    byte]
  rfl

/-- Digits are added up. -/
theorem digitsValue_of_digits {ds : List Char} (digits : ∀ c ∈ ds, c.isDigit = true)
    (stands : s.startsWith i (Bytes.plain ds) = true) (acc : Nat) :
    s.digitsValue 10 ds.length i acc = Nat.ofDigitChars 10 ds acc := by
  induction ds generalizing i acc with
  | nil => rfl
  | cons c ds ih =>
    obtain ⟨-, byte, stands⟩ := startsWith_cons.mp stands
    have value := (isDigit_toUInt8 (digits c (List.mem_cons_self ..))).2
    rw [List.length_cons, digitsValue, byte, value, Nat.ofDigitChars_cons, Nat.mul_comm acc]
    exact ih (fun c mem => digits c (List.mem_cons_of_mem _ mem)) stands _

/-- The digits of an exponent are added up while they are few. -/
theorem exponentValue_of_digits {ds : List Char} (digits : ∀ c ∈ ds, c.isDigit = true)
    (stands : s.startsWith i (Bytes.plain ds) = true) {acc n : Nat} (small : acc < 10 ^ n)
    (few : n + ds.length ≤ 5) : s.exponentValue ds.length i acc = Nat.ofDigitChars 10 ds acc := by
  induction ds generalizing i acc n with
  | nil => rfl
  | cons c ds ih =>
    obtain ⟨-, byte, stands⟩ := startsWith_cons.mp stands
    have digit := digits c (List.mem_cons_self ..)
    have value := (isDigit_toUInt8 digit).2
    have least : c.toNat - '0'.toNat < 10 := by
      simp only [Char.isDigit, Bool.and_eq_true, decide_eq_true_eq] at digit
      have high : c.toNat ≤ 57 := UInt32.le_iff_toNat_le.mp digit.2
      show c.toNat - 48 < 10
      omega
    rw [List.length_cons] at few
    have below : acc < 10000 := small.trans_le (Nat.pow_le_pow_right (by decide) (by omega : n ≤ 4))
    rw [List.length_cons, exponentValue, if_pos below, byte, value, Nat.ofDigitChars_cons,
      Nat.mul_comm acc]
    refine ih (fun c mem => digits c (List.mem_cons_of_mem _ mem)) stands (n := n + 1) ?_ (by omega)
    rw [Nat.pow_succ]
    omega

/-- A run is passed over to the end of the text. -/
theorem skipWhile_of_end {p : UInt8 → Bool} {w : List UInt8} (run : ∀ b ∈ w, p b = true)
    (stands : s.startsWith i w = true) (whole : i + w.length = s.length) :
    s.skipWhile p i = s.length :=
  Nat.le_antisymm (s.skipWhile_le p (by omega)) (whole ▸ le_skipWhile_of_run run stands)

end Source

namespace Figure

open Source Bytes

variable {n : Figure} {s : Source} {i : Nat}

theorem isDigit_of_mem_plain {ds : List Char} (digits : ∀ c ∈ ds, c.isDigit = true) :
    ∀ b ∈ plain ds, isDigit b = true := by
  intro b mem
  obtain ⟨c, here, rfl⟩ := List.mem_map.mp mem
  exact (isDigit_toUInt8 (digits c here)).1

/-- The exponent of a figure is scanned to its end. -/
theorem Proper.scanExponent (proper : n.Proper) (stands : s.startsWith i (plain n.exponentText) =
    true)
    (whole : i + n.exponentText.length = s.length) : s.scanExponent i = (n.power, s.length) := by
  unfold exponentText at stands whole
  unfold power
  cases exponent : n.exponent with
  | none =>
    rw [exponent] at whole
    obtain rfl : i = s.length := whole
    simp [Source.scanExponent]
  | some e =>
    obtain ⟨negative, ds⟩ := e
    obtain ⟨some, few, digits⟩ := proper.exponent negative ds exponent
    rw [exponent] at stands whole
    simp only [List.length_cons] at whole
    obtain ⟨inside, mark, stands⟩ := startsWith_cons.mp stands
    obtain ⟨inside', sign, stands⟩ := startsWith_cons.mp stands
    have positive : 0 < ds.length := List.length_pos_iff.mpr some
    have minus : s.holds (i + 1) '-' = negative := by
      rw [Bool.eq_iff_iff, holds_iff, sign]
      cases negative
      · simp [inside']
        decide
      · simp [inside']
    have signed : (s.holds (i + 1) '+' || negative) = true := by
      rw [Bool.or_eq_true, holds_iff, sign]
      cases negative <;> simp [inside']
    have first : isDigit (s.byte (i + 2)) = true := by
      cases ds with
      | nil => cases positive
      | cons c ds =>
        obtain ⟨-, byte, -⟩ := startsWith_cons.mp stands
        rw [show i + 2 = i + 1 + 1 by omega, byte]
        exact (isDigit_toUInt8 (digits c (List.mem_cons_self ..))).1
    have stop : s.skipWhile isDigit (i + 2) = s.length :=
      skipWhile_of_end (isDigit_of_mem_plain digits) stands (by rw [length_plain]; omega)
    have value : s.exponentValue (s.length - (i + 2)) (i + 2) 0 = Nat.ofDigitChars 10 ds 0 := by
      rw [show s.length - (i + 2) = ds.length by omega]
      exact exponentValue_of_digits digits stands (n := 0) (by decide) (by omega)
    rw [Source.scanExponent, if_pos (by simp [inside, mark]; decide)]
    simp only [minus, signed, if_true, stop, value]
    rw [if_pos (by simp [first]; omega)]

/-- What follows the digits of a figure does not go on with a digit. -/
theorem stops_exponentText (n : Figure) : ∀ b ∈ (plain n.exponentText).head?, isDigit b = false := by
  unfold exponentText
  cases n.exponent with
  | none => exact nofun
  | some e =>
    rintro b ⟨⟩
    decide

/-- The digits before an exponent are passed over. -/
theorem skipWhile_before_exponent {ds : List Char} (digits : ∀ c ∈ ds, c.isDigit = true)
    (stands : s.startsWith i (plain (ds ++ n.exponentText)) = true)
    (whole : i + (ds ++ n.exponentText).length = s.length) :
    s.skipWhile isDigit i = i + ds.length := by
  rw [plain_append] at stands
  cases rest : plain n.exponentText with
  | nil =>
    have none : n.exponentText.length = 0 := by rw [← length_plain, rest]; rfl
    rw [rest, List.append_nil] at stands
    rw [List.length_append, none] at whole
    exact (skipWhile_of_end (isDigit_of_mem_plain digits) stands (by rw [length_plain]; omega)).trans
      whole.symm
  | cons b rest' =>
    have stop := n.stops_exponentText b (by rw [rest]; rfl)
    rw [rest] at stands
    rw [skipWhile_of_run (isDigit_of_mem_plain digits) stop stands, length_plain]

/-- A figure that is a whole text is scanned to its end. -/
theorem Proper.scanDecimal (proper : n.Proper) (stands : s.startsWith 0 (plain n.text) = true)
    (whole : n.text.length = s.length) :
    s.scanDecimal 0 = (Binary64.ofDecimal n.coefficient n.scale, s.length) := by
  have some : 0 < n.whole.length := List.length_pos_iff.mpr proper.nonempty
  have front := stands
  rw [text, plain_append] at front
  obtain ⟨front, back⟩ := startsWith_append.mp front
  rw [length_plain, Nat.zero_add] at back
  rw [text, List.length_append] at whole
  have first := digitsValue_of_digits proper.whole front 0
  rw [scale, coefficient, Nat.ofDigitChars_append]
  unfold Source.scanDecimal
  by_cases none : n.fraction = []
  · -- the exponent follows the digits
    rw [fractionText, if_pos none, List.nil_append] at back whole
    have point : s.skipWhile isDigit 0 = n.whole.length := by
      rw [skipWhile_before_exponent (n := n) proper.whole
        (by rwa [text, fractionText, if_pos none] at stands)
        (by rw [List.length_append]; omega), Nat.zero_add]
    have noPoint : s.holds n.whole.length '.' = false := by
      rw [Bool.eq_false_iff]
      intro holds
      obtain ⟨inside, byte⟩ := holds_iff.mp holds
      unfold exponentText at back whole
      cases exponent : n.exponent with
      | none =>
        rw [exponent] at whole
        simp only [List.length_nil] at whole
        omega
      | some e =>
        rw [exponent] at back
        obtain ⟨-, mark, -⟩ := startsWith_cons.mp back
        rw [mark] at byte
        revert byte
        decide
    have last := proper.scanExponent back (by omega)
    simp only [point, noPoint, Nat.sub_zero, first, last, none, Bool.false_eq_true, if_false,
      List.length_nil, Nat.ofDigitChars_nil, Nat.cast_zero, Nat.add_zero]
    rw [if_neg (by omega)]
  · -- a point and more digits follow the digits
    rw [fractionText, if_neg none] at back whole
    simp only [List.cons_append, List.length_cons] at whole
    obtain ⟨inside, mark, back⟩ := startsWith_cons.mp back
    have point : s.skipWhile isDigit 0 = n.whole.length := by
      rw [text, fractionText, if_neg none, plain_append] at stands
      rw [skipWhile_of_run (isDigit_of_mem_plain proper.whole) (by decide) stands, length_plain,
        Nat.zero_add]
    have hasPoint : s.holds n.whole.length '.' = true := holds_iff.mpr ⟨inside, mark⟩
    have stop : s.skipWhile isDigit (n.whole.length + 1) = n.whole.length + 1 + n.fraction.length :=
      skipWhile_before_exponent proper.fraction back (by omega)
    have parts :
        s.startsWith (n.whole.length + 1) (plain n.fraction ++ plain n.exponentText) = true := by
      rw [← plain_append]
      exact back
    obtain ⟨middle, rest⟩ := startsWith_append.mp parts
    have second := digitsValue_of_digits proper.fraction middle (Nat.ofDigitChars 10 n.whole 0)
    rw [length_plain] at rest
    rw [List.length_append] at whole
    have last := proper.scanExponent rest (by omega)
    simp only [point, hasPoint, Nat.sub_zero, first, if_true, stop, Nat.add_sub_cancel_left, second,
      last]
    rw [if_neg (by omega)]

/-- A figure is made of digits and a few signs. -/
theorem Proper.char_of_mem_text (proper : n.Proper) {c : Char} (mem : c ∈ n.text) :
    c.isDigit = true ∨ c ∈ ['.', 'e', '+', '-'] := by
  rw [text, fractionText, exponentText] at mem
  rcases List.mem_append.mp mem with mem | mem
  · exact .inl (proper.whole c mem)
  rcases List.mem_append.mp mem with mem | mem
  · split at mem
    · cases mem
    · rcases List.mem_cons.mp mem with rfl | mem
      · exact .inr (by decide)
      · exact .inl (proper.fraction c mem)
  · cases exponent : n.exponent with
    | none =>
      rw [exponent] at mem
      cases mem
    | some e =>
      rw [exponent] at mem
      rcases List.mem_cons.mp mem with rfl | mem
      · exact .inr (by decide)
      · rcases List.mem_cons.mp mem with rfl | mem
        · right
          cases e.1 <;> decide
        · exact .inl ((proper.exponent e.1 e.2 exponent).2.2 c mem)

/-- The characters of a figure take one byte each, and none of them marks
hexadecimal digits. -/
theorem Proper.byte_of_mem_text (proper : n.Proper) {c : Char} (mem : c ∈ n.text) :
    c.toNat < 128 ∧ ((c.toUInt8 ||| 0x20) == 0x78) = false := by
  rcases proper.char_of_mem_text mem with digit | sign
  · have byte := (isDigit_toUInt8 digit).1
    simp only [Char.isDigit, Bool.and_eq_true, decide_eq_true_eq] at digit
    have high : c.toNat ≤ 57 := UInt32.le_iff_toNat_le.mp digit.2
    refine ⟨by omega, ?_⟩
    generalize c.toUInt8 = b at byte
    revert byte
    exact forall_byte (P := fun b => isDigit b = true → ((b ||| 0x20) == 0x78) = false)
      (by decide +kernel) b
  · simp only [List.mem_cons, List.not_mem_nil, or_false] at sign
    rcases sign with rfl | rfl | rfl | rfl <;> decide

/-- The scanner reads a figure to its end and rounds what it stands for. -/
theorem Proper.scanNumber (proper : n.Proper) :
    (ofBytes (String.ofList n.text).toUTF8).scanNumber 0
      = (Binary64.ofDecimal n.coefficient n.scale, (String.ofList n.text).toUTF8.size) := by
  rw [toUTF8_eq_plain fun c mem => (proper.byte_of_mem_text mem).1]
  have length : n.text.length = (ofBytes ⟨(plain n.text).toArray⟩).length := by
    show _ = (plain n.text).toArray.size
    rw [List.size_toArray, length_plain]
  have stands : (ofBytes ⟨(plain n.text).toArray⟩).startsWith 0 (plain n.text) = true :=
    startsWith_self ⟨(plain n.text).toArray⟩
  have scanned := proper.scanDecimal stands length
  rw [Source.scanNumber, if_neg, scanned]
  · rfl
  · -- the second byte is no mark of hexadecimal digits
    intro hex
    simp only [Bool.and_eq_true, decide_eq_true_eq] at hex
    have found : (plain n.text)[1]? = some ((ofBytes ⟨(plain n.text).toArray⟩).byte (0 + 1)) := by
      conv => lhs; rw [eq_bytesAt_of_startsWith stands]
      exact getElem?_bytesAt (by rw [length_plain]; omega)
    obtain ⟨c, mem, same⟩ := List.mem_map.mp (List.mem_of_getElem? found)
    have other := (proper.byte_of_mem_text mem).2
    rw [same, hex.1.2] at other
    cases other

end Figure

/-! ## Layouts -/

namespace Decimal

variable {d : Decimal}

/-- The digits of a number end with zeros that are left out. -/
theorem exists_toDigits_eq (d : Decimal) :
    ∃ zeros, Nat.toDigits 10 d.coefficient = d.digits ++ List.replicate zeros '0' := by
  refine ⟨((Nat.toDigits 10 d.coefficient).reverse.takeWhile (· == '0')).length, ?_⟩
  have zeros : ((Nat.toDigits 10 d.coefficient).reverse.takeWhile (· == '0')).reverse
      = List.replicate
        ((Nat.toDigits 10 d.coefficient).reverse.takeWhile (· == '0')).length '0' := by
    rw [List.eq_replicate_iff]
    refine ⟨List.length_reverse, fun c mem => ?_⟩
    have := List.mem_takeWhile_imp (List.mem_reverse.mp mem)
    simpa using this
  rw [digits, ← zeros, ← List.reverse_append, List.takeWhile_append_dropWhile, List.reverse_reverse]

theorem isDigit_of_mem_digits {c : Char} (mem : c ∈ d.digits) : c.isDigit = true := by
  obtain ⟨zeros, all⟩ := d.exists_toDigits_eq
  refine Nat.isDigit_of_mem_toDigits (by decide) (Nat.le_refl 10) (n := d.coefficient) ?_
  rw [all]
  exact List.mem_append_left _ mem

theorem digits_ne_nil (positive : 0 < d.coefficient) : d.digits ≠ [] := by
  intro none
  obtain ⟨zeros, all⟩ := d.exists_toDigits_eq
  have value := Nat.ofDigitChars_ten_toDigits (n := d.coefficient)
  rw [all, none, List.nil_append, Nat.ofDigitChars_replicate_zero, Nat.mul_zero] at value
  omega

/-- A decimal by its digits and the exponent of the leading one. -/
theorem toRat_eq (d : Decimal) :
    d.toRat = Nat.ofDigitChars 10 d.digits 0 * 10 ^ (d.leading + 1 - d.digits.length) := by
  obtain ⟨zeros, all⟩ := d.exists_toDigits_eq
  have value := Nat.ofDigitChars_ten_toDigits (n := d.coefficient)
  rw [all, Nat.ofDigitChars_append, Nat.ofDigitChars_replicate_zero] at value
  rw [leading, all, List.length_append, List.length_replicate, toRat, ← value]
  push_cast
  rw [show d.exponent + (d.digits.length + zeros : Int) - 1 + 1 - d.digits.length
      = (zeros : Int) + d.exponent by ring, zpow_add₀ (by norm_num), zpow_natCast]
  ring

/-- The parts of the positional text. -/
def plainFigure (d : Decimal) : Figure :=
  if d.leading < 0 then
    ⟨['0'], List.replicate (-d.leading - 1).toNat '0' ++ d.digits, none⟩
  else if d.digits.length ≤ d.leading.toNat + 1 then
    ⟨d.digits ++ List.replicate (d.leading.toNat + 1 - d.digits.length) '0', [], none⟩
  else ⟨d.digits.take (d.leading.toNat + 1), d.digits.drop (d.leading.toNat + 1), none⟩

/-- The parts of the text with an exponent. -/
def scientificFigure (d : Decimal) : Figure :=
  let exponent := Nat.toDigits 10 d.leading.natAbs
  ⟨d.digits.take 1, d.digits.drop 1,
    some (decide (d.leading < 0), if exponent.length < 2 then '0' :: exponent else exponent)⟩

theorem plain_eq (positive : 0 < d.coefficient) : d.plain = String.ofList d.plainFigure.text := by
  have some := digits_ne_nil positive
  unfold plain plainFigure
  by_cases below : d.leading < 0
  · simp [Figure.text, Figure.fractionText, Figure.exponentText, some, below]
  · by_cases few : d.digits.length ≤ d.leading.toNat + 1
    · simp [Figure.text, Figure.fractionText, Figure.exponentText, below, few]
    · have rest : d.digits.drop (d.leading.toNat + 1) ≠ [] := by
        rw [Ne, List.drop_eq_nil_iff]
        exact few
      simp only [Figure.text, Figure.fractionText, Figure.exponentText, if_neg below, if_neg few,
        if_neg rest, List.append_nil]

theorem scientific_eq (d : Decimal) : d.scientific = String.ofList d.scientificFigure.text := by
  simp only [scientific, scientificFigure, Figure.text, Figure.fractionText, Figure.exponentText,
    List.isEmpty_iff, decide_eq_true_eq, List.append_assoc, List.cons_append, List.nil_append]
  rfl

theorem proper_plainFigure (positive : 0 < d.coefficient) : d.plainFigure.Proper := by
  have some := digits_ne_nil positive
  have zero : ∀ {n : Nat}, ∀ c ∈ List.replicate n '0', c.isDigit = true := by
    intro n c mem
    rw [List.eq_of_mem_replicate mem]
    rfl
  have mixed : ∀ {l₁ l₂ : List Char}, (∀ c ∈ l₁, c.isDigit = true) → (∀ c ∈ l₂, c.isDigit = true) →
      ∀ c ∈ l₁ ++ l₂, c.isDigit = true := by
    intro l₁ l₂ first second c mem
    exact (List.mem_append.mp mem).elim (first c) (second c)
  unfold plainFigure
  split
  · exact ⟨by simp, by simp, mixed zero fun c => isDigit_of_mem_digits, nofun⟩
  · split
    · exact ⟨by simp [some], mixed (fun c => isDigit_of_mem_digits) zero, nofun, nofun⟩
    · refine ⟨?_, fun c mem => isDigit_of_mem_digits (List.mem_of_mem_take mem),
        fun c mem => isDigit_of_mem_digits (List.mem_of_mem_drop mem), nofun⟩
      simp [some]

theorem proper_scientificFigure (positive : 0 < d.coefficient) (short : d.leading.natAbs < 10 ^ 4) :
    d.scientificFigure.Proper := by
  have few := (Nat.length_toDigits_le_iff (b := 10) (by decide) (show 0 < 4 by decide)).mpr short
  have digits : ∀ c ∈ Nat.toDigits 10 d.leading.natAbs, c.isDigit = true :=
    fun c => Nat.isDigit_of_mem_toDigits (by decide) (Nat.le_refl 10)
  refine ⟨?_, fun c mem => isDigit_of_mem_digits (List.mem_of_mem_take mem),
    fun c mem => isDigit_of_mem_digits (List.mem_of_mem_drop mem), ?_⟩
  · simp [scientificFigure, digits_ne_nil positive]
  · rintro negative ds ⟨⟩
    split
    · exact ⟨by simp, by simp; omega, List.forall_mem_cons.mpr ⟨rfl, digits⟩⟩
    · exact ⟨Nat.toDigits_ne_nil, few, digits⟩

/-- The positional text stands for the number. -/
theorem toRat_plainFigure (d : Decimal) : d.plainFigure.toRat = d.toRat := by
  rw [toRat_eq, plainFigure]
  split
  · next below =>
    simp only [Figure.toRat, Figure.coefficient, Figure.scale, Figure.power, List.length_append,
      List.length_replicate, Nat.ofDigitChars_append, Nat.ofDigitChars_replicate_zero]
    congr 2
    push_cast
    omega
  · split
    · next few =>
      simp only [Figure.toRat, Figure.coefficient, Figure.scale, Figure.power, List.length_nil,
        List.append_nil, Nat.ofDigitChars_append, Nat.ofDigitChars_replicate_zero]
      rw [show d.leading + 1 - d.digits.length = ((d.leading.toNat + 1 - d.digits.length : Nat) :
        Int) by
        omega, zpow_natCast]
      push_cast
      simp [mul_comm]
    · next many =>
      simp only [Figure.toRat, Figure.coefficient, Figure.scale, Figure.power, List.take_append_drop,
        List.length_drop]
      congr 2
      omega

/-- The text with an exponent stands for the number. -/
theorem toRat_scientificFigure (positive : 0 < d.coefficient) :
    d.scientificFigure.toRat = d.toRat := by
  have some : 0 < d.digits.length := List.length_pos_iff.mpr (digits_ne_nil positive)
  have power : d.scientificFigure.power = d.leading := by
    have value : ∀ n, Nat.ofDigitChars 10 (if (Nat.toDigits 10 n).length < 2
        then '0' :: Nat.toDigits 10 n else Nat.toDigits 10 n) 0 = n := by
      intro n
      split
      · exact Nat.ofDigitChars_ten_toDigits
      · exact Nat.ofDigitChars_ten_toDigits
    simp only [scientificFigure, Figure.power, value, decide_eq_true_eq]
    split <;> omega
  rw [toRat_eq, Figure.toRat, Figure.coefficient, Figure.scale, power]
  simp only [scientificFigure, List.take_append_drop, List.length_drop]
  congr 2
  omega

end Decimal

/-! ## Texts of numbers -/

namespace Number

open Binary64

variable {bits : UInt64}

/-- A figure reads back as the double that admits what it stands for. -/
theorem scanNumber_of_admits (finite : isFinite bits = true) (plus : isNegative bits = false)
    (positive : 0 < (decode bits).mantissa) {n : Figure} (proper : n.Proper)
    (admits : (decode bits).Admits n.toRat) :
    (Source.ofBytes (String.ofList n.text).toUTF8).scanNumber 0
      = (bits, (String.ofList n.text).toUTF8.size) := by
  rw [proper.scanNumber, ofDecimal_of_admits finite plus positive admits]

/-- Both layouts of a decimal read back as the double that admits it. -/
theorem scanNumber_layout (finite : isFinite bits = true) (plus : isNegative bits = false)
    (positive : 0 < (decode bits).mantissa) {d : Decimal} (admits : (decode bits).Admits d.toRat) :
    (Source.ofBytes d.plain.toUTF8).scanNumber 0 = (bits, d.plain.toUTF8.size)
      ∧ (Source.ofBytes d.scientific.toUTF8).scanNumber 0 = (bits, d.scientific.toUTF8.size) := by
  obtain ⟨d_pos, above, below⟩ := digits_of_admits finite positive admits
  have short : d.leading.natAbs < 10 ^ 4 := by
    rw [Decimal.leading]
    omega
  constructor
  · rw [Decimal.plain_eq d_pos]
    exact scanNumber_of_admits finite plus positive (Decimal.proper_plainFigure d_pos)
      (d.toRat_plainFigure ▸ admits)
  · rw [Decimal.scientific_eq]
    exact scanNumber_of_admits finite plus positive (Decimal.proper_scientificFigure d_pos short)
      (Decimal.toRat_scientificFigure d_pos ▸ admits)

/-- The text of a number that is not negative is a literal that is scanned to its
end and has the same pattern. -/
theorem text_reads_back (finite : isFinite bits = true) (plus : isNegative bits = false) :
    (Source.ofBytes (text bits).toUTF8).scanNumber 0 = (bits, (text bits).toUTF8.size) := by
  unfold text
  simp only [finite, plus, Bool.not_true, Bool.false_eq_true, if_false]
  split
  · next zero =>
    have none : bits.toNat = 0 := by
      have sum := toNat_eq_of_decode plus
      have field : exponentField bits = 0 := by
        by_contra normal
        rw [decode, if_neg normal] at zero
        dsimp only at zero
        omega
      rw [zero, decode, if_pos field] at sum
      simpa using sum
    obtain rfl : bits = 0 := UInt64.toNat_inj.mp none
    decide +kernel
  · next some =>
    have positive : 0 < (decode bits).mantissa := Nat.pos_of_ne_zero some
    have canonical := canonical_decode positive
    have most := exponent_le_of_isFinite finite
    have rounded := scanNumber_layout finite plus positive (Decimal.admits_rounded canonical most)
    have shortest := scanNumber_layout finite plus positive (Decimal.admits_shortest canonical most)
    split
    · split
      · exact rounded.1
      · exact rounded.2
    · split
      · exact shortest.1
      · exact shortest.2

/-- The least double of all reads back from a single digit. -/
theorem least_reads_back : isFinite 1 = true ∧ isNegative 1 = false ∧ text 1 = "5e-324"
    ∧ (Source.ofBytes (text 1).toUTF8).scanNumber 0 = (1, (text 1).toUTF8.size) :=
  ⟨by decide, by decide, by decide +kernel, text_reads_back (by decide) (by decide)⟩

end Number

end ArenaScript
