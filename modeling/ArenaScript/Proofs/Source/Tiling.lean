import ArenaScript.Engine.Scanning
import ArenaScript.Proofs.Source.Quotation
import ArenaScript.Proofs.Source.Windows

/-!
# Tokens tile a text

The tokens of a text follow each other with nothing but blanks and comments in
between.  Each of them is the longest of its kind that stands at its place: signs
among the operators of the language, words among the runs of name bytes, numbers
among the literals with a fraction and an exponent, or with hexadecimal digits.

Main definitions:

- `Source.IsOperator`, `Source.IsName`, `Source.Decimal`, `Source.Hexadecimal`: the
  kinds of lexemes.
- `Source.Longest`: the longest lexeme of a kind at a position.
- `Source.Tiles`: tokens one after the other up to the end.
- `Engine.ReadsTokens`: the tokens an engine reads when it uses up each of them.

Main results:

- `Source.greedy_scanAt`: a token is the longest of its kind.
- `Source.tiles_lexemes`: the tokens of a text tile it.
- `Engine.tokens_tile_text`: so do the tokens that an engine reads.
-/

namespace ArenaScript

namespace Source

/-! ## Kinds of lexemes -/

/-- The operators and the punctuation. -/
def operators : List String :=
  ["?", ":", "(", ")", "\x7b", "\x7d", ";", ",", ".", "~", "!", "!==", "-", "--", "-=", "+", "++",
    "+=", "*", "**", "*=", "/", "/=", "%", "%=", "&", "&&", "&=", "|", "||", "|=", "=", "===", "^",
    "^=", "<", "<<", "<<=", "<=", ">", ">>", ">>=", ">>>", ">>>=", ">="]

/-- The bytes of an operator. -/
def IsOperator (w : List UInt8) : Prop := ∃ o ∈ operators, o.toUTF8.toList = w

/-- A run of name bytes, the first of which is no digit. -/
inductive IsName : List UInt8 → Prop
  | intro {b : UInt8} {bs : List UInt8} (first : isNameStart b = true)
      (others : ∀ c ∈ bs, isNameByte c = true) : IsName (b :: bs)

/-- The digits after a point, if there is one. -/
inductive Fraction : List UInt8 → Prop
  | none : Fraction []
  | digits {ds : List UInt8} (digits : ∀ d ∈ ds, isDigit d = true) : Fraction (0x2e :: ds)

/-- A signed number of digits after its mark, if there is one. -/
inductive Exponent : List UInt8 → Prop
  | none : Exponent []
  | digits {mark : UInt8} {sign ds : List UInt8} (marked : mark = 0x65 ∨ mark = 0x45)
      (signed : sign = [] ∨ sign = [0x2b] ∨ sign = [0x2d]) (some : ds ≠ [])
      (digits : ∀ d ∈ ds, isDigit d = true) : Exponent (mark :: (sign ++ ds))

/-- A number in decimal digits. -/
inductive Decimal : List UInt8 → Prop
  | intro {ds fraction exponent : List UInt8} (some : ds ≠ []) (digits : ∀ d ∈ ds, isDigit d = true)
      (fractional : Fraction fraction) (scaled : Exponent exponent) :
      Decimal (ds ++ (fraction ++ exponent))

/-- A number in hexadecimal digits. -/
inductive Hexadecimal : List UInt8 → Prop
  | intro {mark : UInt8} {ds : List UInt8} (marked : mark = 0x78 ∨ mark = 0x58) (some : ds ≠ [])
      (digits : ∀ d ∈ ds, isHexDigit d = true) : Hexadecimal (0x30 :: mark :: ds)

/-- Of the lexemes of a kind that stand at a position, the longest has a length. -/
def Longest (s : Source) (kind : List UInt8 → Prop) (i n : Nat) : Prop :=
  (∃ w, kind w ∧ s.startsWith i w = true ∧ w.length = n)
    ∧ ∀ w, kind w → s.startsWith i w = true → w.length ≤ n

/-- No lexeme of a kind stands at a position. -/
def Lacks (s : Source) (kind : List UInt8 → Prop) (i : Nat) : Prop :=
  ∀ w, kind w → s.startsWith i w = false

/-! ## Stretches of bytes -/

/-- The bytes of a stretch. -/
def bytesAt (s : Source) : (i : Nat) → (n : Nat) → List UInt8
  | _, 0 => []
  | i, n + 1 => s.byte i :: bytesAt s (i + 1) n

variable {s : Source} {p : UInt8 → Bool} {i n : Nat} {b : UInt8} {w rest : List UInt8}

theorem length_bytesAt (s : Source) (i n : Nat) : (s.bytesAt i n).length = n := by
  induction n generalizing i with
  | zero => rfl
  | succ n ih => rw [bytesAt, List.length_cons, ih]

theorem startsWith_bytesAt (inside : i + n ≤ s.length) : s.startsWith i (s.bytesAt i n) = true := by
  induction n generalizing i with
  | zero => rfl
  | succ n ih => exact startsWith_cons.mpr ⟨by omega, rfl, ih (by omega)⟩

theorem bytesAt_add (s : Source) (i n m : Nat) :
    s.bytesAt i (n + m) = s.bytesAt i n ++ s.bytesAt (i + n) m := by
  induction n generalizing i with
  | zero => rw [Nat.zero_add]; rfl
  | succ n ih =>
    rw [Nat.add_right_comm, bytesAt, bytesAt, ih, List.cons_append, Nat.add_assoc i 1 n,
      Nat.add_comm 1 n]

/-- What stands at a position is the stretch there. -/
theorem eq_bytesAt_of_startsWith (starts : s.startsWith i w = true) : w = s.bytesAt i w.length := by
  induction w generalizing i with
  | nil => rfl
  | cons b w ih =>
    obtain ⟨-, byte, later⟩ := startsWith_cons.mp starts
    rw [List.length_cons, bytesAt, byte, ← ih later]

theorem getElem?_bytesAt {k : Nat} (less : k < n) : (s.bytesAt i n)[k]? = some (s.byte (i + k)) := by
  induction n generalizing i k with
  | zero => cases less
  | succ n ih =>
    cases k with
    | zero => rfl
    | succ k =>
      rw [bytesAt, List.getElem?_cons_succ, ih (by omega), Nat.add_assoc, Nat.add_comm 1 k]

/-- A part of a text as the stretch of its bytes. -/
theorem slice_eq_bytesAt (valid : s.start + s.length ≤ s.bytes.size) (inside : i + n ≤ s.length) :
    s.slice i n = ⟨(s.bytesAt i n).toArray⟩ := by
  have size : (s.slice i n).size = n := by
    rw [slice, ByteArray.size_extract]
    omega
  apply ByteArray.ext_getElem
  · show _ = (s.bytesAt i n).toArray.size
    rw [List.size_toArray, length_bytesAt, size]
  · intro k less less'
    have small : k < n := by omega
    have here : (s.bytesAt i n)[k]? = some (s.bytes.get! (s.start + i + k)) := by
      rw [getElem?_bytesAt small, byte, if_pos ⟨by omega, by omega⟩, Nat.add_assoc]
    rw [← Arena.get!_eq_getElem, slice, Arena.get!_extract _ _ _ _ (by omega) small]
    exact (List.getElem?_eq_some_iff.mp here).2.symm

theorem bytesAt_ne_nil (some : 0 < n) : s.bytesAt i n ≠ [] := by
  rw [← List.length_pos_iff, length_bytesAt]
  exact some

/-! ## Runs of bytes -/

/-- All bytes that are passed over have the property. -/
theorem run_of_skipWhile : ∀ b ∈ s.bytesAt i (s.skipWhile p i - i), p b = true := by
  induction left : s.skipWhile p i - i generalizing i with
  | zero => exact nofun
  | succ left ih =>
    rw [skipWhile_eq] at left
    split at left
    next here =>
      simp only [Bool.and_eq_true] at here
      exact List.forall_mem_cons.mpr ⟨here.2, ih (by omega)⟩
    next => omega

/-- A run is passed over, at least. -/
theorem le_skipWhile_of_run (run : ∀ b ∈ w, p b = true) (starts : s.startsWith i w = true) :
    i + w.length ≤ s.skipWhile p i := by
  induction w generalizing i with
  | nil => exact le_skipWhile s p i
  | cons b w ih =>
    obtain ⟨inside, rfl, later⟩ := startsWith_cons.mp starts
    rw [skipWhile_eq, if_pos (by simp [inside, run _ (List.mem_cons_self ..)]), List.length_cons]
    have := ih (fun b mem => run b (List.mem_cons_of_mem _ mem)) later
    omega

/-- A run is passed over up to the first byte that does not belong to it. -/
theorem skipWhile_of_run (run : ∀ b ∈ w, p b = true) (stops : p b = false)
    (starts : s.startsWith i (w ++ b :: rest) = true) : s.skipWhile p i = i + w.length := by
  induction w generalizing i with
  | nil =>
    obtain ⟨-, rfl, -⟩ := startsWith_cons.mp starts
    rw [skipWhile_eq, stops]
    simp
  | cons c w ih =>
    obtain ⟨inside, rfl, later⟩ := startsWith_cons.mp starts
    rw [skipWhile_eq, if_pos (by simp [inside, run _ (List.mem_cons_self ..)]),
      ih (fun b mem => run b (List.mem_cons_of_mem _ mem)) later, List.length_cons]
    omega

theorem holds_iff {c : Char} : s.holds i c = true ↔ i < s.length ∧ s.byte i = c.toUInt8 := by
  simp only [holds, Bool.and_eq_true, decide_eq_true_eq, beq_iff_eq]

/-- What holds of all byte values holds of a byte. -/
theorem forall_byte {P : UInt8 → Prop} (all : ∀ n : Fin 256, P (.ofNat n)) (b : UInt8) : P b := by
  have found := all ⟨b.toNat, b.toNat_lt⟩
  rwa [show UInt8.ofNat (⟨b.toNat, b.toNat_lt⟩ : Fin 256) = b from UInt8.ofNat_toNat] at found

/-- The mark of an exponent is a letter of either case. -/
theorem exponentMark_iff (b : UInt8) : ((b ||| 0x20) == 0x65) = true ↔ b = 0x65 ∨ b = 0x45 :=
  forall_byte (P := fun b => ((b ||| 0x20) == 0x65) = true ↔ b = 0x65 ∨ b = 0x45)
    (by decide +kernel) b

/-- The mark of hexadecimal digits is a letter of either case. -/
theorem hexMark_iff (b : UInt8) : ((b ||| 0x20) == 0x78) = true ↔ b = 0x78 ∨ b = 0x58 :=
  forall_byte (P := fun b => ((b ||| 0x20) == 0x78) = true ↔ b = 0x78 ∨ b = 0x58)
    (by decide +kernel) b

/-! ## Signs -/

/-- Longer signs come before shorter ones. -/
theorem signTable_sorted : signTable.Pairwise fun x y => y.1.length ≤ x.1.length := by
  decide +kernel

/-- The signs of the table are the operators. -/
theorem isOperator_iff : IsOperator w ↔ ∃ sign ∈ signTable, sign.1 = w := by
  have there : ∀ o ∈ operators, ∃ sign ∈ signTable, sign.1 = o.toUTF8.toList := by decide +kernel
  have back : ∀ sign ∈ signTable, ∃ o ∈ operators, o.toUTF8.toList = sign.1 := by decide +kernel
  constructor
  · rintro ⟨o, mem, rfl⟩
    exact there o mem
  · rintro ⟨sign, mem, rfl⟩
    exact back sign mem

/-- The sign that is found is the longest operator. -/
theorem longest_findSign? {sign : List UInt8 × Token} (found : s.findSign? i = some sign) :
    s.Longest IsOperator i sign.1.length := by
  obtain ⟨starts, before, after, table, none⟩ := List.find?_eq_some_iff_append.mp found
  have mem := List.mem_of_find?_eq_some found
  refine ⟨⟨sign.1, isOperator_iff.mpr ⟨sign, mem, rfl⟩, starts, rfl⟩, fun w operator stands => ?_⟩
  obtain ⟨other, mem', rfl⟩ := isOperator_iff.mp operator
  have sorted := signTable_sorted
  rw [table] at mem' sorted
  rcases List.mem_append.mp mem' with early | late
  · have absent : (!s.startsWith i other.1) = true := none other early
    rw [stands] at absent
    cases absent
  · rcases List.mem_cons.mp late with rfl | late
    · exact Nat.le_refl _
    · exact (List.pairwise_cons.mp (List.pairwise_append.mp sorted).2.1).1 other late

theorem lacks_of_findSign?_eq_none (absent : s.findSign? i = none) : s.Lacks IsOperator i := by
  intro w operator
  obtain ⟨sign, mem, rfl⟩ := isOperator_iff.mp operator
  simpa using List.find?_eq_none.mp absent sign mem

/-! ## Words -/

theorem longest_name (inside : i < s.length) (start : isNameStart (s.byte i) = true) :
    s.Longest IsName i (s.skipWhile isNameByte (i + 1) - i) := by
  have order := s.le_skipWhile isNameByte (i + 1)
  have top := s.skipWhile_le isNameByte (i := i + 1) inside
  constructor
  · refine ⟨s.byte i :: s.bytesAt (i + 1) (s.skipWhile isNameByte (i + 1) - (i + 1)),
      .intro start run_of_skipWhile, ?_, ?_⟩
    · exact startsWith_cons.mpr ⟨inside, rfl, startsWith_bytesAt (by omega)⟩
    · rw [List.length_cons, length_bytesAt]
      omega
  · intro w name stands
    cases name with
    | intro first others =>
      obtain ⟨-, -, stands⟩ := startsWith_cons.mp stands
      have := le_skipWhile_of_run others stands
      rw [List.length_cons]
      omega

/-! ## Numbers -/

/-- The end of a fraction at a position. -/
def fractionStop (s : Source) (i : Nat) : Nat :=
  if s.holds i '.' then s.skipWhile isDigit (i + 1) else i

theorem scanDecimal_stop (s : Source) (i : Nat) :
    (s.scanDecimal i).2 = (s.scanExponent (s.fractionStop (s.skipWhile isDigit i))).2 := by
  rw [Window.scanDecimal_form, fractionStop]
  dsimp only [Window.fractionAt]
  split <;> split <;> rfl

theorem le_fractionStop (s : Source) (i : Nat) : i ≤ s.fractionStop i := by
  have := s.le_skipWhile isDigit (i + 1)
  rw [fractionStop]
  split <;> omega

theorem fractionStop_le (inside : i ≤ s.length) : s.fractionStop i ≤ s.length := by
  rw [fractionStop]
  split
  next point => exact s.skipWhile_le _ (lt_of_holds point)
  next => exact inside

/-- The stretch of a fraction is one. -/
theorem fraction_bytesAt (s : Source) (i : Nat) : Fraction (s.bytesAt i (s.fractionStop i - i)) := by
  rw [fractionStop]
  split
  next point =>
    have order := s.le_skipWhile isDigit (i + 1)
    rw [show s.skipWhile isDigit (i + 1) - i = (s.skipWhile isDigit (i + 1) - (i + 1)) + 1 by omega,
      bytesAt, (holds_iff.mp point).2]
    exact .digits run_of_skipWhile
  next =>
    rw [Nat.sub_self]
    exact .none

/-- The stretch of an exponent is one. -/
theorem exponent_bytesAt (s : Source) (i : Nat) :
    Exponent (s.bytesAt i ((s.scanExponent i).2 - i)) := by
  rw [Window.scanExponent_form]
  split
  next whole =>
    simp only [Window.hasExponent, Bool.and_eq_true, decide_eq_true_eq] at whole
    obtain ⟨⟨inside, mark⟩, first, digit⟩ := whole
    have up := Window.lt_skipWhile (p := isDigit) (s := s) (i := Window.exponentStart s i)
      (by simp [first, digit])
    have low := Window.lt_exponentStart s i
    show Exponent (s.bytesAt i (s.skipWhile isDigit (Window.exponentStart s i) - i))
    -- the mark, the sign if there is one, and the digits
    rw [show s.skipWhile isDigit (Window.exponentStart s i) - i
        = ((Window.exponentStart s i - (i + 1))
          + (s.skipWhile isDigit (Window.exponentStart s i) - Window.exponentStart s i)) + 1
            by omega,
      bytesAt, bytesAt_add, show i + 1 + (Window.exponentStart s i - (i + 1))
        = Window.exponentStart s i by omega]
    refine .digits ((exponentMark_iff _).mp mark) ?_ (bytesAt_ne_nil (by omega)) run_of_skipWhile
    rw [Window.exponentStart]
    split
    next signed =>
      rw [show i + 2 - (i + 1) = 1 by omega]
      rcases Bool.or_eq_true _ _ |>.mp signed with plus | minus
      · exact .inr (.inl (by rw [bytesAt, bytesAt, (holds_iff.mp plus).2]; rfl))
      · exact .inr (.inr (by rw [bytesAt, bytesAt, (holds_iff.mp minus).2]; rfl))
    next =>
      rw [Nat.sub_self]
      exact .inl rfl
  next =>
    rw [Nat.sub_self]
    exact .none

/-- The exponent at a position goes as far as one that stands there. -/
theorem le_scanExponent_of_exponent (exponent : Exponent w) (stands : s.startsWith i w = true) :
    i + w.length ≤ (s.scanExponent i).2 := by
  cases exponent with
  | none => exact Window.le_scanExponent s i
  | @digits mark sign ds marked signed some digits =>
    obtain ⟨inside, rfl, later⟩ := startsWith_cons.mp stands
    obtain ⟨front, back⟩ := startsWith_append.mp later
    obtain ⟨d, ds, rfl⟩ := List.exists_cons_of_ne_nil some
    obtain ⟨within, first, -⟩ := startsWith_cons.mp back
    have digit := digits d (List.mem_cons_self ..)
    -- a digit is no sign, so that the sign of the exponent is the one that is found
    have start : Window.exponentStart s i = i + 1 + sign.length := by
      rw [Window.exponentStart]
      rcases signed with rfl | rfl | rfl
      · rw [if_neg]
        · rfl
        · simp only [Bool.or_eq_true, holds_iff, not_or, not_and]
          rw [show i + 1 = i + 1 + ([] : List UInt8).length from rfl, first]
          constructor
          all_goals
            rintro - rfl
            revert digit
            decide
      · obtain ⟨here, plus, -⟩ := startsWith_cons.mp front
        rw [if_pos]
        · rfl
        · simp only [Bool.or_eq_true, holds_iff]
          exact .inl ⟨here, plus⟩
      · obtain ⟨here, minus, -⟩ := startsWith_cons.mp front
        rw [if_pos]
        · rfl
        · simp only [Bool.or_eq_true, holds_iff]
          exact .inr ⟨here, minus⟩
    have whole : Window.hasExponent s i = true := by
      simp only [Window.hasExponent, Bool.and_eq_true, decide_eq_true_eq, start]
      exact ⟨⟨inside, (exponentMark_iff _).mpr marked⟩, within, by rw [first]; exact digit⟩
    have run := le_skipWhile_of_run digits back
    rw [Window.scanExponent_form, if_pos whole, start, List.length_cons, List.length_append]
    show _ ≤ s.skipWhile isDigit (i + 1 + sign.length)
    omega

/-- An exponent does not start with a digit or a point. -/
theorem Exponent.first_byte (exponent : Exponent w) :
    w = [] ∨ ∃ b rest, w = b :: rest ∧ isDigit b = false ∧ b ≠ 0x2e := by
  cases exponent with
  | none => exact .inl rfl
  | digits marked => exact .inr ⟨_, _, rfl, by rcases marked with rfl | rfl <;> decide⟩

/-- The fraction at a position goes as far as one that stands there, with what comes after it. -/
theorem le_scanExponent_of_fraction {exponent : List UInt8} (fraction : Fraction w)
    (scaled : Exponent exponent) (stands : s.startsWith i (w ++ exponent) = true) :
    i + (w ++ exponent).length ≤ (s.scanExponent (s.fractionStop i)).2 := by
  obtain ⟨front, back⟩ := startsWith_append.mp stands
  cases fraction with
  | none =>
    rcases scaled.first_byte with rfl | ⟨b, rest, rfl, -, other⟩
    · exact Nat.le_trans (s.le_fractionStop i) (Window.le_scanExponent s _)
    · obtain ⟨-, byte, -⟩ := startsWith_cons.mp back
      have start : s.fractionStop i = i := by
        rw [fractionStop, if_neg]
        rw [holds_iff]
        rintro ⟨-, point⟩
        exact other (byte.symm.trans point)
      rw [start]
      exact le_scanExponent_of_exponent scaled stands
  | @digits ds digits =>
    obtain ⟨inside, point, front⟩ := startsWith_cons.mp front
    have start : s.fractionStop i = s.skipWhile isDigit (i + 1) := by
      rw [fractionStop, if_pos (holds_iff (c := '.').mpr ⟨inside, point⟩)]
    rw [start]
    rcases scaled.first_byte with rfl | ⟨b, rest, rfl, stops, -⟩
    · have run := le_skipWhile_of_run digits front
      have last := Window.le_scanExponent s (s.skipWhile isDigit (i + 1))
      simp only [List.append_nil, List.length_cons]
      omega
    · obtain ⟨-, -, stands⟩ := startsWith_cons.mp stands
      have far := le_scanExponent_of_exponent scaled back
      rw [skipWhile_of_run digits stops stands]
      rw [List.length_cons, show i + (ds.length + 1) = i + 1 + ds.length by omega] at far
      simp only [List.length_append, List.length_cons] at far ⊢
      omega

/-- A decimal number is scanned to its end. -/
theorem longest_decimal (inside : i < s.length) (digit : isDigit (s.byte i) = true) :
    s.Longest Decimal i ((s.scanDecimal i).2 - i) := by
  have up : i < s.skipWhile isDigit i := Window.lt_skipWhile (by simp [inside, digit])
  have point := s.skipWhile_le isDigit (Nat.le_of_lt inside)
  have fraction := s.le_fractionStop (s.skipWhile isDigit i)
  have fraction' := fractionStop_le point
  have last := Window.le_scanExponent s (s.fractionStop (s.skipWhile isDigit i))
  have top := s.stops_length.scanExponent_le fraction'
  rw [scanDecimal_stop]
  generalize stop : (s.scanExponent (s.fractionStop (s.skipWhile isDigit i))).2 = j at last top
  constructor
  · refine ⟨s.bytesAt i (j - i), ?_, startsWith_bytesAt (by omega), length_bytesAt ..⟩
    rw [show j - i = (s.skipWhile isDigit i - i) + ((s.fractionStop (s.skipWhile isDigit i)
        - s.skipWhile isDigit i) + (j - s.fractionStop (s.skipWhile isDigit i))) by omega,
      bytesAt_add, bytesAt_add, show i + (s.skipWhile isDigit i - i) = s.skipWhile isDigit i
        by omega,
      show s.skipWhile isDigit i + (s.fractionStop (s.skipWhile isDigit i) - s.skipWhile isDigit i)
        = s.fractionStop (s.skipWhile isDigit i) by omega]
    exact .intro (bytesAt_ne_nil (by omega)) run_of_skipWhile (fraction_bytesAt ..)
      (stop ▸ exponent_bytesAt ..)
  · intro w decimal stands
    cases decimal with
    | @intro ds fr ex some digits fractional scaled =>
      obtain ⟨front, back⟩ := startsWith_append.mp stands
      have run := le_skipWhile_of_run digits front
      -- what follows the digits is no digit, so that they end where the scanner stops
      have parts : (∃ b rest, fr ++ ex = b :: rest ∧ isDigit b = false) ∨ fr ++ ex = [] := by
        cases fractional with
        | digits => exact .inl ⟨_, _, rfl, by decide⟩
        | none =>
          rcases scaled.first_byte with rfl | ⟨b, rest, rfl, stops, -⟩
          · exact .inr rfl
          · exact .inl ⟨b, rest, rfl, stops⟩
      rcases parts with ⟨b, rest, eq, stops⟩ | none
      · have far := le_scanExponent_of_fraction fractional scaled back
        rw [eq] at stands
        rw [← skipWhile_of_run digits stops stands, stop] at far
        have start := skipWhile_of_run digits stops stands
        rw [List.length_append]
        omega
      · rw [none, List.append_nil]
        omega

/-- A number in hexadecimal digits is scanned to its end. -/
theorem longest_hexadecimal (mark : Window.hasHex s i = true) :
    s.Longest Hexadecimal i (s.skipWhile isHexDigit (i + 2) - i) := by
  simp only [Window.hasHex, Bool.and_eq_true, decide_eq_true_eq, holds_iff] at mark
  obtain ⟨⟨⟨inside, zero⟩, mark⟩, digit⟩ := mark
  have up : i + 2 < s.skipWhile isHexDigit (i + 2) := Window.lt_skipWhile (by simp [inside, digit])
  have top := s.skipWhile_le isHexDigit (i := i + 2) (Nat.le_of_lt inside)
  constructor
  · refine ⟨0x30 :: s.byte (i + 1) :: s.bytesAt (i + 2) (s.skipWhile isHexDigit (i + 2) - (i + 2)),
      .intro ((hexMark_iff _).mp mark) (bytesAt_ne_nil (by omega)) run_of_skipWhile, ?_, ?_⟩
    · exact startsWith_cons.mpr ⟨by omega, zero.2, startsWith_cons.mpr ⟨by omega, rfl,
        startsWith_bytesAt (by omega)⟩⟩
    · simp only [List.length_cons, length_bytesAt]
      omega
  · intro w hex stands
    cases hex with
    | intro marked some digits =>
      obtain ⟨-, -, stands⟩ := startsWith_cons.mp stands
      obtain ⟨-, -, stands⟩ := startsWith_cons.mp stands
      have far : i + 2 + _ ≤ _ := le_skipWhile_of_run digits stands
      simp only [List.length_cons]
      omega

theorem lacks_hexadecimal (mark : Window.hasHex s i = false) : s.Lacks Hexadecimal i := by
  intro w hex
  rw [Bool.eq_false_iff]
  intro stands
  cases hex with
  | intro marked some digits =>
    obtain ⟨-, zero, stands⟩ := startsWith_cons.mp stands
    obtain ⟨-, rfl, later⟩ := startsWith_cons.mp stands
    obtain ⟨d, ds, rfl⟩ := List.exists_cons_of_ne_nil some
    obtain ⟨inside, digit, -⟩ := startsWith_cons.mp later
    rw [← Bool.not_eq_true] at mark
    refine mark ?_
    simp only [Window.hasHex, Bool.and_eq_true, decide_eq_true_eq, holds_iff]
    exact ⟨⟨⟨inside, by omega, zero⟩, (hexMark_iff _).mpr marked⟩,
      digit ▸ digits d (List.mem_cons_self ..)⟩

/-! ## Tokens -/

/-- A token is the longest of its kind that stands at its place. -/
structure Lexeme.Greedy (s : Source) (l : Lexeme) : Prop where
  /-- A sign is the longest operator, and the token is that of the operator. -/
  sign : l.token.isSign = true → s.Longest IsOperator l.start l.length
    ∧ ∃ w, (w, l.token) ∈ signs ∧ w.toUTF8 = s.slice l.start l.length
  /-- A word is the longest run of name bytes, and a keyword just when the run is in
  the table. -/
  word : l.token.isWord = true → s.Longest IsName l.start l.length
    ∧ ((∃ w, (w, l.token) ∈ words ∧ w.toUTF8 = s.slice l.start l.length)
      ∨ l.token = .ident ∧ ∀ w t, (w, t) ∈ words → w.toUTF8 ≠ s.slice l.start l.length)
  /-- A number is the longest one in hexadecimal digits, and without these the longest
  one in decimal digits. -/
  number : l.token = .number → s.Longest Hexadecimal l.start l.length
    ∨ s.Lacks Hexadecimal l.start ∧ s.Longest Decimal l.start l.length

/-- No token starts at a position, neither an operator nor a name, a number or a
string literal. -/
structure Barren (s : Source) (i : Nat) : Prop where
  inside : i < s.length
  operator : s.Lacks IsOperator i
  name : s.Lacks IsName i
  number : s.Lacks Decimal i
  literal : s.Lacks (fun w => ∃ bs, Quotes bs w) i

/-- Tokens one after the other from a position on, up to the end of the text or to a
place where no token starts. -/
inductive Tiles (s : Source) : Nat → List Lexeme → Prop
  | stop {i : Nat} {l : Lexeme} (start : l.start = s.skipBlanks i)
      (last : l.token = .eof ∧ l.start = s.length ∨ l.token = .bad ∧ s.Barren l.start) :
      Tiles s i [l]
  | next {i : Nat} {l : Lexeme} {ls : List Lexeme} (start : l.start = s.skipBlanks i)
      (proper : l.token ≠ .eof ∧ l.token ≠ .bad) (room : 1 ≤ l.length) (inside : l.stop ≤ s.length)
      (greedy : l.Greedy s) (rest : Tiles s l.stop ls) : Tiles s i (l :: ls)

/-- A token is the longest of its kind. -/
theorem greedy_scanAt (valid : s.start + s.length ≤ s.bytes.size) (inside : i < s.length) :
    (s.scanAt i).Greedy s := by
  have scans := scansAt inside
  generalize s.scanAt i = l at scans
  cases scans with
  | string | openString | nothing => exact ⟨nofun, nofun, nofun⟩
  | number digit =>
    refine ⟨nofun, nofun, fun _ => ?_⟩
    by_cases mark : Window.hasHex s i = true
    · have stop : (s.scanNumber i).2 = s.skipWhile isHexDigit (i + 2) :=
        congrArg Prod.snd (if_pos mark)
      rw [stop]
      exact .inl (longest_hexadecimal mark)
    · have stop : (s.scanNumber i).2 = (s.scanDecimal i).2 := congrArg Prod.snd (if_neg mark)
      rw [stop]
      exact .inr ⟨lacks_hexadecimal (Bool.eq_false_iff.mpr mark), longest_decimal inside digit⟩
  | @sign lexeme token found =>
    obtain ⟨sign, w, mem, bytes⟩ := isSign_of_mem (List.mem_of_find?_eq_some found)
    obtain ⟨stands, -⟩ := List.find?_eq_some_iff_append.mp found
    refine ⟨fun _ => ⟨longest_findSign? found, w, mem, ?_⟩, fun word => ?_, fun number => ?_⟩
    · rw [bytes, slice_eq_bytesAt valid (startsWith_le stands (Nat.le_of_lt inside)),
        ← eq_bytesAt_of_startsWith stands]
    · exact absurd sign (Bool.eq_false_iff.mp (Token.isSign_of_isWord word))
    · obtain rfl : token = .number := number
      cases sign
  | word start =>
    obtain ⟨word, table⟩ := wordToken_cases (s.slice i (s.skipWhile isNameByte (i + 1) - i))
    generalize wordToken (s.slice i (s.skipWhile isNameByte (i + 1) - i)) = token at word table
    refine ⟨fun sign => ?_, fun _ => ⟨longest_name inside start, table⟩, fun number => ?_⟩
    · exact absurd sign (Bool.eq_false_iff.mp (Token.isSign_of_isWord word))
    · obtain rfl : token = .number := number
      cases word

/-- A quote starts neither an operator nor a name or a number. -/
theorem lacks_of_quote (quote : s.byte i = 0x22 ∨ s.byte i = 0x27) :
    s.Lacks IsOperator i ∧ s.Lacks IsName i ∧ s.Lacks Decimal i := by
  have other : ∀ o ∈ operators, o.toUTF8.toList.head? ≠ some 0x22 ∧ o.toUTF8.toList.head? ≠ some 0x27
    ∧ o.toUTF8.toList ≠ [] := by decide +kernel
  have first : ∀ {w : List UInt8}, s.startsWith i w = true → w ≠ [] →
      w.head? = some 0x22 ∨ w.head? = some 0x27 := by
    intro w stands some
    obtain ⟨b, w, rfl⟩ := List.exists_cons_of_ne_nil some
    obtain ⟨-, rfl, -⟩ := startsWith_cons.mp stands
    exact quote.imp (congrArg _) (congrArg _)
  refine ⟨?_, ?_, ?_⟩
  all_goals
    intro w kind
    rw [Bool.eq_false_iff]
    intro stands
  · obtain ⟨o, mem, rfl⟩ := kind
    obtain ⟨double, single, some⟩ := other o mem
    exact (first stands some).elim double single
  · cases kind with
    | @intro b bs start =>
      rcases first stands nofun with same | same <;>
      · obtain rfl := Option.some.inj same
        revert start
        decide
  · cases kind with
    | @intro ds fr ex some digits =>
      obtain ⟨d, ds, rfl⟩ := List.exists_cons_of_ne_nil some
      have digit := digits d (List.mem_cons_self ..)
      rcases first stands nofun with same | same <;>
      · obtain rfl := Option.some.inj same
        revert digit
        decide

/-- A place with a bad token has none. -/
theorem barren_of_bad (inside : i < s.length) (bad : (s.scanAt i).token = .bad) : s.Barren i := by
  have scans := scansAt inside
  generalize scanned : s.scanAt i = l at scans bad
  cases scans with
  | string => cases bad
  | number => cases bad
  | sign found =>
    obtain ⟨sign, -⟩ := isSign_of_mem (List.mem_of_find?_eq_some found)
    obtain rfl := bad
    cases sign
  | word =>
    obtain ⟨word, -⟩ := wordToken_cases (s.slice i (s.skipWhile isNameByte (i + 1) - i))
    rw [show wordToken _ = .bad from bad] at word
    cases word
  | openString quote found =>
    obtain ⟨operator, name, number⟩ := lacks_of_quote quote
    refine ⟨inside, operator, name, number, fun w literal => ?_⟩
    obtain ⟨bs, quotes⟩ := literal
    rw [Bool.eq_false_iff]
    intro stands
    have literal := scan_of_quotes quotes stands
    have start : s.skipBlanks i = i := by rw [← scan_start, literal]
    rw [scan, start, if_neg (by omega), scanned] at literal
    cases literal
  | nothing quote digit sign name =>
    refine ⟨inside, lacks_of_findSign?_eq_none sign, fun w kind => ?_, fun w kind => ?_, fun w kind
      => ?_⟩
    all_goals
      rw [Bool.eq_false_iff]
      intro stands
    · cases kind with
      | intro start =>
        obtain ⟨-, rfl, -⟩ := startsWith_cons.mp stands
        rw [name] at start
        cases start
    · cases kind with
      | intro some digits =>
        obtain ⟨d, ds, rfl⟩ := List.exists_cons_of_ne_nil some
        obtain ⟨-, rfl, -⟩ := startsWith_cons.mp stands
        rw [digits _ (List.mem_cons_self ..)] at digit
        cases digit
    · obtain ⟨bs, proper, -⟩ := kind
      obtain ⟨-, rfl, -⟩ := startsWith_cons.mp stands
      exact proper.elim quote.1 quote.2

/-! ## Texts -/

/-- A number token has a value, and no other has. -/
theorem number_scan (s : Source) (i : Nat) :
    ((s.scan i).number.isSome = true ↔ (s.scan i).token = .number) := by
  rcases s.scan_cases i with ⟨-, last⟩ | ⟨-, scans⟩
  · rw [last]
    constructor <;> rintro ⟨⟩
  rcases scans.kinds with ⟨number, value⟩ | ⟨none, kind⟩
  · exact ⟨fun _ => number, fun _ => value⟩
  · rw [none]
    refine ⟨by rintro ⟨⟩, fun number => ?_⟩
    rw [number] at kind
    rcases kind with kind | ⟨kind, -⟩ | kind | kind <;> cases kind

/-- The tokens from a position on tile the rest of the text. -/
theorem tiles_lexemesFrom (valid : s.start + s.length ≤ s.bytes.size) {bound : Nat}
    (inside : i ≤ s.length) (enough : s.length - i < bound) : s.Tiles i (s.lexemesFrom bound i) := by
  induction bound generalizing i with
  | zero => omega
  | succ bound ih =>
    have start := s.scan_start i
    have top : (s.scan i).stop ≤ s.length := s.scan_inside inside
    rw [lexemesFrom]
    split
    next last =>
      refine .stop start ?_
      by_cases stop : s.length ≤ s.skipBlanks i
      · exact .inl ⟨by rw [scan, if_pos stop],
          start.trans (Nat.le_antisymm (s.skipBlanks_le inside) stop)⟩
      · rw [scan, if_neg stop] at last ⊢
        rw [scanAt_start]
        have bad := last.resolve_left (scansAt (by omega)).token_ne_eof
        exact .inr ⟨bad, barren_of_bad (by omega) bad⟩
    next proper =>
      rw [not_or] at proper
      obtain ⟨room, up⟩ := lt_stop_scan proper
      refine .next start proper room top ?_ (ih top (by omega))
      have within : ¬ s.length ≤ s.skipBlanks i := fun past =>
        proper.1 (by rw [scan, if_pos past])
      rw [scan, if_neg within]
      exact greedy_scanAt valid (by omega)

/-- The tokens of a text tile it. -/
theorem tiles_lexemes (valid : s.start + s.length ≤ s.bytes.size) : s.Tiles 0 s.lexemes :=
  tiles_lexemesFrom valid (Nat.zero_le _) (by omega)

end Source

/-- The current token in its place. -/
def Cursor.lexeme (c : Cursor) : Source.Lexeme where
  token := c.token
  start := c.tokenStart
  length := c.tokenLength
  number := if c.token = .number then some c.number else none

theorem Cursor.lexeme_accept (c : Cursor) (s : Source) (i : Nat) :
    (c.accept (s.scan i)).lexeme = s.scan i := by
  have number := s.number_scan i
  generalize s.scan i = l at number
  obtain ⟨token, start, length, value⟩ := l
  cases value with
  | none =>
    have other : token ≠ .number := fun here => nomatch number.mpr here
    simp [lexeme, accept, other]
  | some v =>
    have here : token = .number := number.mp rfl
    simp [lexeme, accept, here]

namespace Engine

/-- The tokens that an engine reads when it uses up each of them, up to the end of the
text or the first place where none starts. -/
inductive ReadsTokens : Engine → List Source.Lexeme → Prop
  | stop {e e' : Engine} {t : Token} (scanned : token e = .ok (t, e')) (last : t = .eof ∨ t = .bad) :
      ReadsTokens e [e'.cursor.lexeme]
  | next {e e₁ e₂ : Engine} {t : Token} {ls : List Source.Lexeme} (scanned : token e = .ok (t, e₁))
      (proper : t ≠ .eof ∧ t ≠ .bad) (used : use e₁ = .ok ((), e₂)) (rest : ReadsTokens e₂ ls) :
      ReadsTokens e (e₁.cursor.lexeme :: ls)

variable {e : Engine}

/-- A token that is not used up is read again. -/
theorem token_of_unused (unused : e.cursor.consumed = false) :
    token e = .ok (e.cursor.token, e) := by
  simp only [token, Cursor.advance, unused, Bool.false_and, Bool.false_eq_true, if_false]

theorem token_of_used (valid : e.cursor.isValid e.arena.bytes = true)
    (used : e.cursor.consumed = true) :
    token e = .ok ((e.cursor.accept ((e.cursor.source e.arena.bytes).scan e.cursor.pos)).token,
      { e with cursor := e.cursor.accept ((e.cursor.source e.arena.bytes).scan e.cursor.pos) }) := by
  simp only [token, Cursor.advance, used, valid, Bool.not_true, Bool.and_false, Bool.false_eq_true,
    if_false, if_true]

/-- Looking ahead leaves the engine as it is. -/
theorem lookahead_of_unused (valid : e.cursor.isValid e.arena.bytes = true)
    (unused : e.cursor.consumed = false) :
    ∃ t e', lookahead e = .ok (t, e) ∧ (do use; token : Action Token) e = .ok (t, e') := by
  have next := token_of_used (e := { e with cursor := e.cursor.use }) valid rfl
  have same : e.cursor.unuse = e.cursor := by rw [Cursor.unuse, ← unused]
  have ahead : (do use; token : Action Token) e = token { e with cursor := e.cursor.use } := rfl
  refine ⟨_, _, ?_, ahead.trans next⟩
  show (do let t ← token; changeCursor fun _ => e.cursor.unuse; return t : Action Token)
    { e with cursor := e.cursor.use } = _
  simp only [bind, StateT.bind, Except.bind, next, same]
  rfl

/-- An engine reads the tokens of its text. -/
theorem readsTokens {bound : Nat} (valid : e.cursor.isValid e.arena.bytes = true)
    (used : e.cursor.consumed = true) (inside : e.cursor.pos ≤ e.cursor.length)
    (enough : e.cursor.length - e.cursor.pos < bound) :
    e.ReadsTokens ((e.cursor.source e.arena.bytes).lexemesFrom bound e.cursor.pos) := by
  induction bound generalizing e with
  | zero => omega
  | succ bound ih =>
    have scanned := token_of_used valid used
    have length : (e.cursor.source e.arena.bytes).length = e.cursor.length := by
      rw [Cursor.source]
      split <;> rfl
    have here := Cursor.lexeme_accept e.cursor (e.cursor.source e.arena.bytes) e.cursor.pos
    rw [Source.lexemesFrom]
    split
    next last =>
      rw [← here]
      exact .stop scanned last
    next proper =>
      rw [not_or] at proper
      obtain ⟨-, up⟩ := Source.lt_stop_scan proper
      have top : ((e.cursor.source e.arena.bytes).scan e.cursor.pos).stop ≤ e.cursor.length := by
        rw [← length]
        exact Source.scan_inside _ (length.symm ▸ inside)
      have rest := ih (e := { e with cursor :=
        (e.cursor.accept ((e.cursor.source e.arena.bytes).scan e.cursor.pos)).use }) valid rfl top
        (by
          show e.cursor.length - ((e.cursor.source e.arena.bytes).scan e.cursor.pos).stop < bound
          omega)
      have read := ReadsTokens.next scanned proper rfl rest
      rwa [here] at read

/-- The tokens of a text tile it.  An engine reads them one after the other up to the end
of the text or to the first place where no token starts, each of them is the longest of
its kind, and looking ahead tells the token after the current one and changes nothing. -/
theorem tokens_tile_text (text : ByteArray) (e : Engine) :
    { e with cursor := .ofText text }.ReadsTokens (Source.ofBytes text).lexemes
      ∧ (Source.ofBytes text).Tiles 0 (Source.ofBytes text).lexemes
      ∧ ∀ e' : Engine, e'.cursor.isValid e'.arena.bytes = true → e'.cursor.consumed = false →
        token e' = .ok (e'.cursor.token, e')
          ∧ ∃ t e'', lookahead e' = .ok (t, e')
            ∧ (do use; token : Action Token) e' = .ok (t, e'') := by
  have valid : (Source.ofBytes text).start + (Source.ofBytes text).length
      ≤ (Source.ofBytes text).bytes.size := Nat.le_of_eq (Nat.zero_add _)
  refine ⟨?_, Source.tiles_lexemes valid, fun e' valid unused =>
    ⟨token_of_unused unused, lookahead_of_unused valid unused⟩⟩
  have enough : text.size - 0 < text.size + 1 := Nat.lt_succ_of_le (Nat.sub_le _ _)
  exact readsTokens (e := { e with cursor := .ofText text })
    (by simp [Cursor.isValid, Cursor.source, Cursor.ofText, Cursor.start]) rfl (Nat.zero_le _) enough

/-- An engine that has seen the first token of a text, in which signs and an exponent
that breaks off stand side by side. -/
def peeking : Engine :=
  { initial 64 with cursor := (Cursor.ofText "x>>>=1e+/*/*/y".toUTF8).advance ByteArray.empty }

/-- The engine reads all tokens of the text, and looks ahead to the second one. -/
theorem peeking_tiles_text :
    { initial 64 with cursor := .ofText "x>>>=1e+/*/*/y".toUTF8 }.ReadsTokens
        (Source.ofBytes "x>>>=1e+/*/*/y".toUTF8).lexemes
      ∧ ((Source.ofBytes "x>>>=1e+/*/*/y".toUTF8).lexemes.map fun l => (l.token, l.start, l.length))
        = [(.ident, 0, 1), (.assign (some .shiftRightZero), 1, 4), (.number, 5, 1), (.ident, 6, 1),
          (.binary .plus, 7, 1), (.ident, 13, 1), (.eof, 14, 0)]
      ∧ token peeking = .ok (peeking.cursor.token, peeking)
      ∧ ∃ t e', lookahead peeking = .ok (t, peeking)
        ∧ (do use; token : Action Token) peeking = .ok (t, e') := by
  obtain ⟨reads, -, ahead⟩ := tokens_tile_text "x>>>=1e+/*/*/y".toUTF8 (initial 64)
  exact ⟨reads, by decide +kernel, ahead peeking (by decide +kernel) (by decide +kernel)⟩

end Engine

end ArenaScript
