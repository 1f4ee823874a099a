import ArenaScript.Cursor
import ArenaScript.Proofs.Arena.Words
import ArenaScript.Proofs.Value.Packing
import ArenaScript.Token.Literal

/-!
# Reading texts

A source shows a text when the bytes it stands for are those of the text,
wherever they lie.  A token ends inside the text, and before a blank or a closing
brace, unless it is a string.

Main results:

- `Source.Stops.scanAt_le`: tokens end before a boundary.
- `Source.Shows.slice`: a part of the text.
- `Source.Shows.same`: the bytes are those of the text.
-/

namespace ArenaScript

/-- The token is an operator or a punctuation mark. -/
def Token.isSign : Token → Bool
  | .bad | .eof | .ident | .number | .string | .keyword _ | .typeOf => false
  | _ => true

/-- The token is a name or a keyword. -/
def Token.isWord : Token → Bool
  | .ident | .keyword _ | .typeOf => true
  | _ => false

theorem Token.isSign_of_isWord {t : Token} (word : t.isWord = true) : t.isSign = false := by
  cases t <;> first | rfl | cases word

namespace Source

variable {i : Nat} {s : Source}

/-! ## Tokens by kind -/

/-- What the token at a position is: a string, an open string, a number, a sign, a word
or none of these. -/
inductive ScansAt (s : Source) (i : Nat) : Lexeme → Prop
  | string {stop : Nat} (quote : s.byte i = 0x22 ∨ s.byte i = 0x27)
      (found : s.scanString? i = some stop) : ScansAt s i ⟨.string, i, stop - i, none⟩
  | openString (quote : s.byte i = 0x22 ∨ s.byte i = 0x27) (found : s.scanString? i = none) :
      ScansAt s i ⟨.bad, i, 0, none⟩
  | number (digit : isDigit (s.byte i) = true) : ScansAt s i
      ⟨.number, i, (s.scanNumber i).2 - i, some (Value.ofBits (s.scanNumber i).1)⟩
  | sign {lexeme : List UInt8} {token : Token} (found : s.findSign? i = some (lexeme, token)) :
      ScansAt s i ⟨token, i, lexeme.length, none⟩
  | word (start : isNameStart (s.byte i) = true) : ScansAt s i
      ⟨wordToken (s.slice i (s.skipWhile isNameByte (i + 1) - i)), i,
        s.skipWhile isNameByte (i + 1) - i, none⟩
  | nothing (quote : s.byte i ≠ 0x22 ∧ s.byte i ≠ 0x27) (digit : isDigit (s.byte i) = false)
      (sign : s.findSign? i = none) (name : isNameStart (s.byte i) = false) :
      ScansAt s i ⟨.bad, i, 0, none⟩

theorem scansAt (inside : i < s.length) : s.ScansAt i (s.scanAt i) := by
  rw [scanAt]
  split
  next quote =>
    simp only [Bool.or_eq_true, beq_iff_eq] at quote
    cases found : s.scanString? i with
    | some stop => exact .string quote found
    | none => exact .openString quote found
  next quote =>
    simp only [Bool.or_eq_true, beq_iff_eq, not_or] at quote
    split
    next digit => exact .number digit
    next digit =>
      cases found : s.findSign? i with
      | some sign => exact .sign found
      | none =>
        dsimp only [scanName]
        split
        next starts =>
          simp only [Bool.and_eq_true] at starts
          exact .word starts.2
        next starts =>
          simp only [decide_eq_true inside, Bool.true_and, Bool.not_eq_true] at starts
          rw [Nat.sub_self]
          exact .nothing quote (Bool.eq_false_iff.mpr digit) found starts

/-- The tokens of the table of signs are signs. -/
theorem isSign_of_mem {sign : List UInt8 × Token} (mem : sign ∈ signTable) :
    sign.2.isSign = true ∧ ∃ w, (w, sign.2) ∈ signs ∧ w.toUTF8 = ⟨sign.1.toArray⟩ := by
  have table : ∀ entry ∈ signs, entry.2.isSign = true
      ∧ entry.1.toUTF8 = ⟨entry.1.toUTF8.toList.toArray⟩ := by decide +kernel
  obtain ⟨entry, mem', rfl⟩ := List.mem_map.mp mem
  exact ⟨(table entry mem').1, entry.1, mem', (table entry mem').2⟩

theorem bytes_beq_iff {a b : ByteArray} : (a == b) = true ↔ a = b := by
  rcases a with ⟨a⟩
  rcases b with ⟨b⟩
  show (a == b) = true ↔ _
  simp

/-- The token of a run of name bytes is the one of the table, or else a name. -/
theorem wordToken_cases (name : ByteArray) : (wordToken name).isWord = true
    ∧ ((∃ w, (w, wordToken name) ∈ words ∧ w.toUTF8 = name)
      ∨ wordToken name = .ident ∧ ∀ w t, (w, t) ∈ words → w.toUTF8 ≠ name) := by
  have table : ∀ entry ∈ words, entry.2.isWord = true := by decide
  rw [wordToken]
  cases found : wordTable.find? fun entry => entry.1 == name with
  | some entry =>
    have same := List.find?_some found
    obtain ⟨word, mem, rfl⟩ := List.mem_map.mp (List.mem_of_find?_eq_some found)
    exact ⟨table word mem, .inl ⟨word.1, mem, bytes_beq_iff.mp same⟩⟩
  | none =>
    refine ⟨rfl, .inr ⟨rfl, fun w t mem same => ?_⟩⟩
    have absent := List.find?_eq_none.mp found (w.toUTF8, t) (List.mem_map.mpr ⟨(w, t), mem, rfl⟩)
    exact absent (bytes_beq_iff.mpr same)

/-- A token is a number with a value, a string, a bad one without room, a sign or a
word. -/
theorem ScansAt.kinds {l : Lexeme} (scans : s.ScansAt i l) :
    l.token = .number ∧ l.number.isSome = true
      ∨ l.number = none ∧ (l.token = .string ∨ l.token = .bad ∧ l.length = 0
        ∨ l.token.isSign = true ∨ l.token.isWord = true) := by
  cases scans with
  | string => exact .inr ⟨rfl, .inl rfl⟩
  | openString | nothing => exact .inr ⟨rfl, .inr (.inl ⟨rfl, rfl⟩)⟩
  | number => exact .inl ⟨rfl, rfl⟩
  | sign found =>
    exact .inr ⟨rfl, .inr (.inr (.inl (isSign_of_mem (List.mem_of_find?_eq_some found)).1))⟩
  | word => exact .inr ⟨rfl, .inr (.inr (.inr (wordToken_cases _).1))⟩

theorem ScansAt.token_ne_eof {l : Lexeme} (scans : s.ScansAt i l) : l.token ≠ .eof := by
  intro last
  rcases scans.kinds with ⟨kind, -⟩ | ⟨-, kind | ⟨kind, -⟩ | kind | kind⟩
  all_goals
    rw [last] at kind
    cases kind

/-- A text is over after some blanks, or a token follows. -/
theorem scan_cases (s : Source) (i : Nat) :
    s.length ≤ s.skipBlanks i ∧ s.scan i = ⟨.eof, s.skipBlanks i, 0, none⟩
      ∨ s.skipBlanks i < s.length ∧ s.ScansAt (s.skipBlanks i) (s.scan i) := by
  rw [scan]
  split
  next isOver => exact .inl ⟨isOver, rfl⟩
  next more => exact .inr ⟨Nat.lt_of_not_le more, scansAt (Nat.lt_of_not_le more)⟩

/-! ## Sources with the same bytes -/

/-- Two sources have the same length and the same byte at every position. -/
structure Same (s t : Source) : Prop where
  length : s.length = t.length
  byte : ∀ i, s.byte i = t.byte i

namespace Same

variable {s t : Source}

theorem holds (same : s.Same t) (i : Nat) (c : Char) : s.holds i c = t.holds i c := by
  simp only [Source.holds, same.length, same.byte]

theorem unescape (same : s.Same t) : s.unescape = t.unescape := by
  have one : ∀ i, s.unescapeOne? i = t.unescapeOne? i := by
    intro i
    simp only [unescapeOne?, same.length, same.byte]
  have bounded : ∀ bound i out, s.unescapeFrom bound i out = t.unescapeFrom bound i out := by
    intro bound
    induction bound with
    | zero => exact fun _ _ => rfl
    | succ bound ih =>
      intro i out
      simp only [unescapeFrom, same.length, one]
      split
      · cases t.unescapeOne? i with
        | none => rfl
        | some step => exact ih _ _
      · rfl
  simp only [Source.unescape, same.length, bounded]

end Same

/-! ## Positions stay inside the text -/

/-- Bytes are passed over up to one that stops the run, at most. -/
theorem skipWhile_le_of_stop (s : Source) {p : UInt8 → Bool} {b : Nat}
    (stop : (decide (b < s.length) && p (s.byte b)) = false) (le : i ≤ b) :
    s.skipWhile p i ≤ b := by
  have bounded : ∀ bound i, i ≤ b → s.skipBound p bound i ≤ b := by
    intro bound
    induction bound with
    | zero => exact fun _ le => le
    | succ bound ih =>
      intro i le
      rw [skipBound]
      split
      next more =>
        refine ih (i + 1) (Nat.lt_of_le_of_ne le ?_)
        rintro rfl
        rw [stop] at more
        cases more
      next => exact le
  exact bounded _ i le

theorem skipWhile_le (s : Source) (p : UInt8 → Bool) (inside : i ≤ s.length) :
    s.skipWhile p i ≤ s.length :=
  s.skipWhile_le_of_stop (by simp) inside

theorem skipCommentBound_le (s : Source) (bound : Nat) (inside : i ≤ s.length) :
    s.skipCommentBound bound i ≤ s.length := by
  induction bound generalizing i with
  | zero => exact inside
  | succ bound ih =>
    simp only [skipCommentBound, Bool.and_eq_true, decide_eq_true_eq]
    split
    next more => exact ih more.1
    next => exact inside

theorem lt_of_holds {c : Char} (there : s.holds i c = true) : i < s.length := by
  simp only [holds, Bool.and_eq_true, decide_eq_true_eq] at there
  exact there.1

theorem skipOne?_le {j : Nat} (step : s.skipOne? i = some j) : j ≤ s.length := by
  simp only [skipOne?, Bool.and_eq_true, decide_eq_true_eq] at step
  split at step
  next blank =>
    have stop := Option.some.inj step
    omega
  next =>
    split at step
    next comment =>
      have second := lt_of_holds comment.2
      rw [← Option.some.inj step]
      exact s.skipWhile_le _ (by omega)
    next =>
      split at step
      next comment =>
        rw [← Option.some.inj step]
        exact s.skipCommentBound_le _ (by omega)
      next => cases step

theorem skipBlanks_le (s : Source) (inside : i ≤ s.length) : s.skipBlanks i ≤ s.length := by
  have bounded : ∀ bound i, i ≤ s.length → s.skipBlanksBound bound i ≤ s.length := by
    intro bound
    induction bound with
    | zero => exact fun _ inside => inside
    | succ bound ih =>
      intro i inside
      simp only [skipBlanksBound]
      cases step : s.skipOne? i with
      | none => exact inside
      | some j => exact ih j (skipOne?_le step)
  exact bounded _ _ inside

theorem scanString?_le {stop : Nat} (found : s.scanString? i = some stop) : stop ≤ s.length := by
  have bounded : ∀ quote bound i j, s.closingQuote? quote bound i = some j → j < s.length := by
    intro quote bound
    induction bound with
    | zero => exact fun _ _ found => nomatch found
    | succ bound ih =>
      intro i j found
      simp only [closingQuote?] at found
      split at found
      · cases found
      · split at found
        · cases found
          omega
        · split at found
          · exact ih _ _ found
          · split at found
            · cases found
            · split at found
              · exact ih _ _ found
              · split at found
                · cases found
                · exact ih _ _ found
  rw [scanString?, Option.map_eq_some_iff] at found
  obtain ⟨quote, found, rfl⟩ := found
  exact bounded _ _ _ _ found

/-! ## Boundaries -/

/-- A byte that ends every token before it. -/
def isBoundary (b : UInt8) : Bool := isBlank b || b == 0x7d

/-- What holds of no boundary ends before one. -/
def Proper (p : UInt8 → Bool) : Prop := ∀ b, isBoundary b = true → p b = false

theorem proper_of_boundaries {p : UInt8 → Bool}
    (none : [0x20, 0x0d, 0x0a, 0x09, 0x0c, 0x0b, 0x7d].any p = false) : Proper p := by
  intro b boundary
  rw [Bool.eq_false_iff]
  intro holds
  refine List.any_eq_false.mp none b ?_ holds
  simp only [isBoundary, isBlank, Bool.or_eq_true, beq_iff_eq] at boundary
  simpa only [List.mem_cons, List.not_mem_nil, or_false, or_assoc] using boundary

theorem proper_beq {c : UInt8} (inner : isBoundary c = false) : Proper (· == c) := by
  intro b boundary
  rw [beq_eq_false_iff_ne]
  rintro rfl
  rw [inner] at boundary
  cases boundary

/-- No sign goes on with a boundary. -/
theorem signTable_proper : ∀ sign ∈ signTable, ∀ b ∈ sign.1.tail, isBoundary b = false := by
  decide +kernel

/-- The text ends at a position, or goes on with a boundary. -/
def Stops (s : Source) (stop : Nat) : Prop :=
  s.length ≤ stop ∨ isBoundary (s.byte stop) = true

theorem stops_length (s : Source) : s.Stops s.length := .inl (Nat.le_refl _)

namespace Stops

variable {s : Source} {i stop : Nat} {p : UInt8 → Bool}

variable (stops : s.Stops stop)
include stops

theorem test_eq_false (proper : Proper p) :
    (decide (stop < s.length) && p (s.byte stop)) = false := by
  rcases stops with last | boundary
  · rw [decide_eq_false (Nat.not_lt.mpr last), Bool.false_and]
  · rw [proper _ boundary, Bool.and_false]

theorem skipWhile_le (proper : Proper p) (le : i ≤ stop) : s.skipWhile p i ≤ stop :=
  s.skipWhile_le_of_stop (stops.test_eq_false proper) le

theorem lt_of_test (proper : Proper p)
    (here : (decide (i < s.length) && p (s.byte i)) = true) (le : i ≤ stop) : i < stop := by
  refine Nat.lt_of_le_of_ne le ?_
  rintro rfl
  rw [stops.test_eq_false proper] at here
  cases here

theorem lt_of_holds {c : Char} (inner : isBoundary c.toUInt8 = false)
    (here : s.holds i c = true) (le : i ≤ stop) : i < stop :=
  stops.lt_of_test (proper_beq inner) here le

theorem scanName_le (le : i ≤ stop) : (s.scanName i).2 ≤ stop := by
  simp only [scanName]
  split
  next starts =>
    exact stops.skipWhile_le (proper_of_boundaries rfl)
      (stops.lt_of_test (p := isNameStart) (proper_of_boundaries rfl) starts le)
  next => exact le

theorem scanExponent_le (le : i ≤ stop) : (s.scanExponent i).2 ≤ stop := by
  unfold scanExponent
  dsimp only
  split
  next mark =>
    have next := stops.lt_of_test (p := fun b => (b ||| 0x20) == 0x65)
      (proper_of_boundaries rfl) mark le
    have first : (if (s.holds (i + 1) '+' || s.holds (i + 1) '-') = true then i + 2 else i + 1)
        ≤ stop := by
      split
      next signed =>
        rcases Bool.or_eq_true _ _ |>.mp signed with sign | sign
        · exact stops.lt_of_holds (by decide) sign next
        · exact stops.lt_of_holds (by decide) sign next
      next => exact next
    generalize (if (s.holds (i + 1) '+' || s.holds (i + 1) '-') = true then i + 2 else i + 1) = j
      at first ⊢
    split
    · exact stops.skipWhile_le (proper_of_boundaries rfl) first
    · exact le
  next => exact le

theorem scanDecimal_le (le : i ≤ stop) : (s.scanDecimal i).2 ≤ stop := by
  have digits : Proper isDigit := proper_of_boundaries rfl
  have point := stops.skipWhile_le digits le
  simp only [scanDecimal]
  by_cases dot : s.holds (s.skipWhile isDigit i) '.' = true
  · have fraction := stops.skipWhile_le digits (stops.lt_of_holds (by decide) dot point)
    simp only [dot, if_true]
    split <;> exact stops.scanExponent_le fraction
  · simp only [dot, Bool.false_eq_true, if_false]
    split <;> exact stops.scanExponent_le point

theorem scanNumber_le (less : i < stop) : (s.scanNumber i).2 ≤ stop := by
  simp only [scanNumber]
  split
  next hex =>
    simp only [Bool.and_eq_true, decide_eq_true_eq] at hex
    have mark : i + 1 < stop := stops.lt_of_test (p := fun b => (b ||| 0x20) == 0x78)
      (proper_of_boundaries rfl) (by simp [hex.1.2]; omega) less
    exact stops.skipWhile_le (proper_of_boundaries rfl) mark
  next => exact stops.scanDecimal_le (Nat.le_of_lt less)

theorem startsWith_le {bytes : List UInt8}
    (inner : ∀ b ∈ bytes, isBoundary b = false) (starts : s.startsWith i bytes = true)
    (le : i ≤ stop) : i + bytes.length ≤ stop := by
  induction bytes generalizing i with
  | nil => exact le
  | cons b bytes ih =>
    simp only [startsWith, Bool.and_eq_true] at starts
    have first := stops.lt_of_test (proper_beq (inner b (List.mem_cons_self ..)))
      (by simp only [Bool.and_eq_true]; exact starts.1) le
    have rest := ih (fun b mem => inner b (List.mem_cons_of_mem _ mem)) starts.2 first
    rw [List.length_cons]
    omega

theorem findSign?_le {sign : List UInt8 × Token}
    (found : s.findSign? i = some sign) (less : i < stop) : i + sign.1.length ≤ stop := by
  have inner := signTable_proper sign (List.mem_of_find?_eq_some found)
  have starts := List.find?_some found
  obtain ⟨bytes, token⟩ := sign
  cases bytes with
  | nil => exact Nat.le_of_lt less
  | cons b bytes =>
    simp only [startsWith, Bool.and_eq_true] at starts
    have rest : i + 1 + bytes.length ≤ stop := stops.startsWith_le inner starts.2 less
    simp only [List.length_cons]
    omega

/-- A token that starts before a boundary ends before it, unless it is a string. -/
theorem scanAt_le (inside : i < s.length) (less : i < stop)
    (string : ∀ j, s.byte i = 0x22 ∨ s.byte i = 0x27 → s.scanString? i = some j → j ≤ stop) :
    (s.scanAt i).start + (s.scanAt i).length ≤ stop := by
  have scans := scansAt inside
  generalize s.scanAt i = l at scans
  cases scans with
  | @string j quote found =>
    have := string j quote found
    simp only
    omega
  | number =>
    have := stops.scanNumber_le less
    simp only
    omega
  | sign found => exact stops.findSign?_le found less
  | word =>
    have := stops.skipWhile_le (p := isNameByte) (i := i + 1) (proper_of_boundaries rfl) less
    simp only
    omega
  | openString | nothing => exact Nat.le_of_lt less

end Stops

theorem startsWith_le {bytes : List UInt8} (starts : s.startsWith i bytes = true)
    (inside : i ≤ s.length) : i + bytes.length ≤ s.length := by
  induction bytes generalizing i with
  | nil => exact inside
  | cons b bytes ih =>
    simp only [startsWith, Bool.and_eq_true, decide_eq_true_eq] at starts
    have rest := ih starts.2 (by omega)
    rw [List.length_cons]
    omega

/-- A token lies inside the text. -/
theorem scan_inside (s : Source) (inside : i ≤ s.length) :
    (s.scan i).start + (s.scan i).length ≤ s.length := by
  simp only [scan]
  split
  next => exact s.skipBlanks_le inside
  next more =>
    have inside := Nat.lt_of_not_le more
    exact s.stops_length.scanAt_le inside inside fun _ _ found => scanString?_le found

/-- The value of a number token is a number. -/
theorem kind_number {v : Value} (found : (s.scan i).number = some v) : v.kind = .number := by
  rcases s.scan_cases i with ⟨-, last⟩ | ⟨-, scans⟩
  · rw [last] at found
    cases found
  · generalize s.scan i = l at scans found
    cases scans with
    | number => rw [← Option.some.inj found, Value.kind_ofBits]
    | _ => cases found

/-- A literal gives at most as many bytes as it is long. -/
theorem size_unescape_le (s : Source) : s.unescape.1.size ≤ s.length := by
  have bounded : ∀ bound i out, (s.unescapeFrom bound i out).1.size ≤ out.size + bound := by
    intro bound
    induction bound with
    | zero => exact fun _ out => Nat.le_refl out.size
    | succ bound ih =>
      intro i out
      simp only [unescapeFrom]
      split
      · cases s.unescapeOne? i with
        | none => exact Nat.le_add_right _ _
        | some step =>
          have rest := ih step.2 (out.push step.1)
          rw [ByteArray.size_push] at rest
          simp only
          omega
      · exact Nat.le_add_right _ _
  have whole := bounded s.length 1 ByteArray.empty
  rw [ByteArray.size_empty, Nat.zero_add] at whole
  exact whole

/-- Counting the bytes of a literal comes to what decoding them comes to. -/
theorem measure_eq (s : Source) : s.measure = (s.unescape.1.size, s.unescape.2) := by
  have bounded : ∀ bound i out, s.measureFrom bound i out.size
      = ((s.unescapeFrom bound i out).1.size, (s.unescapeFrom bound i out).2) := by
    intro bound
    induction bound with
    | zero => exact fun _ _ => rfl
    | succ bound ih =>
      intro i out
      simp only [measureFrom, unescapeFrom]
      split
      · cases s.unescapeOne? i with
        | none => rfl
        | some step =>
          rw [← ih step.2 (out.push step.1), ByteArray.size_push]
      · rfl
  exact bounded s.length 1 ByteArray.empty

/-! ## Sources that show a text -/

/-- The bytes a source stands for are those of a text. -/
structure Shows (s : Source) (text : ByteArray) : Prop where
  /-- The source is as long as the text. -/
  length : s.length = text.size
  /-- The source lies inside its bytes. -/
  inside : s.start + s.length ≤ s.bytes.size
  /-- The bytes are the same. -/
  content : s.bytes.extract s.start (s.start + s.length) = text

theorem shows_ofBytes (text : ByteArray) : (ofBytes text).Shows text where
  length := rfl
  inside := by simp [ofBytes]
  content := by simp [ofBytes]

namespace Shows

variable {s : Source} {text : ByteArray}

/-- A part of a source shows the part of the text. -/
theorem part (shown : s.Shows text) {i n : Nat} (inside : i + n ≤ text.size) :
    Shows ⟨s.bytes, s.start + i, n⟩ (text.extract i (i + n)) := by
  have length := shown.length
  have bound := shown.inside
  refine ⟨?_, ?_, ?_⟩
  · simp only [ByteArray.size_extract]
    omega
  · simp only
    omega
  · rw [← shown.content, ByteArray.extract_extract]
    congr 1
    simp only
    omega

theorem slice (shown : s.Shows text) {i n : Nat} (inside : i + n ≤ text.size) :
    s.slice i n = text.extract i (i + n) := by
  have part := (shown.part inside).content
  simpa only [Source.slice] using part

/-- Scanning sees nothing but the text. -/
theorem same (shown : s.Shows text) : s.Same (ofBytes text) := by
  have length := shown.length
  have bound := shown.inside
  refine ⟨length, fun i => ?_⟩
  simp only [byte, ofBytes, Nat.zero_add]
  by_cases inside : i < s.length
  · rw [if_pos ⟨inside, by omega⟩, if_pos ⟨by omega, by omega⟩, ← shown.content,
      Arena.get!_extract _ _ _ _ (by omega) (by omega)]
  · rw [if_neg (fun h => inside h.1), if_neg (fun h => inside (by omega))]

end Shows

end Source

end ArenaScript
