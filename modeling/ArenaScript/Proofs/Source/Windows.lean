import ArenaScript.Proofs.Source.Reading

/-!
# Windows of a text

A window is a stretch of a text that is scanned on its own.  A token of the text
that ends inside the window is scanned in the window as well, at the place that
corresponds to its own.  A window that reaches to the end of the text has all the
tokens from its start on.

Main definitions:

- `Source.Window`: a source that shows a stretch of another one.
- `Source.Lexeme.shift`: a token in another place.

Main results:

- `Source.Window.scan_eq`: tokens that end inside the window.
- `Source.Window.scan_eq_of_tail`: windows that reach to the end.
- `Source.skipBlanks_of_step`: blanks are passed over one by one.
- `Source.Shows.scan`: the next token depends on the text alone.
-/

namespace ArenaScript.Source

variable {i : Nat} {s : Source}

/-- A token in another place. -/
def Lexeme.shift (l : Lexeme) (i : Nat) : Lexeme := { l with start := i + l.start }

/-! ## Bytes passed over -/

theorem skipWhile_eq (s : Source) (p : UInt8 → Bool) (i : Nat) :
    s.skipWhile p i = if i < s.length && p (s.byte i) then s.skipWhile p (i + 1) else i := by
  by_cases inside : i < s.length
  · rw [skipWhile, show s.length - i = (s.length - (i + 1)) + 1 by omega]
    rfl
  · rw [skipWhile, Nat.sub_eq_zero_of_le (by omega)]
    simp [skipBound, inside]

theorem le_skipWhile (s : Source) (p : UInt8 → Bool) (i : Nat) : i ≤ s.skipWhile p i := by
  have bounded : ∀ bound i, i ≤ s.skipBound p bound i := by
    intro bound
    induction bound with
    | zero => exact fun i => Nat.le_refl i
    | succ bound ih =>
      intro i
      rw [skipBound]
      split
      · exact Nat.le_of_succ_le (ih (i + 1))
      · exact Nat.le_refl i
  exact bounded _ i

/-! ## Blanks and comments -/

theorem le_skipCommentBound (s : Source) (bound i : Nat) : i ≤ s.skipCommentBound bound i := by
  induction bound generalizing i with
  | zero => exact Nat.le_refl i
  | succ bound ih =>
    rw [skipCommentBound]
    split
    · exact Nat.le_of_succ_le (ih (i + 1))
    · exact Nat.le_refl i

/-- A blank or a comment is not empty. -/
theorem lt_of_skipOne? {j : Nat} (step : s.skipOne? i = some j) : i < j := by
  simp only [skipOne?] at step
  split at step
  · exact Nat.lt_of_succ_le (Nat.le_of_eq (Option.some.inj step))
  · split at step
    · have := s.le_skipWhile (· != 0x0a) (i + 2)
      have := Option.some.inj step
      omega
    · split at step
      · have := s.le_skipCommentBound (s.length - (i + 4)) (i + 4)
        have := Option.some.inj step
        omega
      · cases step

theorem skipOne?_of_length_le (out : s.length ≤ i) : s.skipOne? i = none := by
  have here : ¬ i < s.length := by omega
  have none : s.holds i '/' = false := by simp [holds, here]
  simp [skipOne?, here, none]

/-- All bounds that reach the end of the text do the same. -/
theorem skipBlanksBound_eq (s : Source) {bound bound' : Nat} (enough : s.length - i ≤ bound)
    (enough' : s.length - i ≤ bound') : s.skipBlanksBound bound i = s.skipBlanksBound bound' i := by
  induction bound generalizing bound' i with
  | zero =>
    have none := skipOne?_of_length_le (s := s) (i := i) (by omega)
    cases bound' <;> simp [skipBlanksBound, none]
  | succ bound ih =>
    cases bound' with
    | zero =>
      have none := skipOne?_of_length_le (s := s) (i := i) (by omega)
      simp [skipBlanksBound, none]
    | succ bound' =>
      simp only [skipBlanksBound]
      cases step : s.skipOne? i with
      | none => rfl
      | some j =>
        have up := lt_of_skipOne? step
        exact ih (by omega) (by omega)

theorem skipBlanks_of_step {j : Nat} (step : s.skipOne? i = some j) :
    s.skipBlanks i = s.skipBlanks j := by
  have up := lt_of_skipOne? step
  have top := skipOne?_le step
  obtain ⟨n, eq⟩ : ∃ n, s.length - i = n + 1 := ⟨s.length - i - 1, by omega⟩
  rw [skipBlanks, eq, skipBlanksBound, step, skipBlanks]
  exact s.skipBlanksBound_eq (by omega) (Nat.le_refl _)

theorem skipBlanks_of_none (step : s.skipOne? i = none) : s.skipBlanks i = i := by
  rw [skipBlanks]
  cases s.length - i <;> simp [skipBlanksBound, step]

theorem le_skipBlanks (s : Source) (i : Nat) : i ≤ s.skipBlanks i := by
  have bounded : ∀ bound i, i ≤ s.skipBlanksBound bound i := by
    intro bound
    induction bound with
    | zero => exact fun i => Nat.le_refl i
    | succ bound ih =>
      intro i
      rw [skipBlanksBound]
      cases step : s.skipOne? i with
      | none => exact Nat.le_refl i
      | some j => exact Nat.le_of_lt (Nat.lt_of_lt_of_le (lt_of_skipOne? step) (ih j))
  exact bounded _ i

theorem scanAt_start (s : Source) (i : Nat) : (s.scanAt i).start = i := by
  simp only [scanAt]
  split
  · split <;> rfl
  · split
    · rfl
    · split <;> rfl

theorem scan_start (s : Source) (i : Nat) : (s.scan i).start = s.skipBlanks i := by
  simp only [scan]
  split
  · rfl
  · exact s.scanAt_start _

/-! ## Windows -/

/-- A source shows what another one shows from a position on, as far as it goes. -/
structure Window (s t : Source) (d : Nat) : Prop where
  inside : d + t.length ≤ s.length
  byte : ∀ k, k < t.length → s.byte (d + k) = t.byte k
  slice : ∀ k n, k + n ≤ t.length → s.slice (d + k) n = t.slice k n

/-- A part of what a source shows is a window. -/
theorem Shows.window {t : Source} {text part : ByteArray} {d : Nat} (shown : s.Shows text)
    (shown' : t.Shows part) (inside : d + part.size ≤ text.size)
    (content : text.extract d (d + part.size) = part) : Window s t d := by
  have length := shown.length
  have length' := shown'.length
  refine ⟨by omega, fun k less => ?_, fun k n within => ?_⟩
  · rw [shown.same.byte, shown'.same.byte]
    simp only [Source.byte, ofBytes, Nat.zero_add]
    rw [if_pos ⟨by omega, by omega⟩, if_pos ⟨by omega, by omega⟩, ← content,
      Arena.get!_extract _ _ _ _ (by omega) (by omega)]
  · rw [shown.slice (by omega), shown'.slice (by omega), ← content, ByteArray.extract_extract]
    congr 1
    omega

namespace Window

variable {s t : Source} {d : Nat} {k bound j bound' count : Nat} {quote : UInt8}

/-! ## Bytes -/

variable (window : Window s t d)
include window

theorem test_eq (p : UInt8 → Bool) (inside : k < t.length) :
    (decide (d + k < s.length) && p (s.byte (d + k))) = (decide (k < t.length) && p (t.byte k)) := by
  have bound := window.inside
  rw [window.byte k inside, decide_eq_true inside, decide_eq_true (by omega : d + k < s.length)]

theorem holds_eq (c : Char) (inside : k < t.length) : s.holds (d + k) c = t.holds k c :=
  window.test_eq (· == c.toUInt8) inside

/-- What stands in the window stands in the text. -/
theorem holds_of_holds {c : Char} (here : t.holds k c = true) : s.holds (d + k) c = true := by
  rw [window.holds_eq c (lt_of_holds here), here]

theorem skipWhile_eq {p : UInt8 → Bool} (inside : k ≤ t.length)
    (fits : s.skipWhile p (d + k) ≤ d + t.length) :
    s.skipWhile p (d + k) = d + t.skipWhile p k := by
  have bound := window.inside
  induction left : t.length - k generalizing k with
  | zero =>
    have low := le_skipWhile s p (d + k)
    rw [Source.skipWhile_eq t p k, if_neg (by simp; omega)]
    omega
  | succ left ih =>
    have here : k < t.length := by omega
    rw [Source.skipWhile_eq s p (d + k), window.test_eq p here] at fits ⊢
    rw [Source.skipWhile_eq t p k]
    split at fits
    next more =>
      rw [if_pos more, if_pos more]
      exact ih here fits (by omega)
    next stops => rw [if_neg stops, if_neg stops]

/-! ## Blanks and comments -/

theorem skipCommentBound_eq (start : 2 ≤ k) (inside : k ≤ t.length)
    (enough : s.length - (d + k) ≤ bound) (enough' : t.length - k ≤ bound')
    (fits : s.skipCommentBound bound (d + k) ≤ d + t.length) :
    s.skipCommentBound bound (d + k) = d + t.skipCommentBound bound' k := by
  have within := window.inside
  induction bound' generalizing bound k with
  | zero =>
    have low := le_skipCommentBound s bound (d + k)
    simp only [skipCommentBound]
    omega
  | succ bound' ih =>
    by_cases last : k = t.length
    · have low := le_skipCommentBound s bound (d + k)
      rw [skipCommentBound, if_neg (by simp [last])]
      omega
    obtain ⟨bound, rfl⟩ : ∃ n, bound = n + 1 := ⟨bound - 1, by omega⟩
    have star := window.holds_eq '*' (k := k - 2) (by omega)
    have slash := window.holds_eq '/' (k := k - 1) (by omega)
    rw [show d + (k - 2) = d + k - 2 by omega] at star
    rw [show d + (k - 1) = d + k - 1 by omega] at slash
    simp only [skipCommentBound, star, slash, decide_eq_true (by omega : k < t.length),
      decide_eq_true (by omega : d + k < s.length)] at fits ⊢
    split at fits
    next more =>
      rw [if_pos more, if_pos more]
      exact ih (k := k + 1) (by omega) (by omega) (by omega) (by omega) fits
    next stops => rw [if_neg stops, if_neg stops]

/-- Blanks and comments that end in the window. -/
theorem skipOne?_eq (inside : k ≤ t.length)
    (step : s.skipOne? (d + k) = some j) (fits : j ≤ d + t.length) :
    ∃ j', t.skipOne? k = some j' ∧ j = d + j' := by
  have up := lt_of_skipOne? step
  have bound := window.inside
  have here : k < t.length := by omega
  simp only [skipOne?] at step ⊢
  rw [window.test_eq isBlank here] at step
  split at step
  next blank =>
    rw [if_pos blank]
    exact ⟨k + 1, rfl, (Option.some.inj step).symm⟩
  next visible =>
    rw [if_neg visible]
    split at step
    next line =>
      obtain rfl := Option.some.inj step
      have low := le_skipWhile s (· != 0x0a) (d + k + 2)
      rw [window.holds_eq '/' here, Nat.add_assoc d k 1,
        window.holds_eq '/' (by omega : k + 1 < t.length)] at line
      rw [if_pos line]
      exact ⟨_, rfl, window.skipWhile_eq (k := k + 2) (by omega) fits⟩
    next other =>
      split at step
      next comment =>
        obtain rfl := Option.some.inj step
        have low := le_skipCommentBound s (s.length - (d + k + 4)) (d + k + 4)
        have next := window.holds_eq '/' (by omega : k + 1 < t.length)
        have star := window.holds_eq '*' (by omega : k + 1 < t.length)
        rw [window.holds_eq '/' here, Nat.add_assoc d k 1, next] at other
        rw [window.holds_eq '/' here, Nat.add_assoc d k 1, star] at comment
        simp only [Bool.and_eq_true, decide_eq_true_eq] at comment
        rw [if_neg other, if_pos (by
          simp only [Bool.and_eq_true, decide_eq_true_eq]
          exact ⟨⟨by omega, comment.1.2⟩, comment.2⟩)]
        exact ⟨_, rfl, window.skipCommentBound_eq (k := k + 4) (by omega) (by omega) (by omega)
          (by omega) fits⟩
      next => cases step

/-- No blank is seen in the window where the text has none. -/
theorem skipOne?_eq_none (step : s.skipOne? (d + k) = none) : t.skipOne? k = none := by
  have bound := window.inside
  by_cases out : t.length ≤ k
  · exact skipOne?_of_length_le out
  have here : k < t.length := by omega
  simp only [skipOne?] at step ⊢
  rw [window.test_eq isBlank here] at step
  split at step
  · cases step
  next visible =>
    rw [if_neg visible]
    split at step
    · cases step
    next other =>
      split at step
      · cases step
      next comment =>
        rw [if_neg fun line => other ?_, if_neg fun star => comment ?_]
        · simp only [Bool.and_eq_true, decide_eq_true_eq] at star ⊢
          exact ⟨⟨by omega, window.holds_of_holds star.1.2⟩, window.holds_of_holds star.2⟩
        · simp only [Bool.and_eq_true] at line ⊢
          exact ⟨window.holds_of_holds line.1, window.holds_of_holds line.2⟩

theorem skipBlanks_eq (inside : k ≤ t.length)
    (fits : s.skipBlanks (d + k) ≤ d + t.length) : s.skipBlanks (d + k) = d + t.skipBlanks k := by
  induction left : t.length - k using Nat.strongRecOn generalizing k with
  | ind left ih =>
    cases step : s.skipOne? (d + k) with
    | none =>
      rw [skipBlanks_of_none step, skipBlanks_of_none (window.skipOne?_eq_none step)]
    | some j =>
      rw [skipBlanks_of_step step] at fits ⊢
      obtain ⟨j', step', rfl⟩ :=
        window.skipOne?_eq inside step (Nat.le_trans (le_skipBlanks s j) fits)
      have up := lt_of_skipOne? step'
      have top := skipOne?_le step'
      rw [skipBlanks_of_step step']
      exact ih (t.length - j') (by omega) top fits rfl

/-! ## Numbers -/

theorem digitsValue_eq (base : Nat) (acc : Nat) (inside : k + count ≤ t.length) :
    s.digitsValue base count (d + k) acc = t.digitsValue base count k acc := by
  induction count generalizing k acc with
  | zero => rfl
  | succ count ih =>
    simp only [digitsValue, window.byte k (by omega)]
    exact ih _ (by omega : k + 1 + count ≤ t.length)

theorem exponentValue_eq (acc : Nat) (inside : k + count ≤ t.length) :
    s.exponentValue count (d + k) acc = t.exponentValue count k acc := by
  induction count generalizing k acc with
  | zero => rfl
  | succ count ih =>
    simp only [exponentValue, window.byte k (by omega)]
    exact ih _ (by omega : k + 1 + count ≤ t.length)

theorem hexFloat_eq (acc : Float) (inside : k + count ≤ t.length) :
    s.hexFloat count (d + k) acc = t.hexFloat count k acc := by
  induction count generalizing k acc with
  | zero => rfl
  | succ count ih =>
    simp only [hexFloat, window.byte k (by omega)]
    exact ih _ (by omega : k + 1 + count ≤ t.length)

/-- Where the digits of an exponent start: after a sign, if there is one. -/
def exponentStart (s : Source) (i : Nat) : Nat :=
  if s.holds (i + 1) '+' || s.holds (i + 1) '-' then i + 2 else i + 1

/-- A whole exponent stands at a position. -/
def hasExponent (s : Source) (i : Nat) : Bool :=
  (decide (i < s.length) && (s.byte i ||| 0x20) == 0x65)
    && (decide (exponentStart s i < s.length) && isDigit (s.byte (exponentStart s i)))

/-- The value of the exponent at a position. -/
def exponentAt (s : Source) (i : Nat) : Int :=
  let value := s.exponentValue (s.skipWhile isDigit (exponentStart s i) - exponentStart s i)
    (exponentStart s i) 0
  if s.holds (i + 1) '-' then -value else value

omit window in
theorem scanExponent_form (s : Source) (i : Nat) : s.scanExponent i
    = if hasExponent s i then (exponentAt s i, s.skipWhile isDigit (exponentStart s i))
      else (0, i) := by
  by_cases mark : (decide (i < s.length) && (s.byte i ||| 0x20) == 0x65) = true
  · simp only [scanExponent, hasExponent, mark, if_true, Bool.true_and]
    rfl
  · simp only [scanExponent, hasExponent, mark, Bool.false_and, Bool.false_eq_true, if_false]

omit window in
theorem lt_exponentStart (s : Source) (i : Nat) : i < exponentStart s i := by
  rw [exponentStart]
  split <;> omega

theorem exponentStart_eq (inside : k + 1 < t.length) :
    exponentStart s (d + k) = d + exponentStart t k := by
  simp only [exponentStart]
  rw [Nat.add_assoc d k 1, window.holds_eq '+' inside, window.holds_eq '-' inside]
  split <;> omega

theorem hasExponent_eq (inside : exponentStart t k < t.length) :
    hasExponent s (d + k) = hasExponent t k := by
  have low := lt_exponentStart t k
  rw [hasExponent, hasExponent, window.exponentStart_eq (by omega), window.test_eq isDigit inside,
    window.test_eq (fun b => (b ||| 0x20) == 0x65) (by omega)]

omit window in
theorem lt_skipWhile {p : UInt8 → Bool} {i : Nat}
    (here : (decide (i < s.length) && p (s.byte i)) = true) : i < s.skipWhile p i := by
  rw [Source.skipWhile_eq, if_pos here]
  exact le_skipWhile s p (i + 1)

theorem scanExponent_eq (fits : (s.scanExponent (d + k)).2 ≤ d + t.length) :
    s.scanExponent (d + k) = ((t.scanExponent k).1, d + (t.scanExponent k).2) := by
  have low := lt_exponentStart s (d + k)
  rw [scanExponent_form s] at fits ⊢
  rw [scanExponent_form t]
  by_cases found : hasExponent s (d + k) = true
  · -- the first digit lies in the window, hence so does the sign before it
    rw [if_pos found] at fits
    have up := lt_skipWhile (Bool.and_eq_true _ _ |>.mp found).2
    have fits : s.skipWhile isDigit (exponentStart s (d + k)) ≤ d + t.length := fits
    have second : k + 1 < t.length := by omega
    have first := window.exponentStart_eq second
    have small : exponentStart t k < t.length := by omega
    rw [if_pos found, if_pos (window.hasExponent_eq small ▸ found)]
    rw [first] at fits
    have stop := window.skipWhile_eq (Nat.le_of_lt small) fits
    have top : t.skipWhile isDigit (exponentStart t k) ≤ t.length :=
      t.skipWhile_le isDigit (Nat.le_of_lt small)
    have order := t.le_skipWhile isDigit (exponentStart t k)
    simp only [exponentAt, first, stop, Nat.add_assoc d k 1, window.holds_eq '-' second,
      Nat.add_sub_add_left]
    rw [window.exponentValue_eq 0 (by omega)]
  · rw [if_neg found, if_neg fun found' => found ?_]
    have small : exponentStart t k < t.length := by
      simp only [hasExponent, Bool.and_eq_true, decide_eq_true_eq] at found'
      exact found'.2.1
    rw [window.hasExponent_eq small, found']

/-- The digits after a point, and where they end. -/
def fractionAt (s : Source) (point whole : Nat) : Nat × Nat × Nat :=
  if s.holds point '.' then
    (s.digitsValue 10 (s.skipWhile isDigit (point + 1) - (point + 1)) (point + 1) whole,
      s.skipWhile isDigit (point + 1) - (point + 1), s.skipWhile isDigit (point + 1))
  else (whole, 0, point)

omit window in
theorem scanDecimal_form (s : Source) (i : Nat) : s.scanDecimal i
    = let point := s.skipWhile isDigit i
      let fraction := fractionAt s point (s.digitsValue 10 (point - i) i 0)
      let exponent := s.scanExponent fraction.2.2
      if point - i + fraction.2.1 = 0 then (0, exponent.2)
      else (Binary64.ofDecimal fraction.1 (exponent.1 - fraction.2.1), exponent.2) := rfl

theorem fractionAt_eq {point whole : Nat} (inside : point ≤ t.length)
    (fits : (fractionAt s (d + point) whole).2.2 ≤ d + t.length) :
    fractionAt s (d + point) whole = ((fractionAt t point whole).1, (fractionAt t point whole).2.1,
      d + (fractionAt t point whole).2.2) := by
  rw [fractionAt] at fits ⊢
  rw [fractionAt]
  by_cases dot : s.holds (d + point) '.' = true
  · rw [if_pos dot] at fits
    have fits : s.skipWhile isDigit (d + point + 1) ≤ d + t.length := fits
    have low := le_skipWhile s isDigit (d + point + 1)
    have small : point < t.length := by omega
    have stop := window.skipWhile_eq (k := point + 1) small fits
    have top : t.skipWhile isDigit (point + 1) ≤ t.length := t.skipWhile_le isDigit small
    have order := t.le_skipWhile isDigit (point + 1)
    rw [if_pos dot, if_pos (window.holds_eq '.' small ▸ dot)]
    simp only [Nat.add_assoc d point 1, stop, Nat.add_sub_add_left]
    rw [window.digitsValue_eq 10 whole (by omega)]
  · rw [if_neg dot, if_neg fun dot' => dot (window.holds_of_holds dot')]

omit window in
theorem le_scanExponent (s : Source) (i : Nat) : i ≤ (s.scanExponent i).2 := by
  have low := lt_exponentStart s i
  have order := le_skipWhile s isDigit (exponentStart s i)
  rw [scanExponent_form]
  split
  · exact Nat.le_trans (Nat.le_of_lt low) order
  · exact Nat.le_refl i

omit window in
theorem le_fractionAt (s : Source) (point whole : Nat) :
    point ≤ (fractionAt s point whole).2.2 := by
  have order := le_skipWhile s isDigit (point + 1)
  rw [fractionAt]
  split
  · exact Nat.le_of_lt order
  · exact Nat.le_refl point

theorem scanDecimal_eq (inside : k ≤ t.length) (fits : (s.scanDecimal (d + k)).2 ≤ d + t.length) :
    s.scanDecimal (d + k) = ((t.scanDecimal k).1, d + (t.scanDecimal k).2) := by
  have stop : ∀ (u : Source) (i : Nat), (u.scanDecimal i).2
      = (u.scanExponent (fractionAt u (u.skipWhile isDigit i)
        (u.digitsValue 10 (u.skipWhile isDigit i - i) i 0)).2.2).2 := by
    intro u i
    rw [scanDecimal_form]
    dsimp only
    split <;> rfl
  rw [stop] at fits
  have third := le_scanExponent s (fractionAt s (s.skipWhile isDigit (d + k))
    (s.digitsValue 10 (s.skipWhile isDigit (d + k) - (d + k)) (d + k) 0)).2.2
  have second := le_fractionAt s (s.skipWhile isDigit (d + k))
    (s.digitsValue 10 (s.skipWhile isDigit (d + k) - (d + k)) (d + k) 0)
  have point := window.skipWhile_eq (p := isDigit) inside (by omega)
  have top : t.skipWhile isDigit k ≤ t.length := t.skipWhile_le isDigit inside
  have order := t.le_skipWhile isDigit k
  simp only [point, Nat.add_sub_add_left, window.digitsValue_eq 10 0
    (by omega : k + (t.skipWhile isDigit k - k) ≤ t.length)] at fits second third
  have fraction := window.fractionAt_eq top (Nat.le_trans third fits)
  rw [fraction] at fits
  have exponent := window.scanExponent_eq fits
  rw [scanDecimal_form, scanDecimal_form]
  simp only [point, Nat.add_sub_add_left, window.digitsValue_eq 10 0
    (by omega : k + (t.skipWhile isDigit k - k) ≤ t.length), fraction, exponent]
  split <;> rfl

/-- A hexadecimal number stands at a position. -/
def hasHex (s : Source) (i : Nat) : Bool :=
  decide (i + 2 < s.length) && s.holds i '0' && (s.byte (i + 1) ||| 0x20) == 0x78
    && isHexDigit (s.byte (i + 2))

theorem hasHex_eq (inside : k + 2 < t.length) : hasHex s (d + k) = hasHex t k := by
  have bound := window.inside
  rw [hasHex, hasHex, window.holds_eq '0' (by omega), Nat.add_assoc d k 1, Nat.add_assoc d k 2,
    window.byte (k + 1) (by omega), window.byte (k + 2) inside, decide_eq_true inside,
    decide_eq_true (by omega : d + (k + 2) < s.length)]

theorem scanNumber_eq (inside : k ≤ t.length) (fits : (s.scanNumber (d + k)).2 ≤ d + t.length) :
    s.scanNumber (d + k) = ((t.scanNumber k).1, d + (t.scanNumber k).2) := by
  have form : ∀ (u : Source) (i : Nat), u.scanNumber i = if hasHex u i then
      ((u.hexFloat (u.skipWhile isHexDigit (i + 2) - (i + 2)) (i + 2) 0).toBits,
        u.skipWhile isHexDigit (i + 2))
    else u.scanDecimal i := fun _ _ => rfl
  rw [form s] at fits ⊢
  rw [form t]
  by_cases hex : hasHex s (d + k) = true
  · rw [if_pos hex] at fits
    have fits : s.skipWhile isHexDigit (d + k + 2) ≤ d + t.length := fits
    have digit : (decide (d + k + 2 < s.length) && isHexDigit (s.byte (d + k + 2))) = true := by
      simp only [hasHex, Bool.and_eq_true] at hex ⊢
      exact ⟨hex.1.1.1, hex.2⟩
    have up := lt_skipWhile digit
    have small : k + 2 < t.length := by omega
    rw [if_pos hex, if_pos (window.hasHex_eq small ▸ hex)]
    have stop := window.skipWhile_eq (k := k + 2) (Nat.le_of_lt small) fits
    have top : t.skipWhile isHexDigit (k + 2) ≤ t.length :=
      t.skipWhile_le isHexDigit (Nat.le_of_lt small)
    have order := t.le_skipWhile isHexDigit (k + 2)
    simp only [Nat.add_assoc d k 2, stop, Nat.add_sub_add_left]
    rw [window.hexFloat_eq 0 (by omega)]
  · rw [if_neg hex] at fits
    rw [if_neg hex, if_neg fun hex' => hex ?_]
    · exact window.scanDecimal_eq inside fits
    · have small : k + 2 < t.length := by
        simp only [hasHex, Bool.and_eq_true, decide_eq_true_eq] at hex'
        exact hex'.1.1.1
      rw [window.hasHex_eq small, hex']

/-! ## Strings, signs and names -/

/-- A quote that closes a string of the window closes it in the text. -/
theorem closingQuote?_of_part (le : bound ≤ bound')
    (found : t.closingQuote? quote bound k = some j) :
    s.closingQuote? quote bound' (d + k) = some (d + j) := by
  have inside := window.inside
  induction bound generalizing bound' k with
  | zero => cases found
  | succ bound ih =>
    obtain ⟨bound', rfl⟩ : ∃ n, bound' = n + 1 := ⟨bound' - 1, by omega⟩
    have le : bound ≤ bound' := by omega
    simp only [closingQuote?] at found ⊢
    by_cases out : t.length ≤ k
    · simp [out] at found
    rw [if_neg out] at found
    rw [if_neg (by omega), window.byte k (by omega)]
    split at found
    · rw [if_pos ‹_›]
      cases found
      rfl
    rw [if_neg ‹_›]
    split at found
    · rw [if_pos ‹_›]
      exact ih le found
    rw [if_neg ‹_›]
    by_cases out' : t.length < k + 2
    · simp [out'] at found
    rw [if_neg out'] at found
    rw [if_neg (by omega), Nat.add_assoc d k 1, window.byte (k + 1) (by omega)]
    split at found
    · rw [if_pos ‹_›]
      exact ih le found
    rw [if_neg ‹_›]
    by_cases out'' : t.length < k + 4
    · simp [out''] at found
    rw [if_neg out''] at found
    rw [if_neg (by omega)]
    exact ih le found

omit window in
theorem le_closingQuote? {i : Nat} (found : s.closingQuote? quote bound i = some j) : i ≤ j := by
  induction bound generalizing i with
  | zero => cases found
  | succ bound ih =>
    simp only [closingQuote?] at found
    split at found
    · cases found
    split at found
    · exact Nat.le_of_eq (Option.some.inj found)
    split at found
    · exact Nat.le_of_succ_le (ih found)
    split at found
    · cases found
    split at found
    · exact Nat.le_trans (by omega) (ih found)
    split at found
    · cases found
    · exact Nat.le_trans (by omega) (ih found)

/-- A quote inside the window closes a string of the window. -/
theorem closingQuote?_eq (enough : t.length - k ≤ bound')
    (found : s.closingQuote? quote bound (d + k) = some j) (fits : j < d + t.length) :
    ∃ j', t.closingQuote? quote bound' k = some j' ∧ j = d + j' := by
  have inside := window.inside
  induction bound generalizing bound' k with
  | zero => cases found
  | succ bound ih =>
    have low := le_closingQuote? found
    obtain ⟨bound', rfl⟩ : ∃ n, bound' = n + 1 := ⟨bound' - 1, by omega⟩
    simp only [closingQuote?] at found ⊢
    rw [if_neg (by omega), window.byte k (by omega)] at found
    rw [if_neg (by omega)]
    split at found
    · rw [if_pos ‹_›]
      exact ⟨k, rfl, (Option.some.inj found).symm⟩
    rw [if_neg ‹_›]
    split at found
    · rw [if_pos ‹_›]
      exact ih (k := k + 1) (by omega) found
    rw [if_neg ‹_›]
    split at found
    · cases found
    -- the rest of the escape lies before the quote
    have second : k + 1 < t.length := by
      split at found
      · have := le_closingQuote? found
        omega
      · split at found
        · cases found
        · have := le_closingQuote? found
          omega
    rw [Nat.add_assoc d k 1, window.byte (k + 1) second] at found
    rw [if_neg (by omega)]
    split at found
    · rw [if_pos ‹_›]
      exact ih (k := k + 2) (by omega) found
    rw [if_neg ‹_›]
    split at found
    · cases found
    have := le_closingQuote? found
    rw [if_neg (by omega)]
    exact ih (k := k + 4) (by omega) found

theorem scanString?_eq {stop : Nat} (inside : k < t.length)
    (found : s.scanString? (d + k) = some stop) (fits : stop ≤ d + t.length) :
    ∃ stop', t.scanString? k = some stop' ∧ stop = d + stop' := by
  rw [scanString?, Option.map_eq_some_iff] at found
  obtain ⟨j, found, rfl⟩ := found
  rw [window.byte k inside, Nat.add_assoc d k 1] at found
  obtain ⟨j', found', rfl⟩ :=
    window.closingQuote?_eq (by omega : t.length - (k + 1) ≤ t.length - k) found fits
  refine ⟨j' + 1, ?_, by omega⟩
  rw [scanString?, found']
  rfl

/-- A string that the text leaves open is open in the window. -/
theorem scanString?_eq_none (inside : k < t.length)
    (isOpen : s.scanString? (d + k) = none) : t.scanString? k = none := by
  have bound := window.inside
  rw [scanString?, Option.map_eq_none_iff, window.byte k inside, Nat.add_assoc d k 1] at isOpen
  rw [scanString?, Option.map_eq_none_iff, Option.eq_none_iff_forall_ne_some]
  intro j found
  rw [window.closingQuote?_of_part (by omega : t.length - k ≤ s.length - (d + k)) found] at isOpen
  cases isOpen

theorem startsWith_eq {bytes : List UInt8}
    (inside : k + bytes.length ≤ t.length) : s.startsWith (d + k) bytes = t.startsWith k bytes := by
  induction bytes generalizing k with
  | nil => rfl
  | cons b bytes ih =>
    rw [List.length_cons] at inside
    simp only [startsWith]
    rw [window.test_eq (· == b) (by omega), Nat.add_assoc d k 1, ih (by omega)]

/-- The sign at a position of the text, if it ends in the window. -/
theorem findSign?_eq {sign : List UInt8 × Token} (inside : k < t.length)
    (found : s.findSign? (d + k) = some sign) (fits : k + sign.1.length ≤ t.length) :
    t.findSign? k = some sign := by
  have fewer : ∀ x : List UInt8 × Token, t.startsWith k x.1 = true →
      s.startsWith (d + k) x.1 = true := by
    intro x starts
    rw [window.startsWith_eq (startsWith_le starts (Nat.le_of_lt inside)), starts]
  have found : signTable.find? (fun x => s.startsWith (d + k) x.1) = some sign := found
  show signTable.find? (fun x => t.startsWith k x.1) = some sign
  generalize signTable = table at found ⊢
  induction table with
  | nil => cases found
  | cons x table ih =>
    rw [List.find?_cons] at found ⊢
    cases first : s.startsWith (d + k) x.1 with
    | true =>
      rw [first] at found
      obtain rfl : x = sign := Option.some.inj found
      rw [← window.startsWith_eq fits, first]
    | false =>
      rw [first] at found
      cases first' : t.startsWith k x.1 with
      | true => rw [fewer x first'] at first; cases first
      | false => exact ih found

theorem findSign?_eq_none (inside : k < t.length)
    (absent : s.findSign? (d + k) = none) : t.findSign? k = none := by
  rw [findSign?, List.find?_eq_none] at absent ⊢
  intro sign mem starts
  refine absent sign mem ?_
  have starts : t.startsWith k sign.1 = true := starts
  show s.startsWith (d + k) sign.1 = true
  rw [window.startsWith_eq (startsWith_le starts (Nat.le_of_lt inside)), starts]

theorem scanName_eq (inside : k < t.length) (fits : (s.scanName (d + k)).2 ≤ d + t.length) :
    s.scanName (d + k) = ((t.scanName k).1, d + (t.scanName k).2) := by
  simp only [scanName, window.test_eq isNameStart inside] at fits ⊢
  split at fits
  next starts =>
    rw [Nat.add_assoc d k 1] at fits
    have stop := window.skipWhile_eq (k := k + 1) inside fits
    have top : t.skipWhile isNameByte (k + 1) ≤ t.length := t.skipWhile_le isNameByte inside
    have order := t.le_skipWhile isNameByte (k + 1)
    rw [if_pos starts, if_pos starts, Nat.add_assoc d k 1, stop, Nat.add_sub_add_left,
      window.slice k _ (by omega)]
  next none => rw [if_neg none, if_neg none]

/-! ## Tokens -/

/-- A token of the text that ends in the window. -/
theorem scanAt_eq (inside : k < t.length)
    (fits : (s.scanAt (d + k)).start + (s.scanAt (d + k)).length ≤ d + t.length) :
    s.scanAt (d + k) = (t.scanAt k).shift d := by
  simp only [scanAt, window.byte k inside] at fits ⊢
  split
  next quote =>
    rw [if_pos quote] at fits
    cases found : s.scanString? (d + k) with
    | none =>
      rw [window.scanString?_eq_none inside found]
      rfl
    | some stop =>
      have low : d + k ≤ stop := by
        rw [scanString?, Option.map_eq_some_iff] at found
        obtain ⟨j, found, rfl⟩ := found
        have := le_closingQuote? found
        omega
      simp only [found] at fits
      obtain ⟨stop', found', rfl⟩ := window.scanString?_eq inside found (by omega)
      simp only [found', Lexeme.shift, Nat.add_sub_add_left]
  next noQuote =>
    rw [if_neg noQuote] at fits
    split
    next digit =>
      rw [if_pos digit] at fits
      have same := window.scanNumber_eq (Nat.le_of_lt inside) (by
        simp only at fits
        omega)
      simp only [same, Lexeme.shift, Nat.add_sub_add_left]
    next noDigit =>
      rw [if_neg noDigit] at fits
      cases found : s.findSign? (d + k) with
      | some sign =>
        simp only [found] at fits
        rw [window.findSign?_eq inside found (by omega)]
        rfl
      | none =>
        simp only [found] at fits
        have same := window.scanName_eq inside (by omega)
        rw [window.findSign?_eq_none inside found]
        simp only [same, Lexeme.shift, Nat.add_sub_add_left]

/-- The next token of the text, if it starts and ends in the window. -/
theorem scan_eq (inside : k ≤ t.length) (starts : (s.scan (d + k)).start < d + t.length)
    (fits : (s.scan (d + k)).start + (s.scan (d + k)).length ≤ d + t.length) :
    s.scan (d + k) = (t.scan k).shift d := by
  have bound := window.inside
  rw [scan_start] at starts
  have same := window.skipBlanks_eq inside (Nat.le_of_lt starts)
  simp only [scan] at fits ⊢
  rw [if_neg (by omega), same] at fits
  rw [if_neg (by omega), if_neg (by omega), same]
  exact window.scanAt_eq (by omega) fits

/-- A window that reaches to the end of the text has all its tokens. -/
theorem scan_eq_of_tail (tail : d + t.length = s.length)
    (inside : k ≤ t.length) : s.scan (d + k) = (t.scan k).shift d := by
  have top : s.skipBlanks (d + k) ≤ s.length := skipBlanks_le s (by omega)
  have same := window.skipBlanks_eq inside (by omega)
  by_cases last : s.length ≤ s.skipBlanks (d + k)
  · simp only [scan]
    rw [if_pos last, if_pos (by omega), same]
    rfl
  · refine window.scan_eq inside ?_ ?_
    · rw [scan, if_neg last, scanAt_start]
      omega
    · have := scan_inside s (by omega : d + k ≤ s.length)
      omega

end Window

/-! ## Sources that show the same text -/

namespace Shows

variable {text : ByteArray}

variable (shown : s.Shows text)
include shown

theorem whole : Window s (ofBytes text) 0 := by
  have size := (ofBytes text).length
  refine shown.window (shows_ofBytes text) (by omega) ?_
  rw [Nat.zero_add, ByteArray.extract_zero_size]

theorem skipBlanks (i : Nat) : s.skipBlanks i = (ofBytes text).skipBlanks i := by
  have length := shown.length
  by_cases inside : i ≤ text.size
  · have same := shown.whole.skipBlanks_eq (k := i) inside (by
      have := s.skipBlanks_le (i := i) (by omega)
      simp only [ofBytes, Nat.zero_add]
      omega)
    simpa only [Nat.zero_add] using same
  · rw [skipBlanks_of_none (skipOne?_of_length_le (by omega)),
      skipBlanks_of_none (skipOne?_of_length_le (Nat.le_of_not_le inside))]

theorem scanName (i : Nat) : s.scanName i = (ofBytes text).scanName i := by
  have length := shown.length
  by_cases inside : i < text.size
  · have stop := s.stops_length.scanName_le (i := i) (by omega)
    have same := shown.whole.scanName_eq inside (by
      simp only [ofBytes, Nat.zero_add]
      omega)
    simpa only [Nat.zero_add] using same
  · have out : ¬ i < s.length := by omega
    simp [Source.scanName, out, show ¬ i < (ofBytes text).length from inside]

/-- The next token depends on the text alone. -/
theorem scan (i : Nat) : s.scan i = (ofBytes text).scan i := by
  have length := shown.length
  by_cases inside : i ≤ text.size
  · have same := shown.whole.scan_eq_of_tail (by simp only [ofBytes]; omega) inside
    simpa only [Lexeme.shift, Nat.zero_add] using same
  · have out : (ofBytes text).length ≤ i := Nat.le_of_not_le inside
    have low := (ofBytes text).le_skipBlanks i
    rw [Source.scan, Source.scan, shown.skipBlanks, if_pos (by
      show s.length ≤ _
      have : (ofBytes text).length = text.size := rfl
      omega), if_pos (Nat.le_trans out low)]

end Shows

/-! ## Room for tokens -/

theorem lt_scanNumber (inside : i < s.length) (digit : isDigit (s.byte i) = true) :
    i < (s.scanNumber i).2 := by
  have hex := s.le_skipWhile isHexDigit (i + 2)
  have point : i < s.skipWhile isDigit i := Window.lt_skipWhile (by simp [inside, digit])
  simp only [scanNumber]
  split
  · simp only
    omega
  · rw [Window.scanDecimal_form]
    have fraction := Window.le_fractionAt s (s.skipWhile isDigit i)
      (s.digitsValue 10 (s.skipWhile isDigit i - i) i 0)
    have exponent := Window.le_scanExponent s (Window.fractionAt s (s.skipWhile isDigit i)
      (s.digitsValue 10 (s.skipWhile isDigit i - i) i 0)).2.2
    simp only
    split
    all_goals
      simp only
      omega

/-- A token that takes up no room is the end of the text or a place where none
starts. -/
theorem token_of_length_eq_zero (s : Source) (empty : (s.scan i).length = 0) :
    (s.scan i).token = .eof ∨ (s.scan i).token = .bad := by
  have signs : ∀ sign ∈ signTable, sign.1.length ≠ 0 := by decide +kernel
  rcases s.scan_cases i with ⟨-, last⟩ | ⟨inside, scans⟩
  · exact .inl (by rw [last])
  generalize s.scan i = l at scans empty
  generalize s.skipBlanks i = j at scans inside
  cases scans with
  | openString | nothing => exact .inr rfl
  | string quote found =>
    rw [scanString?, Option.map_eq_some_iff] at found
    obtain ⟨k, found, rfl⟩ := found
    have := Window.le_closingQuote? found
    simp only at empty
    omega
  | number digit =>
    have := lt_scanNumber inside digit
    simp only at empty
    omega
  | sign found => exact absurd empty (signs _ (List.mem_of_find?_eq_some found))
  | word =>
    have := s.le_skipWhile isNameByte (j + 1)
    simp only at empty
    omega

/-- A token that is not the last one takes up room. -/
theorem lt_stop_scan (proper : (s.scan i).token ≠ .eof ∧ (s.scan i).token ≠ .bad) :
    1 ≤ (s.scan i).length ∧ i < (s.scan i).stop := by
  have room : (s.scan i).length ≠ 0 := fun empty =>
    (s.token_of_length_eq_zero empty).elim proper.1 proper.2
  have start := s.scan_start i
  have low := s.le_skipBlanks i
  rw [Lexeme.stop]
  omega

end ArenaScript.Source
