import ArenaScript.Proofs.Source.Windows

/-!
# Parameter lists

The parameters of a function literal are read twice.  When the literal is
evaluated they are tokens of the text around it, in which they stand between
parentheses before a brace.  When the function is called they are names found
byte by byte in the text of the function, which must lead to its body.

Main definitions:

- `Source.ParameterList`: a parameter list as a run of tokens.
- `Source.LeadsToBody`: names found byte by byte lead to a body.
- `Source.Callable`: the text of a function that can be called.

Main results:

- `Source.ParameterList.leads`: the two readings agree.
- `Source.callable_extract`: the text of a literal can be called.
-/

namespace ArenaScript.Source

variable {s t : Source} {d i : Nat}

/-! ## Signs and names as tokens -/

theorem le_stop (s : Source) (i : Nat) : i ≤ (s.scan i).stop := by
  rw [Lexeme.stop, scan_start]
  exact Nat.le_trans (s.le_skipBlanks i) (Nat.le_add_right _ _)

/-- Nothing more is passed over where blanks have been passed over. -/
theorem skipBlanks_skipBlanks (s : Source) (i : Nat) :
    s.skipBlanks (s.skipBlanks i) = s.skipBlanks i := by
  induction left : s.length - i using Nat.strongRecOn generalizing i with
  | ind left ih =>
    cases step : s.skipOne? i with
    | none => rw [skipBlanks_of_none step, skipBlanks_of_none step]
    | some j =>
      have up := lt_of_skipOne? step
      have inside : i < s.length := Nat.lt_of_not_le fun out => by
        rw [skipOne?_of_length_le out] at step
        cases step
      rw [skipBlanks_of_step step]
      exact ih (s.length - j) (by omega) j rfl

/-- A sign stands where blanks end. -/
theorem exists_sign (sign : (s.scan i).token.isSign = true) :
    ∃ bytes, (bytes, (s.scan i).token) ∈ signTable
      ∧ s.startsWith (s.skipBlanks i) bytes = true ∧ (s.scan i).length = bytes.length := by
  rcases s.scan_cases i with ⟨-, last⟩ | ⟨-, scans⟩
  · rw [last] at sign
    cases sign
  generalize s.scan i = l at scans sign
  cases scans with
  | sign found =>
    have starts := List.find?_some found
    exact ⟨_, List.mem_of_find?_eq_some found, starts, rfl⟩
  | word =>
    exact absurd sign (Bool.eq_false_iff.mp (Token.isSign_of_isWord (wordToken_cases _).1))
  | _ => cases sign

theorem holds_of_startsWith {b : UInt8} {bytes : List UInt8}
    (starts : s.startsWith i (b :: bytes) = true) : i < s.length ∧ s.byte i = b := by
  simp only [startsWith, Bool.and_eq_true, decide_eq_true_eq, beq_iff_eq] at starts
  exact starts.1

/-- Only one character stands at a position. -/
theorem holds_other {c c' : Char} (here : s.holds i c = true)
    (other : c.toUInt8 ≠ c'.toUInt8) : s.holds i c' = false := by
  simp only [holds, Bool.and_eq_true, beq_iff_eq] at here
  rw [holds, here.2, beq_eq_false_iff_ne.mpr other, Bool.and_false]

/-- A token that is one character stands where blanks end. -/
theorem holds_of_sign {token : Token} {c : Char} (eq : (s.scan i).token = token)
    (mark : token = .rightParen ∧ c = ')' ∨ token = .comma ∧ c = ','
      ∨ token = .leftBrace ∧ c = '\x7b' ∨ token = .leftParen ∧ c = '(') :
    s.holds (s.skipBlanks i) c = true ∧ (s.scan i).stop = s.skipBlanks i + 1 := by
  have single : token.isSign = true ∧ ∀ sign ∈ signTable, sign.2 = token → sign.1 = [c.toUInt8] := by
    rcases mark with ⟨rfl, rfl⟩ | ⟨rfl, rfl⟩ | ⟨rfl, rfl⟩ | ⟨rfl, rfl⟩ <;> decide +kernel
  obtain ⟨bytes, mem, starts, length⟩ := exists_sign (eq ▸ single.1)
  obtain rfl : bytes = [c.toUInt8] := single.2 _ mem eq
  obtain ⟨inside, here⟩ := holds_of_startsWith starts
  refine ⟨by simp [holds, inside, here], ?_⟩
  rw [Lexeme.stop, scan_start, length]
  rfl

/-- A name as a token is a name byte by byte. -/
theorem scanName_of_ident (eq : (s.scan i).token = .ident) :
    s.scanName (s.skipBlanks i) = (.ident, (s.scan i).stop)
      ∧ ∀ c : Char, isNameStart c.toUInt8 = false → s.holds (s.skipBlanks i) c = false := by
  rw [Lexeme.stop, scan_start]
  rcases s.scan_cases i with ⟨-, last⟩ | ⟨inside, scans⟩
  · rw [last] at eq
    cases eq
  generalize s.scan i = l at scans eq
  generalize s.skipBlanks i = j at scans inside
  cases scans with
  | sign found =>
    obtain ⟨sign, -⟩ := isSign_of_mem (List.mem_of_find?_eq_some found)
    obtain rfl := eq
    cases sign
  | word start =>
    have up := s.le_skipWhile isNameByte (j + 1)
    refine ⟨?_, fun c free => ?_⟩
    · simp only [scanName, decide_eq_true inside, start, Bool.and_true, if_true]
      exact Prod.ext eq (by simp only; omega)
    · rw [Bool.eq_false_iff]
      intro here
      simp only [holds, Bool.and_eq_true, beq_iff_eq] at here
      rw [here.2, free] at start
      cases start
  | _ => cases eq

/-! ## The two readings -/

/-- Parameters as tokens, from a position up to that after the closing
parenthesis. -/
inductive ParameterList (s : Source) : Nat → Nat → Prop
  | none {p : Nat} (paren : (s.scan p).token = .rightParen) : ParameterList s p (s.scan p).stop
  | last {p : Nat} (ident : (s.scan p).token = .ident)
      (paren : (s.scan (s.scan p).stop).token = .rightParen) :
      ParameterList s p (s.scan (s.scan p).stop).stop
  | more {p p' : Nat} (ident : (s.scan p).token = .ident)
      (comma : (s.scan (s.scan p).stop).token = .comma)
      (rest : ParameterList s (s.scan (s.scan p).stop).stop p') : ParameterList s p p'

theorem ParameterList.le {p p' : Nat} (list : ParameterList s p p') : p ≤ p' := by
  induction list with
  | none => exact s.le_stop _
  | last => exact Nat.le_trans (s.le_stop _) (s.le_stop _)
  | more _ _ _ ih => exact Nat.le_trans (Nat.le_trans (s.le_stop _) (s.le_stop _)) ih

/-- Where the body starts after the end of a parameter list. -/
def bodyStart (s : Source) (pos : Nat) : Nat :=
  let pos := if s.holds pos ')' then pos + 1 else pos
  let pos := s.skipBlanks pos
  if s.holds pos '\x7b' then pos + 1 else pos

/-- Where the next parameter is looked for after a name. -/
def afterName (s : Source) (stop : Nat) : Nat :=
  let pos := s.skipBlanks stop
  if s.holds pos ',' then pos + 1 else pos

/-- Names found byte by byte lead to a closing parenthesis, and from there to a
body inside the text. -/
inductive LeadsToBody (s : Source) : Nat → Prop
  | body {pos : Nat} (paren : s.holds (s.skipBlanks pos) ')' = true)
      (inside : s.bodyStart (s.skipBlanks pos) < s.length) : LeadsToBody s pos
  | name {pos : Nat} (free : s.holds (s.skipBlanks pos) ')' = false)
      (ident : (s.scanName (s.skipBlanks pos)).1 = .ident)
      (rest : LeadsToBody s (s.afterName (s.scanName (s.skipBlanks pos)).2)) : LeadsToBody s pos

/-- The text of a function that can be called: after its opening parenthesis the
parameters lead to a body. -/
def Callable (text : ByteArray) : Prop := (ofBytes text).LeadsToBody 1

namespace LeadsToBody

variable {pos : Nat}

theorem lt (leads : s.LeadsToBody pos) : pos < s.length := by
  have up := s.le_skipBlanks pos
  cases leads with
  | body paren => exact Nat.lt_of_le_of_lt up (lt_of_holds paren)
  | name _ ident =>
    simp only [scanName] at ident
    split at ident
    · rename_i starts
      simp only [Bool.and_eq_true, decide_eq_true_eq] at starts
      omega
    · cases ident

/-- At a closing parenthesis the body comes next, at a name another parameter. -/
theorem step (leads : s.LeadsToBody pos) :
    (s.holds (s.skipBlanks pos) ')' = true ∧ s.bodyStart (s.skipBlanks pos) < s.length) ∨
      s.holds (s.skipBlanks pos) ')' = false ∧ (s.scanName (s.skipBlanks pos)).1 = .ident
        ∧ s.LeadsToBody (s.afterName (s.scanName (s.skipBlanks pos)).2) := by
  cases leads with
  | body paren inside => exact .inl ⟨paren, inside⟩
  | name free ident rest => exact .inr ⟨free, ident, rest⟩

/-- Blanks before a parameter do not matter. -/
theorem skip (leads : s.LeadsToBody pos) : s.LeadsToBody (s.skipBlanks pos) := by
  cases leads with
  | body paren inside => exact .body (by rwa [skipBlanks_skipBlanks]) (by rwa [skipBlanks_skipBlanks])
  | name free ident rest =>
    exact .name (by rwa [skipBlanks_skipBlanks]) (by rwa [skipBlanks_skipBlanks])
      (by rwa [skipBlanks_skipBlanks])

end LeadsToBody

section

variable {k : Nat}

/-- A token before a position in a window. -/
theorem Window.scan_before (window : Window s t d) {p : Nat} (here : p = d + k)
    (before : (s.scan p).stop < d + t.length) :
    s.scan p = (t.scan k).shift d ∧ (s.scan p).stop = d + (t.scan k).stop := by
  subst here
  have up := s.le_stop (d + k)
  rw [Lexeme.stop] at before up
  have same := window.scan_eq (k := k) (by omega) (by omega) (by omega)
  refine ⟨same, ?_⟩
  rw [same, Lexeme.stop, Lexeme.stop, Lexeme.shift]
  simp only
  omega

/-- A closing parenthesis and a brace, read byte by byte. -/
theorem bodyStart_eq (paren : (t.scan k).token = .rightParen)
    (brace : (t.scan (t.scan k).stop).token = .leftBrace) :
    t.holds (t.skipBlanks k) ')' = true
      ∧ t.bodyStart (t.skipBlanks k) = (t.scan (t.scan k).stop).stop := by
  obtain ⟨close, stop⟩ := holds_of_sign (c := ')') paren (.inl ⟨rfl, rfl⟩)
  obtain ⟨opens, stop'⟩ := holds_of_sign (c := '\x7b') brace (.inr (.inr (.inl ⟨rfl, rfl⟩)))
  refine ⟨close, ?_⟩
  rw [stop] at opens stop' ⊢
  rw [bodyStart, if_pos close, if_pos opens, stop']

/-- The parameters of a literal lead to the body of the function.  The text of
the function is a window of the text around the literal; the brace before the
body ends inside it. -/
theorem ParameterList.leads (window : Window s t d) {p p' : Nat} (list : ParameterList s p p')
    (here : p = d + k) (brace : (s.scan p').token = .leftBrace)
    (fits : (s.scan p').stop < d + t.length) : t.LeadsToBody k := by
  have up := s.le_stop p'
  have close : ∀ {i j : Nat}, (s.scan i).token = .rightParen → i = d + j → (s.scan i).stop = p' →
      t.holds (t.skipBlanks j) ')' = true ∧ t.LeadsToBody j := by
    intro i j paren there stop
    obtain ⟨same, stop'⟩ := window.scan_before there (by omega)
    obtain ⟨same', stop''⟩ := window.scan_before (k := (t.scan j).stop) (stop ▸ stop') (by omega)
    rw [same] at paren
    rw [same'] at brace
    obtain ⟨holds, start⟩ := bodyStart_eq (t := t) paren brace
    exact ⟨holds, .body holds (by omega)⟩
  induction list generalizing k with
  | none paren => exact (close paren here rfl).2
  | @last p ident paren =>
    have first := s.le_stop (s.scan p).stop
    obtain ⟨same, stop⟩ := window.scan_before here (by omega)
    rw [same] at ident
    obtain ⟨name, other⟩ := scanName_of_ident (s := t) (i := k) ident
    refine .name (other ')' (by decide)) (by rw [name]) ?_
    obtain ⟨closes, rest⟩ := close paren stop rfl
    rw [name, afterName, holds_other closes (by decide)]
    exact rest.skip
  | @more p p' ident comma rest ih =>
    have first := s.le_stop (s.scan p).stop
    have second := rest.le
    obtain ⟨same, stop⟩ := window.scan_before here (by omega)
    obtain ⟨same', stop'⟩ := window.scan_before stop (by omega)
    rw [same] at ident
    rw [same'] at comma
    obtain ⟨name, other⟩ := scanName_of_ident (s := t) (i := k) ident
    obtain ⟨there, after⟩ := holds_of_sign (s := t) (c := ',') comma (.inr (.inl ⟨rfl, rfl⟩))
    refine .name (other ')' (by decide)) (by rw [name]) ?_
    rw [name, afterName, if_pos there, ← after]
    exact ih stop' brace fits up close

end

/-- The text of a literal, from its opening parenthesis on, can be called. -/
theorem callable_extract {text : ByteArray} {p p' stop : Nat} (start : 0 < p)
    (list : (ofBytes text).ParameterList p p')
    (brace : ((ofBytes text).scan p').token = .leftBrace)
    (fits : ((ofBytes text).scan p').stop < stop) (inside : stop ≤ text.size) :
    Callable (text.extract (p - 1) stop) := by
  have low := list.le
  have up := (ofBytes text).le_stop p'
  have size : (text.extract (p - 1) stop).size = stop - (p - 1) := by
    rw [ByteArray.size_extract, Nat.min_eq_left inside]
  have whole : p - 1 + (text.extract (p - 1) stop).size = stop := by omega
  have window : Window (ofBytes text) (ofBytes (text.extract (p - 1) stop)) (p - 1) :=
    (shows_ofBytes text).window (shows_ofBytes _) (by omega) (by rw [whole])
  exact list.leads window (by omega) brace (by show _ < p - 1 + (text.extract (p - 1) stop).size; omega)

end ArenaScript.Source
