import ArenaScript.Proofs.Source.Parts
import ArenaScript.Proofs.Source.Tiling

/-!
# Blanks and comments between tokens

Blanks and comments may be put between the tokens of a text: at its start and after
any token.  They are passed over as a whole, the tokens before them end where a blank
follows, and the tokens after them are those of the rest of the text.

Main definitions:

- `Source.Padding`: blanks, a comment or a line comment.
- `Source.Follow`: the tokens from a position on.
- `Source.Reaches`: a position between tokens.
- `Source.tokensOf`: what the tokens of a text tell, wherever they stand.

Main results:

- `Source.Padding.skipBlanks_eq`: padding is passed over.
- `Source.Part.scan_eq`: tokens in front of a blank.
- `Source.padding_is_invisible`: padding does not change the tokens of a text.
-/

namespace ArenaScript.Source

/-- Blanks, a comment between blanks, or a line comment after a blank. -/
inductive Padding : List UInt8 → Prop
  | blanks {w : List UInt8} (some : w ≠ []) (blank : ∀ b ∈ w, isBlank b = true) : Padding w
  | comment {c : List UInt8} (closed : ¬ [0x2a, 0x2f] <:+: c) :
      Padding (0x20 :: 0x2f :: 0x2a :: (c ++ [0x2a, 0x2f, 0x20]))
  | line {c : List UInt8} (single : 0x0a ∉ c) : Padding (0x20 :: 0x2f :: 0x2f :: (c ++ [0x0a]))

variable {s t : Source} {i : Nat} {w c : List UInt8} {ls : List Lexeme}

/-! ## Passing over padding -/

theorem skipBlanks_of_blank {b : UInt8} {rest : List UInt8} (blank : isBlank b = true)
    (stands : s.startsWith i (b :: rest) = true) : s.skipBlanks i = s.skipBlanks (i + 1) := by
  obtain ⟨inside, rfl, -⟩ := startsWith_cons.mp stands
  refine skipBlanks_of_step ?_
  simp [skipOne?, inside, blank]

/-- The end of a comment is its first star with a slash. -/
theorem skipCommentBound_of_closed {rest : List UInt8} (closed : ¬ [0x2a, 0x2f] <:+: c)
    (stands : s.startsWith i (c ++ 0x2a :: 0x2f :: rest) = true) {bound : Nat}
      (enough : c.length ≤ bound) :
    s.skipCommentBound bound (i + 2) = i + c.length + 2 := by
  induction c generalizing i bound with
  | nil =>
    obtain ⟨inside, star, stands⟩ := startsWith_cons.mp stands
    obtain ⟨inside', slash, -⟩ := startsWith_cons.mp stands
    have star : s.holds i '*' = true := holds_iff.mpr ⟨inside, star⟩
    have slash : s.holds (i + 1) '/' = true := holds_iff.mpr ⟨inside', slash⟩
    cases bound with
    | zero => rfl
    | succ bound =>
      rw [skipCommentBound, if_neg (by simp [star, slash])]
      rfl
  | cons b c ih =>
    obtain ⟨bound, rfl⟩ : ∃ n, bound = n + 1 := ⟨bound - 1, by rw [List.length_cons] at enough; omega⟩
    obtain ⟨inside, first, later⟩ := startsWith_cons.mp stands
    have long : i + 2 < s.length := by
      have fits := startsWith_le later inside
      simp only [List.append_eq, List.length_append, List.length_cons] at fits
      omega
    have goesOn : (s.holds i '*' && s.holds (i + 1) '/') = false := by
      rw [Bool.eq_false_iff]
      intro ends
      simp only [Bool.and_eq_true, holds_iff] at ends
      obtain ⟨⟨-, star⟩, -, slash⟩ := ends
      cases c with
      | nil =>
        obtain ⟨-, other, -⟩ := startsWith_cons.mp later
        exact absurd (other.symm.trans slash) (by decide)
      | cons b' c =>
        obtain ⟨-, second, -⟩ := startsWith_cons.mp later
        refine closed ⟨[], c, ?_⟩
        rw [← first, ← second, star, slash]
        rfl
    rw [skipCommentBound, if_pos, List.length_cons]
    · have enough : c.length ≤ bound := by rw [List.length_cons] at enough; omega
      have rest := ih (i := i + 1) (fun inner => closed
        (inner.trans (List.infix_cons (List.infix_refl _))))
        later enough
      rw [show i + 2 + 1 = i + 1 + 2 by omega, rest]
      omega
    · show (decide (i + 2 < s.length) && !(s.holds i '*' && s.holds (i + 1) '/')) = true
      rw [goesOn, decide_eq_true long]
      rfl

/-- Padding is passed over. -/
theorem Padding.skipBlanks_eq (padding : Padding w) (stands : s.startsWith i w = true) :
    s.skipBlanks i = s.skipBlanks (i + w.length) := by
  cases padding with
  | blanks some blank =>
    clear some
    induction w generalizing i with
    | nil => rfl
    | cons b w ih =>
      rw [skipBlanks_of_blank (blank b (List.mem_cons_self ..)) stands,
        ih (startsWith_cons.mp stands).2.2 fun b mem => blank b (List.mem_cons_of_mem _ mem),
        List.length_cons, Nat.add_assoc, Nat.add_comm 1]
  | @comment c closed =>
    obtain ⟨-, -, next⟩ := startsWith_cons.mp stands
    obtain ⟨here, slash, next'⟩ := startsWith_cons.mp next
    obtain ⟨here', star, text⟩ := startsWith_cons.mp next'
    obtain ⟨-, last⟩ := startsWith_append.mp text
    obtain ⟨-, -, last⟩ := startsWith_cons.mp last
    obtain ⟨-, -, last⟩ := startsWith_cons.mp last
    have end' := (startsWith_cons.mp last).1
    have stop : s.skipCommentBound (s.length - (i + 1 + 4)) (i + 1 + 4) = i + 3 + c.length + 2 :=
      skipCommentBound_of_closed (i := i + 3) closed text (by omega)
    have step : s.skipOne? (i + 1) = some (i + 3 + c.length + 2) := by
      have slash : s.holds (i + 1) '/' = true := holds_iff.mpr ⟨here, slash⟩
      have star' : s.holds (i + 1 + 1) '*' = true := holds_iff.mpr ⟨here', star⟩
      have other : s.holds (i + 1 + 1) '/' = false := by
        simp only [holds, star, Bool.and_eq_false_iff]
        exact .inr (by decide)
      have visible : isBlank (s.byte (i + 1)) = false := by
        rw [(holds_iff.mp slash).2]
        decide
      simp only [skipOne?, slash, star', other, visible, Bool.and_false, Bool.false_eq_true,
        if_false,
        Bool.and_true, decide_eq_true_eq]
      rw [if_pos (by omega), stop]
    rw [skipBlanks_of_blank (by decide) stands, skipBlanks_of_step step,
      skipBlanks_of_blank (by decide) (i := i + 3 + c.length + 2) last]
    simp only [List.length_cons, List.length_append, List.length_nil]
    congr 1
    omega
  | @line c single =>
    obtain ⟨-, -, next⟩ := startsWith_cons.mp stands
    obtain ⟨here, slash, next'⟩ := startsWith_cons.mp next
    obtain ⟨here', slash', text⟩ := startsWith_cons.mp next'
    obtain ⟨-, last⟩ := startsWith_append.mp text
    have stop : s.skipWhile (· != 0x0a) (i + 1 + 2) = i + 3 + c.length :=
      skipWhile_of_run (fun b mem => bne_iff_ne.mpr fun same => single (same ▸ mem)) (by decide) text
    have step : s.skipOne? (i + 1) = some (i + 3 + c.length) := by
      have slash : s.holds (i + 1) '/' = true := holds_iff.mpr ⟨here, slash⟩
      have slash' : s.holds (i + 1 + 1) '/' = true := holds_iff.mpr ⟨here', slash'⟩
      have visible : isBlank (s.byte (i + 1)) = false := by
        rw [(holds_iff.mp slash).2]
        decide
      simp only [skipOne?, slash, slash', visible, Bool.and_false, Bool.false_eq_true, if_false,
        Bool.and_true, if_true, stop]
    rw [skipBlanks_of_blank (by decide) stands, skipBlanks_of_step step,
      skipBlanks_of_blank (by decide) last]
    simp only [List.length_cons, List.length_append, List.length_nil]
    congr 1
    omega

/-- Padding starts with a blank. -/
theorem Padding.first_blank (padding : Padding w) : ∃ b rest, w = b :: rest ∧ isBlank b = true := by
  cases padding with
  | blanks some blank =>
    obtain ⟨b, w, rfl⟩ := List.exists_cons_of_ne_nil some
    exact ⟨b, w, rfl, blank b (List.mem_cons_self ..)⟩
  | comment | line => exact ⟨0x20, _, rfl, by decide⟩

/-! ## Tokens before a boundary -/

/-- A run that goes beyond a window takes up all of it. -/
theorem Window.skipWhile_of_beyond {d k : Nat} (window : Window s t d)
    {p : UInt8 → Bool} (inside : k ≤ t.length) (beyond : d + t.length ≤ s.skipWhile p (d + k)) :
    t.skipWhile p k = t.length := by
  induction left : t.length - k generalizing k with
  | zero =>
    rw [Source.skipWhile_eq t p k, if_neg (by simp; omega)]
    omega
  | succ left ih =>
    have here : k < t.length := by omega
    rw [Source.skipWhile_eq s p (d + k), window.test_eq p here] at beyond
    rw [Source.skipWhile_eq t p k]
    split at beyond
    next more =>
      rw [if_pos more]
      exact ih here beyond (by omega)
    next => omega

/-- A comment that goes beyond a window takes up all of it. -/
theorem Window.skipCommentBound_of_beyond {d k : Nat} (window : Window s t d)
    {bound bound' : Nat} (start : 2 ≤ k) (inside : k ≤ t.length) (enough : t.length - k ≤ bound')
    (beyond : d + t.length ≤ s.skipCommentBound bound (d + k)) :
    t.skipCommentBound bound' k = t.length := by
  induction bound' generalizing bound k with
  | zero =>
    rw [skipCommentBound]
    omega
  | succ bound' ih =>
    rw [skipCommentBound]
    by_cases last : k = t.length
    · rw [if_neg (by simp [last]), last]
    have star := window.holds_eq '*' (k := k - 2) (by omega)
    have slash := window.holds_eq '/' (k := k - 1) (by omega)
    rw [show d + (k - 2) = d + k - 2 by omega] at star
    rw [show d + (k - 1) = d + k - 1 by omega] at slash
    cases bound with
    | zero =>
      simp only [skipCommentBound] at beyond
      omega
    | succ bound =>
      rw [skipCommentBound, star, slash] at beyond
      split at beyond
      next more =>
        simp only [Bool.and_eq_true] at more
        rw [if_pos (by simp only [Bool.and_eq_true, decide_eq_true_eq]; exact ⟨by omega, more.2⟩)]
        exact ih (k := k + 1) (by omega) (by omega) (by omega) beyond
      next => omega

namespace Part

variable {text part : ByteArray} {d k : Nat}

/-- A comment that goes beyond the part takes up the rest of it, unless it is too short
there to be seen. -/
theorem skipBlanks_of_beyond (p : Part text part d) {j : Nat} (inside : k < part.size)
    (step : (ofBytes text).skipOne? (d + k) = some j) (beyond : d + part.size < j) :
    (ofBytes part).skipBlanks k = part.size
      ∨ (ofBytes part).skipBlanks k = k ∧ (ofBytes part).holds k '/' = true
        ∧ (ofBytes part).holds (k + 1) '*' = true := by
  have window := p.window
  have slash := p.holds_eq (c := '/') (by decide) (Nat.le_of_lt inside)
  have slash' := p.holds_eq (c := '/') (by decide) (k := k + 1) inside
  have star' := p.holds_eq (c := '*') (by decide) (k := k + 1) inside
  have finish : (ofBytes part).skipBlanks part.size = part.size :=
    skipBlanks_of_none (skipOne?_of_length_le (Nat.le_refl _))
  simp only [skipOne?] at step
  rw [window.test_eq isBlank inside, slash, Nat.add_assoc d k 1, slash', star'] at step
  split at step
  next =>
    have := Option.some.inj step
    omega
  next visible =>
    split at step
    next line =>
      have reach : (ofBytes part).skipWhile (· != 0x0a) (k + 2) = part.size :=
        window.skipWhile_of_beyond (k := k + 2) (lt_of_holds (Bool.and_eq_true _ _ |>.mp line).2)
          (Nat.le_of_lt (Option.some.inj step ▸ beyond))
      have step' : (ofBytes part).skipOne? k = some part.size := by
        rw [skipOne?, if_neg visible, if_pos line, reach]
      exact .inl ((skipBlanks_of_step step').trans finish)
    next other =>
      split at step
      next comment =>
        simp only [Bool.and_eq_true, decide_eq_true_eq] at comment
        by_cases long : k + 3 < part.size
        · have reach : (ofBytes part).skipCommentBound (part.size - (k + 4)) (k + 4) = part.size :=
            window.skipCommentBound_of_beyond (k := k + 4) (by omega) (by exact long) (Nat.le_refl _)
              (Nat.le_of_lt (Option.some.inj step ▸ beyond))
          have step' : (ofBytes part).skipOne? k = some part.size := by
            rw [skipOne?, if_neg visible, if_neg other, if_pos, ← reach]
            · rfl
            · simp only [Bool.and_eq_true, decide_eq_true_eq]
              exact ⟨⟨long, comment.1.2⟩, comment.2⟩
          exact .inl ((skipBlanks_of_step step').trans finish)
        · refine .inr ⟨skipBlanks_of_none ?_, comment.1.2, comment.2⟩
          rw [skipOne?, if_neg visible, if_neg other, if_neg]
          simp only [Bool.and_eq_true, decide_eq_true_eq]
          exact fun seen => long seen.1.1
      next => cases step

/-- Where a token starts in the part, it starts in the text, unless the text makes the
start of a comment of it. -/
theorem skipBlanks_eq (p : Part text part d) (inside : k ≤ part.size)
    (starts : (ofBytes part).skipBlanks k < part.size)
    (divides : ¬ ((ofBytes part).holds ((ofBytes part).skipBlanks k) '/' = true
      ∧ (ofBytes part).holds ((ofBytes part).skipBlanks k + 1) '*' = true)) :
    (ofBytes text).skipBlanks (d + k) = d + (ofBytes part).skipBlanks k := by
  have window := p.window
  induction left : part.size - k using Nat.strongRecOn generalizing k with
  | ind left ih =>
    have less : k < part.size := Nat.lt_of_le_of_lt (le_skipBlanks _ k) starts
    cases step : (ofBytes text).skipOne? (d + k) with
    | none => rw [skipBlanks_of_none step, skipBlanks_of_none (window.skipOne?_eq_none step)]
    | some j =>
      by_cases fits : j ≤ d + part.size
      · obtain ⟨j', step', rfl⟩ := window.skipOne?_eq inside step fits
        have up := lt_of_skipOne? step'
        have top : j' ≤ part.size := skipOne?_le step'
        rw [skipBlanks_of_step step'] at starts divides ⊢
        rw [skipBlanks_of_step step]
        exact ih (part.size - j') (by omega) top starts divides rfl
      · rcases p.skipBlanks_of_beyond less step (by omega) with whole | ⟨here, slash, star⟩
        · omega
        · rw [here] at divides
          exact absurd ⟨slash, star⟩ divides

/-- A token of the part is a token of the text, unless the text makes the start of a
comment of it. -/
theorem scan_eq (p : Part text part d) (inside : k ≤ part.size)
    (proper : ((ofBytes part).scan k).token ≠ .eof ∧ ((ofBytes part).scan k).token ≠ .bad)
    (divides : ¬ ((ofBytes part).holds ((ofBytes part).scan k).start '/' = true
      ∧ (ofBytes part).holds (((ofBytes part).scan k).start + 1) '*' = true)) :
    (ofBytes text).scan (d + k) = ((ofBytes part).scan k).shift d := by
  have starts : (ofBytes part).skipBlanks k < (ofBytes part).length := by
    refine Nat.lt_of_not_le fun stop => proper.1 ?_
    rw [scan, if_pos stop]
  rw [scan_start] at divides
  have bound := p.inside
  have same := p.skipBlanks_eq inside starts divides
  have alone : (ofBytes part).scan k = (ofBytes part).scanAt ((ofBytes part).skipBlanks k) := by
    rw [scan, if_neg (Nat.not_le.mpr starts)]
  rw [alone] at proper ⊢
  rw [scan, same, if_neg, p.scanAt_eq starts proper.2]
  have : (ofBytes part).skipBlanks k < part.size := starts
  show ¬ text.size ≤ _
  omega

end Part

/-! ## Sequences of tokens -/

/-- The tokens from a position on, up to the last one. -/
inductive Follow (s : Source) : Nat → List Lexeme → Prop
  | stop {i : Nat} (last : (s.scan i).token = .eof ∨ (s.scan i).token = .bad) : Follow s i [s.scan i]
  | next {i : Nat} {ls : List Lexeme} (proper : (s.scan i).token ≠ .eof ∧ (s.scan i).token ≠ .bad)
      (rest : Follow s (s.scan i).stop ls) : Follow s i (s.scan i :: ls)

/-- A position is come to from another one after a number of tokens. -/
inductive Reaches (s : Source) (j : Nat) : Nat → Prop
  | here : Reaches s j j
  | later {i : Nat} (proper : (s.scan i).token ≠ .eof ∧ (s.scan i).token ≠ .bad)
      (rest : Reaches s j (s.scan i).stop) : Reaches s j i

theorem follow_lexemesFrom {bound : Nat} (inside : i ≤ s.length) (enough : s.length - i < bound) :
    s.Follow i (s.lexemesFrom bound i) := by
  induction bound generalizing i with
  | zero => omega
  | succ bound ih =>
    rw [lexemesFrom]
    split
    next last => exact .stop last
    next proper =>
      rw [not_or] at proper
      have top : (s.scan i).stop ≤ s.length := s.scan_inside inside
      have up := (lt_stop_scan proper).2
      exact .next proper (ih top (by omega))

theorem follow_lexemes (s : Source) : s.Follow 0 s.lexemes :=
  follow_lexemesFrom (Nat.zero_le _) (by omega)

theorem Follow.unique {ls ls' : List Lexeme} (first : s.Follow i ls) (second : s.Follow i ls') :
    ls = ls' := by
  induction first generalizing ls' with
  | stop last =>
    cases second with
    | stop => rfl
    | next proper => exact absurd last (by simp [proper.1, proper.2])
  | next proper _ ih =>
    cases second with
    | stop last => exact absurd last (by simp [proper.1, proper.2])
    | next _ rest => rw [ih rest]

/-- Only the place after the blanks matters. -/
theorem Follow.of_skipBlanks_eq {j : Nat} (follow : s.Follow j ls)
    (passed : s.skipBlanks i = s.skipBlanks j) : s.Follow i ls := by
  have same : s.scan i = s.scan j := by simp only [scan, passed]
  cases follow with
  | stop last => exact same ▸ .stop (same ▸ last)
  | next proper rest =>
    have next := Follow.next (s := s) (i := i) (by rwa [same]) (by rwa [same])
    rwa [same] at next

/-- The last token takes up no room. -/
theorem length_of_last (last : (s.scan i).token = .eof ∨ (s.scan i).token = .bad) :
    (s.scan i).length = 0 := by
  rcases s.scan_cases i with ⟨-, isOver⟩ | ⟨-, scans⟩
  · rw [isOver]
  rcases scans.kinds with ⟨kind, -⟩ | ⟨-, kind | ⟨-, empty⟩ | kind | kind⟩
  case inr.inr.inr.inl => exact empty
  all_goals
    rcases last with last | last <;>
    · rw [last] at kind
      cases kind

/-- The end of a token that takes up room is come to. -/
theorem Follow.reaches (follow : s.Follow i ls) {l : Lexeme} (mem : l ∈ ls)
    (room : 0 < l.length) : s.Reaches l.stop i := by
  induction follow with
  | stop last =>
    obtain rfl := List.mem_singleton.mp mem
    exact absurd (length_of_last last) (Nat.ne_of_gt room)
  | next proper _ ih =>
    rcases List.mem_cons.mp mem with rfl | mem
    · exact .later proper .here
    · exact .later proper (ih mem)

theorem Reaches.le {j : Nat} (reaches : s.Reaches j i) : i ≤ j := by
  induction reaches with
  | here => exact Nat.le_refl _
  | later proper _ ih => exact Nat.le_trans (Nat.le_of_lt (lt_stop_scan proper).2) ih

/-- What a token tells: what it is, which bytes it has and what number it stands for. -/
def Lexeme.content (s : Source) (l : Lexeme) : Token × ByteArray × Option Value :=
  (l.token, s.slice l.start l.length, l.number)

/-- What the tokens of a text tell, wherever they stand. -/
def tokensOf (text : ByteArray) : List (Token × ByteArray × Option Value) :=
  (ofBytes text).lexemes.map (Lexeme.content (ofBytes text))

theorem Window.content_eq {d : Nat} (window : Window s t d) {l : Lexeme}
    (inside : l.stop ≤ t.length) : (l.shift d).content s = l.content t := by
  simp only [Lexeme.content, Lexeme.shift]
  rw [window.slice _ _ inside]

/-- The tokens of the end of a text are those of the text. -/
theorem Follow.of_tail {d k : Nat} (follow : t.Follow k ls)
    (window : Window s t d) (tail : d + t.length = s.length) (inside : k ≤ t.length) :
    s.Follow (d + k) (ls.map (·.shift d))
      ∧ (ls.map (·.shift d)).map (Lexeme.content s) = ls.map (Lexeme.content t) := by
  have here : ∀ {k}, k ≤ t.length → s.scan (d + k) = (t.scan k).shift d
      ∧ ((t.scan k).shift d).content s = (t.scan k).content t := fun inside =>
    ⟨window.scan_eq_of_tail tail inside, window.content_eq (t.scan_inside inside)⟩
  induction follow with
  | stop last =>
    obtain ⟨scanned, content⟩ := here inside
    simp only [List.map_cons, List.map_nil, content, and_true]
    have follow := Follow.stop (s := s) (i := d + _) (by rw [scanned]; exact last)
    rwa [scanned] at follow
  | @next k ls proper _ ih =>
    obtain ⟨scanned, content⟩ := here inside
    obtain ⟨rest, contents⟩ := ih (t.scan_inside inside)
    simp only [List.map_cons, content, contents, and_true]
    have stop : (s.scan (d + k)).stop = d + (t.scan k).stop := by
      rw [scanned]
      exact Nat.add_assoc ..
    have follow := Follow.next (s := s) (i := d + k) (by rw [scanned]; exact proper) (stop ▸ rest)
    rwa [scanned] at follow

/-- A slash before a star is a token of its own. -/
theorem scanAt_of_slash (slash : s.holds i '/' = true) (star : s.holds (i + 1) '*' = true) :
    (s.scanAt i).token = .binary .divide ∧ (s.scanAt i).length = 1 := by
  have table : signTable.all (fun sign => match sign.1 with
      | [] => false
      | [b] => b != 0x2f || decide (sign.2 = .binary .divide)
      | b :: c :: _ => b != 0x2f || c != 0x2a) = true := by decide +kernel
  obtain ⟨inside, first⟩ : i < s.length ∧ s.byte i = 0x2f := holds_iff.mp slash
  obtain ⟨-, second⟩ : _ ∧ s.byte (i + 1) = 0x2a := holds_iff.mp star
  have scans := scansAt inside
  generalize s.scanAt i = l at scans
  cases scans with
  | string quote | openString quote =>
    rw [first] at quote
    exact absurd quote (by decide)
  | number digit =>
    rw [first] at digit
    exact absurd digit (by decide)
  | word start =>
    rw [first] at start
    exact absurd start (by decide)
  | nothing _ _ sign =>
    have lacks := lacks_of_findSign?_eq_none sign [0x2f] ⟨"/", by decide, by decide +kernel⟩
    rw [startsWith_cons.mpr ⟨inside, first, rfl⟩] at lacks
    cases lacks
  | @sign lexeme token found =>
    have here := List.all_eq_true.mp table _ (List.mem_of_find?_eq_some found)
    obtain ⟨stands, -⟩ := List.find?_eq_some_iff_append.mp found
    match lexeme with
    | [] => cases here
    | [b] =>
      obtain ⟨-, rfl, -⟩ := startsWith_cons.mp stands
      rw [first] at here
      exact ⟨of_decide_eq_true here, rfl⟩
    | b :: c :: _ =>
      obtain ⟨-, rfl, later⟩ := startsWith_cons.mp stands
      obtain ⟨-, rfl, -⟩ := startsWith_cons.mp later
      rw [first, second] at here
      cases here

/-! ## Padded texts -/

section

variable {front back pad : ByteArray}

theorem window_front (front back : ByteArray) :
    Window (ofBytes (front ++ back)) (ofBytes front) 0 := by
  refine (shows_ofBytes _).window (shows_ofBytes _) ?_ ?_
  · rw [ByteArray.size_append]
    omega
  · rw [Nat.zero_add]
    exact ByteArray.extract_append_eq_left rfl

theorem window_back (front back : ByteArray) :
    Window (ofBytes (front ++ back)) (ofBytes back) front.size := by
  refine (shows_ofBytes _).window (shows_ofBytes _) ?_ ?_
  · exact Nat.le_of_eq ByteArray.size_append.symm
  · have shifted := ByteArray.extract_append_size_add (a := front) (b := back) (i := 0)
      (j := back.size)
    rw [Nat.add_zero] at shifted
    exact shifted.trans ByteArray.extract_zero_size

theorem Lexeme.shift_zero (l : Lexeme) : l.shift 0 = l := by
  rw [shift, Nat.zero_add]

theorem startsWith_self (text : ByteArray) :
    (ofBytes text).startsWith 0 text.data.toList = true := by
  have stands := startsWith_ofBytes [] text.data.toList []
  rwa [List.nil_append, List.append_nil, Array.toArray_toList] at stands

/-- The padding stands behind the front. -/
theorem startsWith_pad (front pad back : ByteArray) :
    (ofBytes (front ++ (pad ++ back))).startsWith front.size pad.data.toList = true := by
  have whole : 0 + pad.data.toList.length ≤ (ofBytes pad).length := Nat.le_of_eq (Nat.zero_add _)
  have middle := (window_front pad back).startsWith_eq whole
  have fits : 0 + pad.data.toList.length ≤ (ofBytes (pad ++ back)).length := by
    rw [Nat.zero_add]
    show pad.size ≤ (pad ++ back).size
    rw [ByteArray.size_append]
    omega
  have behind := (window_back front (pad ++ back)).startsWith_eq fits
  rw [Nat.zero_add] at middle
  exact behind.trans (middle.trans (startsWith_self pad))

theorem byte_append_right (a b : ByteArray) (k : Nat) :
    (ofBytes (a ++ b)).byte (a.size + k) = (ofBytes b).byte k := by
  simp only [byte, ofBytes, ByteArray.size_append, Nat.zero_add]
  by_cases inside : k < b.size
  · rw [if_pos ⟨by omega, by omega⟩, if_pos ⟨inside, inside⟩,
      Arena.get!_eq_getElem _ _ (by simp only [ByteArray.size_append]; omega),
      Arena.get!_eq_getElem _ _ inside,
      ByteArray.getElem_append_right (by omega)]
    simp only [Nat.add_sub_cancel_left]
  · rw [if_neg fun h => inside (by omega), if_neg fun h => inside h.1]

theorem byte_append_left {a : ByteArray} (b : ByteArray) {k : Nat} (inside : k < a.size) :
    (ofBytes (a ++ b)).byte k = (ofBytes a).byte k := by
  simp only [byte, ofBytes, ByteArray.size_append, Nat.zero_add]
  rw [if_pos ⟨by omega, by omega⟩, if_pos ⟨inside, inside⟩,
    Arena.get!_eq_getElem _ _ (by simp only [ByteArray.size_append]; omega),
    Arena.get!_eq_getElem _ _ inside, ByteArray.getElem_append_left inside]

/-- A text in front of a blank is a part of its own. -/
theorem part_front (padded : ∃ b rest, pad.data.toList = b :: rest ∧ isBlank b = true) :
    Part (front ++ (pad ++ back)) front 0 where
  inside := by
    rw [ByteArray.size_append]
    omega
  content := by
    rw [Nat.zero_add]
    exact ByteArray.extract_append_eq_left rfl
  ends := by
    obtain ⟨b, rest, bytes, blank⟩ := padded
    obtain ⟨some, byte, -⟩ := startsWith_cons.mp (bytes ▸ startsWith_self pad)
    rw [Nat.zero_add, show front.size = front.size + 0 from rfl, byte_append_right,
      byte_append_left back some, byte, isBoundary, blank]
    exact .inr rfl

/-- A token in front of the padding. -/
theorem scan_of_front
    (padded : ∃ b rest, pad.data.toList = b :: rest ∧ isBlank b = true) (inside : i ≤ front.size)
    (proper : ((ofBytes (front ++ back)).scan i).token ≠ .eof
      ∧ ((ofBytes (front ++ back)).scan i).token ≠ .bad)
    (fits : ((ofBytes (front ++ back)).scan i).stop ≤ front.size)
    (divides : ((ofBytes (front ++ back)).scan i).token = .binary .divide →
      (ofBytes (front ++ back)).holds ((ofBytes (front ++ back)).scan i).stop '*' = false) :
    (ofBytes (front ++ (pad ++ back))).scan i = (ofBytes (front ++ back)).scan i
      ∧ ((ofBytes (front ++ back)).scan i).content (ofBytes (front ++ (pad ++ back)))
        = ((ofBytes (front ++ back)).scan i).content (ofBytes (front ++ back)) := by
  have window := window_front front back
  have room := (lt_stop_scan proper).1
  have alone : (ofBytes (front ++ back)).scan i = (ofBytes front).scan i := by
    rw [Lexeme.stop] at fits
    have same := window.scan_eq (k := i) inside (by rw [Nat.zero_add]; show _ < 0 + front.size; omega)
      (by rw [Nat.zero_add]; exact Nat.le_trans fits (Nat.le_of_eq (Nat.zero_add _).symm))
    rwa [Lexeme.shift_zero, Nat.zero_add] at same
  rw [alone] at proper fits divides ⊢
  -- a slash with a star behind it would be a token of its own, with the star behind it
  have split : ¬ ((ofBytes front).holds ((ofBytes front).scan i).start '/' = true
      ∧ (ofBytes front).holds (((ofBytes front).scan i).start + 1) '*' = true) := by
    rintro ⟨slash, star⟩
    have starts := lt_of_holds slash
    rw [scan_start] at slash star starts
    obtain ⟨token, length⟩ := scanAt_of_slash slash star
    have here : (ofBytes front).scan i = (ofBytes front).scanAt ((ofBytes front).skipBlanks i) := by
      rw [scan, if_neg (Nat.not_le.mpr starts)]
    have absent := divides (by rw [here, token])
    rw [Lexeme.stop, scan_start, here, length] at absent
    have present := window.holds_of_holds star
    rw [Nat.zero_add, absent] at present
    cases present
  have part : Part (front ++ (pad ++ back)) front 0 := part_front padded
  have padded := part.scan_eq inside proper split
  rw [Lexeme.shift_zero, Nat.zero_add] at padded
  refine ⟨padded, ?_⟩
  have left := (window_front front (pad ++ back)).content_eq (l := (ofBytes front).scan i) fits
  have right := window.content_eq (l := (ofBytes front).scan i) fits
  rw [Lexeme.shift_zero] at left right
  rw [left, right]

/-- The tokens from a position in front of the padding on. -/
theorem exists_follow_padded (padding : Padding pad.data.toList)
    (reaches : (ofBytes (front ++ back)).Reaches front.size i) {ls : List Lexeme}
    (follow : (ofBytes (front ++ back)).Follow i ls)
    (divides : ∀ l ∈ ls, l.token = .binary .divide →
      (ofBytes (front ++ back)).holds l.stop '*' = false) :
    ∃ ls', (ofBytes (front ++ (pad ++ back))).Follow i ls'
      ∧ ls'.map (Lexeme.content (ofBytes (front ++ (pad ++ back))))
        = ls.map (Lexeme.content (ofBytes (front ++ back))) := by
  induction reaches generalizing ls with
  | here =>
    have tail := follow_lexemes (ofBytes back)
    have left := tail.of_tail (window_back front back) ByteArray.size_append.symm (Nat.zero_le _)
    have right := tail.of_tail (window_back (front ++ pad) back) ByteArray.size_append.symm
      (Nat.zero_le _)
    rw [ByteArray.append_assoc] at right
    have passed := padding.skipBlanks_eq (startsWith_pad front pad back)
    obtain rfl := follow.unique left.1
    refine ⟨_, right.1.of_skipBlanks_eq ?_, right.2.trans left.2.symm⟩
    rw [passed, ByteArray.size_append]
    rfl
  | @later i proper rest ih =>
    cases follow with
    | stop last => exact absurd last (by simp [proper.1, proper.2])
    | @next _ ls _ follow =>
      have low := (lt_stop_scan proper).2
      have high := rest.le
      obtain ⟨scanned, content⟩ := scan_of_front padding.first_blank (by omega) proper high
        (divides _ (List.mem_cons_self ..))
      obtain ⟨ls', follow', contents⟩ := ih follow fun l mem => divides l
        (List.mem_cons_of_mem _ mem)
      refine ⟨(ofBytes (front ++ back)).scan i :: ls', ?_, ?_⟩
      · have next := Follow.next (s := ofBytes (front ++ (pad ++ back))) (i := i)
          (by rw [scanned]; exact proper) (by rw [scanned]; exact follow')
        rwa [scanned] at next
      · rw [List.map_cons, List.map_cons, content, contents]

end

/-- Blanks and comments are invisible.  In a text none of whose slash tokens has a star
behind it, they may be put at the start or at the end of any token: the tokens stay what
they were, with their bytes and their numbers. -/
theorem padding_is_invisible (front pad back : ByteArray) (padding : Padding pad.data.toList)
    (divides : ∀ l ∈ (ofBytes (front ++ back)).lexemes, l.token = .binary .divide →
      (ofBytes (front ++ back)).holds l.stop '*' = false)
    (between : front.size = 0 ∨
      ∃ l ∈ (ofBytes (front ++ back)).lexemes, 0 < l.length ∧ l.stop = front.size) :
    tokensOf (front ++ (pad ++ back)) = tokensOf (front ++ back) := by
  have follow := follow_lexemes (ofBytes (front ++ back))
  have reaches : (ofBytes (front ++ back)).Reaches front.size 0 := by
    rcases between with start | ⟨l, mem, room, stop⟩
    · rw [start]
      exact .here
    · rw [← stop]
      exact follow.reaches mem room
  obtain ⟨ls', follow', same⟩ := exists_follow_padded padding reaches follow divides
  rw [tokensOf, (follow_lexemes _).unique follow', same, tokensOf]

/-- A comment of stars between a slash and the name behind it. -/
theorem starry_comment_is_invisible :
    Padding " /***/ ".toUTF8.data.toList
      ∧ (∃ l ∈ (ofBytes "x/y".toUTF8).lexemes, 0 < l.length ∧ l.stop = "x/".toUTF8.size)
      ∧ tokensOf "x/ /***/ y".toUTF8 = tokensOf "x/y".toUTF8 := by
  have padding : Padding " /***/ ".toUTF8.data.toList := .comment (c := [0x2a]) (by decide)
  have between : ∃ l ∈ (ofBytes "x/y".toUTF8).lexemes, 0 < l.length ∧ l.stop = "x/".toUTF8.size := by
    decide +kernel
  exact ⟨padding, between, padding_is_invisible "x/".toUTF8 " /***/ ".toUTF8 "y".toUTF8 padding
    (by decide +kernel) (.inr between)⟩

end ArenaScript.Source
