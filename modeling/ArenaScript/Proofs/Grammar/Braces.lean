import ArenaScript.Proofs.Grammar.Phrases

/-!
# Braces

Which closing brace of a text belongs to an opening one.  A block reads statements
up to a closing brace.  A body that is a single statement may have used up such a
brace before, as its own end: then the block around the body goes on behind it.

Main definitions:

- `Closes`: the brace that closes the first of some open ones.
- `Shifts`: a stretch of a text closes some braces more than it opens.

Main results:

- `Closes.unique`: the number of open braces is known by the one that closes them.
- `Derives.closes_block`: a block ends at the brace that closes it, together with
  one more for each brace that was used up; none was if the block is tidy.
-/

namespace ArenaScript

/-- The end of a text comes behind all of it. -/
theorem Source.length_le_of_eof {s : Source} {i : Nat} (eof : (s.scan i).token = .eof) :
    s.length ≤ s.skipBlanks i := by
  rcases s.scan_cases i with ⟨isOver, -⟩ | ⟨-, scans⟩
  · exact isOver
  · exact absurd eof scans.token_ne_eof

/-- After the end of a text comes the end again. -/
theorem Source.scan_stop_of_eof {s : Source} {i : Nat} (eof : (s.scan i).token = .eof) :
    (s.scan (s.scan i).stop).token = .eof := by
  have start := length_le_of_eof eof
  have up := s.le_skipBlanks (s.scan i).stop
  have first := s.scan_start i
  have past : s.length ≤ s.skipBlanks (s.scan i).stop := by
    rw [Lexeme.stop] at up ⊢
    omega
  rw [scan, if_pos past]

namespace Grammar

variable {text : ByteArray} {k k₁ k' : Place} {d i j n m : Nat}

/-! ## Matching braces -/

/-- How many braces are open after a token. -/
def braces (t : Token) (d : Nat) : Nat :=
  if t = .leftBrace then d + 1 else if t = .rightBrace then d - 1 else d

/-- The tokens from a position on, of which some braces are open, close the first
of them at the brace that ends at another position. -/
inductive Closes (text : ByteArray) : Nat → Nat → Nat → Prop
  | last {i : Nat} (closing : ((Source.ofBytes text).scan i).token = .rightBrace) :
      Closes text 1 i ((Source.ofBytes text).scan i).stop
  | next {d i j : Nat} (more : ((Source.ofBytes text).scan i).token ≠ .eof)
      (fine : ((Source.ofBytes text).scan i).token ≠ .bad)
      (inside : 0 < braces ((Source.ofBytes text).scan i).token d)
      (rest : Closes text (braces ((Source.ofBytes text).scan i).token d)
        ((Source.ofBytes text).scan i).stop j) : Closes text d i j

namespace Closes

/-- A closing brace lies behind the position. -/
theorem lt (closes : Closes text d i j) : i < j := by
  induction closes with
  | last closing => exact (Source.lt_stop_scan (by rw [closing]; decide)).2
  | next more fine _ _ ih => exact Nat.lt_trans (Source.lt_stop_scan ⟨more, fine⟩).2 ih

/-- The number of open braces is known by the one that closes the first of
them. -/
theorem unique (closes : Closes text d i j) (closes' : Closes text n i j) : d = n := by
  induction closes generalizing n with
  | @last i closing =>
    generalize stop : ((Source.ofBytes text).scan i).stop = j at closes'
    cases closes' with
    | last _ => rfl
    | next _ _ _ rest =>
      have := rest.lt
      omega
  | @next d i j _ _ inside rest ih =>
    cases closes' with
    | last _ =>
      have := rest.lt
      omega
    | next _ _ inside' rest' =>
      have same := ih rest'
      unfold braces at same inside inside'
      grind

end Closes

/-- Looks for the brace that closes the first of some open ones. -/
def closer? (text : ByteArray) : Nat → Nat → Nat → Option Nat
  | 0, _, _ => none
  | fuel + 1, d, i =>
    let lexeme := (Source.ofBytes text).scan i
    if lexeme.token = .rightBrace ∧ d = 1 then some lexeme.stop
    else if lexeme.token = .eof ∨ lexeme.token = .bad ∨ braces lexeme.token d = 0 then none
    else closer? text fuel (braces lexeme.token d) lexeme.stop

theorem closes_of_closer? (fuel : Nat) (found : closer? text fuel d i = some j) :
    Closes text d i j := by
  induction fuel generalizing d i with
  | zero => cases found
  | succ fuel ih =>
    simp only [closer?] at found
    split at found
    · next last =>
      obtain ⟨closing, rfl⟩ := last
      obtain rfl := Option.some.inj found
      exact .last closing
    · split at found
      · cases found
      · next going =>
        simp only [not_or] at going
        exact .next going.1 going.2.1 (Nat.pos_of_ne_zero going.2.2) (ih found)

/-! ## Braces from a place on -/

/-- From a place on, where some braces are open, the first of them is closed at a
position. -/
def Awaits (text : ByteArray) (d : Nat) (k : Place) (j : Nat) : Prop :=
  if k.consumed then Closes text d k.pos j
  else k.token ≠ .eof ∧ k.token ≠ .bad ∧ (k.token = .rightBrace ∧ d = 1 ∧ j = k.pos
    ∨ 0 < braces k.token d ∧ Closes text (braces k.token d) k.pos j)

theorem awaits_of_consumed (used : k.consumed = true) :
    Awaits text d k j ↔ Closes text d k.pos j := by
  rw [Awaits, if_pos used]

/-- The next token may have been seen or not. -/
theorem awaits_advance : Awaits text d (k.advance text) j ↔ Awaits text d k j := by
  by_cases used : k.consumed = true
  · rw [awaits_of_consumed used, Awaits, k.consumed_advance, if_neg Bool.false_ne_true]
    simp only [Place.advance, if_pos used]
    constructor
    · rintro ⟨more, fine, ⟨closing, rfl, rfl⟩ | ⟨inside, rest⟩⟩
      · exact .last closing
      · exact .next more fine inside rest
    · rintro (closing | ⟨more, fine, inside, rest⟩)
      · exact ⟨by rw [closing]; decide, by rw [closing]; decide, .inl ⟨closing, rfl, rfl⟩⟩
      · exact ⟨more, fine, .inr ⟨inside, rest⟩⟩
  · rw [Place.advance_of_seen (Bool.eq_false_iff.mpr used)]

/-- The next token is passed. -/
theorem Awaits.of_pass (awaits : Awaits text (braces (k.next text) d) (k.pass text) j)
    (more : k.next text ≠ .eof) (fine : k.next text ≠ .bad)
    (inside : 0 < braces (k.next text) d) : Awaits text d k j := by
  rw [← awaits_advance, Awaits, k.consumed_advance, if_neg Bool.false_ne_true]
  exact ⟨more, fine, .inr ⟨inside, (awaits_of_consumed (k := k.pass text) rfl).mp awaits⟩⟩

/-- Between two places some braces are closed more than are opened. -/
def Shifts (text : ByteArray) (n : Nat) (k k' : Place) : Prop :=
  ∀ d j : Nat, 0 < d → Awaits text d k' j → Awaits text (d + n) k j

namespace Shifts

theorem trans (first : Shifts text n k k₁) (second : Shifts text m k₁ k') :
    Shifts text (n + m) k k' := fun d j pos awaits => by
  have there := first _ j (Nat.add_pos_left pos m) (second d j pos awaits)
  rwa [Nat.add_assoc, Nat.add_comm m] at there

theorem advance (k : Place) : Shifts text 0 k (k.advance text) :=
  fun _ _ _ awaits => awaits_advance.mp awaits

/-- A token that is no brace is passed. -/
theorem pass {t : Token} (next : k.next text = t)
    (plain : t ≠ .eof ∧ t ≠ .bad ∧ t ≠ .leftBrace ∧ t ≠ .rightBrace) :
    Shifts text 0 k (k.pass text) := fun d j pos awaits => by
  subst next
  have same : braces (k.next text) d = d := by
    rw [braces, if_neg plain.2.2.1, if_neg plain.2.2.2]
  exact .of_pass (d := d) (by rwa [same]) plain.1 plain.2.1 (by rwa [same])

/-- A closing brace is passed. -/
theorem close (next : k.next text = .rightBrace) : Shifts text 1 k (k.pass text) :=
  fun d j pos awaits => by
  have same : braces (k.next text) (d + 1) = d := by rw [next]; rfl
  exact .of_pass (by rwa [same]) (by rw [next]; nofun) (by rw [next]; nofun) (by rwa [same])

/-- Behind an opening brace one more is closed than before it. -/
theorem enter (next : k.next text = .leftBrace) (shifts : Shifts text (n + 1) (k.pass text) k') :
    Shifts text n k k' := fun d j pos awaits => by
  have same : braces (k.next text) (d + n) = d + (n + 1) := by rw [next]; rfl
  refine .of_pass ?_ (by rw [next]; nofun) (by rw [next]; nofun) ?_
  · rw [same]
    exact shifts d j pos awaits
  · rw [same]
    exact Nat.add_pos_left pos _

end Shifts

/-! ## Ends of statements -/

/-- A place that has come to the end of its text stays there. -/
def Steady (text : ByteArray) (k : Place) : Prop :=
  k.consumed = false → k.token = .eof → ((Source.ofBytes text).scan k.pos).token = .eof

theorem steady_of_consumed (used : k.consumed = true) : Steady text k := fun seen => by
  rw [used] at seen
  cases seen

theorem Steady.advance (steady : Steady text k) : Steady text (k.advance text) := by
  by_cases used : k.consumed = true
  · intro _ eof
    simp only [Place.advance, if_pos used] at eof ⊢
    exact Source.scan_stop_of_eof eof
  · rwa [Place.advance_of_seen (Bool.eq_false_iff.mpr used)]

/-- Nothing is closed behind the end of a text. -/
theorem Steady.not_awaits (steady : Steady text k) (eof : k.next text = .eof) :
    ¬ Awaits text d (k.pass text) j := by
  rw [awaits_of_consumed rfl]
  have last := steady.advance (k.consumed_advance text) eof
  rintro (closing | ⟨more, -, -, -⟩)
  · cases last.symm.trans closing
  · exact more last

/-- The end of a statement is passed. -/
theorem Steady.passEnd (steady : Steady text k)
    (ending : Routine.endsStatement (k.next text) = true) :
    Shifts text (if k.next text = .rightBrace then 1 else 0) k (k.pass text) := by
  split
  · exact .close ‹_›
  · simp only [Routine.endsStatement, Bool.or_eq_true, decide_eq_true_eq] at ending
    rcases ending with (semicolon | eof) | brace
    · exact .pass semicolon ⟨nofun, nofun, nofun, nofun⟩
    · exact fun _ _ _ awaits => absurd awaits (steady.not_awaits eof)
    · exact absurd brace ‹_›

/-- A token that is neither a brace nor the end of a text. -/
def isPlainToken : Token → Bool
  | .eof | .bad | .leftBrace | .rightBrace => false
  | _ => true

/-- A token of a kind that has neither braces nor the ends of texts is passed. -/
theorem Shifts.passKind {α : Type} {f : Token → α} {a : α} (kind : f (k.next text) = a)
    (other : f .eof ≠ a ∧ f .bad ≠ a ∧ f .leftBrace ≠ a ∧ f .rightBrace ≠ a := by
      refine ⟨?_, ?_, ?_, ?_⟩ <;> rintro ⟨⟩) :
    Shifts text 0 k (k.pass text) := by
  refine .pass rfl ⟨?_, ?_, ?_, ?_⟩
  all_goals
    intro eq
    rw [eq] at kind
  exacts [other.1 kind, other.2.1 kind, other.2.2.1 kind, other.2.2.2 kind]

theorem Shifts.passPlain (plain : isPlainToken (k.next text) = true) :
    Shifts text 0 k (k.pass text) := .passKind plain

theorem Shifts.passStep (k : Place) : Shifts text 0 k (k.passStep text) := by
  unfold Place.passStep
  split
  · rename_i sign
    rcases sign with sign | sign <;> exact .passPlain (by rw [sign]; rfl)
  · exact .advance k

/-! ## Steady places -/

namespace Spells

variable {tidy : Prop} {p q r : Phrase}

/-- Phrases lead from steady places to steady ones.  The last token of a statement
is used up, and that of a block or a body is to be seen again. -/
theorem steady (spells : Spells tidy text p k k') (start : Steady text k) :
    Steady text k' ∧ (p = .statement → k'.consumed = true ∧ Steady text k'.unuse)
      ∧ (p = .body ∨ p = .block ∨ p = .blockRest → k'.consumed = false) := by
  have used : ∀ k : Place, Steady text k.use := fun k => steady_of_consumed rfl
  have pass : ∀ k : Place, Steady text (k.pass text) := fun k => steady_of_consumed rfl
  have closed : ∀ n, Steady text (.closed n) := fun n _ => nofun
  have advance : ∀ k : Place, Steady text k → Steady text (k.advance text) := fun k => .advance
  have unuse : ∀ k : Place, (k.pass text).unuse = k.advance text := fun k => k.unuse_pass text
  have unused : ∀ k : Place, k.consumed = false → k.unuse = k := fun k seen => by
    rw [Place.unuse, ← seen]
  have seen : ∀ k : Place, k.unuse.consumed = false := fun _ => rfl
  have spent : ∀ k : Place, (k.pass text).consumed = true := fun _ => rfl
  have last : ∀ k : Place, (k.advance text).consumed = false := fun k => k.consumed_advance text
  have step : ∀ k : Place, Steady text k → Steady text (k.passStep text) := fun k steady => by
    unfold Place.passStep
    split
    · exact pass k
    · exact steady.advance
  induction spells <;> grind

/-- A block ends with a brace or the end of the text. -/
theorem ends_blockRest (spells : Spells tidy text .blockRest k k') :
    k'.next text = .eof ∨ k'.next text = .rightBrace := by
  generalize phrase : Phrase.blockRest = p at spells
  induction spells with
  | blockEnd ending => rwa [Place.next, Place.advance_advance]
  | blockRest _ _ _ _ _ _ ih => exact ih rfl
  | _ => cases phrase

end Spells

/-! ## Braces used up by bodies -/

/-- A stretch of a text is read tidily if no body in it ends with the brace of a
block around the body.  It closes one brace more for each that does, besides a
number that it closes anyway. -/
def Costs (tidy : Prop) (text : ByteArray) (closed : Nat) (whole : Prop) (k stop : Place) : Prop :=
  ∃ n, (tidy → n = 0) ∧ (n = 0 → whole) ∧ Shifts text (n + closed) k stop

namespace Costs

variable {tidy whole whole' : Prop} {stop stop' : Place}

theorem none (holds : whole) (shifts : Shifts text 0 k stop) : Costs tidy text 0 whole k stop :=
  ⟨0, fun _ => rfl, fun _ => holds, shifts⟩

theorem map (costs : Costs tidy text m whole k stop) (le : whole → whole') :
    Costs tidy text m whole' k stop := by
  obtain ⟨n, free, holds, shifts⟩ := costs
  exact ⟨n, free, fun zero => le (holds zero), shifts⟩

theorem later (costs : Costs tidy text m whole k₁ stop) (shifts : Shifts text 0 k k₁) :
    Costs tidy text m whole k stop := by
  obtain ⟨n, free, holds, rest⟩ := costs
  refine ⟨n, free, holds, ?_⟩
  simpa only [Nat.zero_add] using shifts.trans rest

theorem before (costs : Costs tidy text m whole k stop) (shifts : Shifts text 0 stop stop') :
    Costs tidy text m whole k stop' := by
  obtain ⟨n, free, holds, first⟩ := costs
  exact ⟨n, free, holds, first.trans shifts⟩

theorem seq (first : Costs tidy text 0 whole k stop) (rest : Costs tidy text m whole' stop stop') :
    Costs tidy text m (whole ∧ whole') k stop' := by
  obtain ⟨n, free, holds, shifts⟩ := first
  obtain ⟨n', free', holds', shifts'⟩ := rest
  refine ⟨n + n', fun h => by rw [free h, free' h],
    fun zero => ⟨holds (by omega), holds' (by omega)⟩, ?_⟩
  rw [Nat.add_assoc]
  exact Shifts.trans shifts shifts'

theorem enter (brace : k.next text = .leftBrace) (costs : Costs tidy text 1 whole (k.pass text)
    stop) :
    Costs tidy text 0 whole k stop := by
  obtain ⟨n, free, holds, shifts⟩ := costs
  exact ⟨n, free, holds, .enter brace shifts⟩

theorem close (costs : Costs tidy text 0 whole k k₁) (brace : k₁.next text = .rightBrace) :
    Costs tidy text 1 whole k (k₁.pass text) := by
  obtain ⟨n, free, holds, shifts⟩ := costs
  exact ⟨n, free, holds, Shifts.trans shifts (.close brace)⟩

/-- The end of a block is passed. -/
theorem closeEnd (costs : Costs tidy text 0 whole k k₁) (steady : Steady text k₁)
    (ending : k₁.next text = .eof ∨ k₁.next text = .rightBrace) :
    Costs tidy text 1 whole k (k₁.pass text) := by
  rcases ending with eof | brace
  · obtain ⟨n, free, holds, -⟩ := costs
    exact ⟨n, free, holds, fun _ _ _ awaits => absurd awaits (steady.not_awaits eof)⟩
  · exact costs.close brace

end Costs

/-- A statement between two places ends with a brace that is none of its own. -/
def Foreign (text : ByteArray) (k k' : Place) : Prop :=
  k'.token = .rightBrace ∧ k.next text ≠ .leftBrace ∧ k.next text ≠ .keyword .ifKw

/-- A statement uses up a brace if it ends with one that is none of its own. -/
def Spends (tidy : Prop) (text : ByteArray) (whole : Prop) (k k' : Place) : Prop :=
  ∃ n, (tidy → ¬ Foreign text k k' → n = 0) ∧ (Foreign text k k' → 0 < n) ∧ (n = 0 → whole)
    ∧ Shifts text n k k'

namespace Spends

variable {tidy whole whole' : Prop} {stop : Place}

theorem map (spends : Spends tidy text whole k k') (le : whole → whole') :
    Spends tidy text whole' k k' := by
  obtain ⟨n, free, foreign, holds, shifts⟩ := spends
  exact ⟨n, free, foreign, fun zero => le (holds zero), shifts⟩

/-- A statement that ends with a token that is seen. -/
theorem ofEnd (costs : Costs tidy text 0 whole k k₁) (steady : Steady text k₁)
    (ending : Routine.endsStatement (k₁.next text) = true)
    (plain : k.next text ≠ .leftBrace ∧ k.next text ≠ .keyword .ifKw) :
    Spends tidy text whole k (k₁.pass text) := by
  obtain ⟨n, free, holds, shifts⟩ := costs
  have foreign : Foreign text k (k₁.pass text) ↔ k₁.next text = .rightBrace :=
    ⟨And.left, fun brace => ⟨brace, plain⟩⟩
  refine ⟨n + if k₁.next text = .rightBrace then 1 else 0, fun h other => ?_, fun brace => ?_,
    fun zero => holds (by omega), Shifts.trans shifts (steady.passEnd ending)⟩
  · rw [free h, if_neg fun brace => other (foreign.mpr brace)]
  · rw [if_pos (foreign.mp brace)]
    omega

/-- A statement that has closed its own braces. -/
theorem ofOwn (costs : Costs tidy text 0 whole k k') (own : ¬ Foreign text k k') :
    Spends tidy text whole k k' := by
  obtain ⟨n, free, holds, shifts⟩ := costs
  exact ⟨n, fun h _ => free h, fun h => absurd h own, holds, shifts⟩

/-- A statement that does not end with the brace of a block around it. -/
theorem own (spends : Spends tidy text whole k k') (own : tidy → ¬ Foreign text k k') :
    Costs tidy text 0 (whole ∧ ¬ Foreign text k k') k k' := by
  obtain ⟨n, free, foreign, holds, shifts⟩ := spends
  exact ⟨n, fun h => free h (own h),
    fun zero => ⟨holds zero, fun h => absurd zero (Nat.ne_of_gt (foreign h))⟩, shifts⟩

end Spends

/-- The braces of a phrase.  Those phrases that leave their last brace to be seen
are followed up to the place behind it. -/
def Balances (tidy : Prop) (text : ByteArray) (p : Phrase) (k k' : Place) : Prop :=
  match p with
  | .object => Costs tidy text 1 (Spells True text .object k k') k k'
  | .opened => Routine.endsStatement (k'.next text) = true →
      Spends tidy text (Spells True text .opened k k') k (k'.pass text)
  | .statement => Spends tidy text (Spells True text .statement k k') k k'
  | .arguments => k.next text = .leftParen → k.consumed = false →
      Costs tidy text 0 (Spells True text .arguments k k') k k'
  | .block => k.next text = .leftBrace → k.consumed = false →
      Costs tidy text 0 (Spells True text .block k k') k (k'.pass text)
  | .body => Costs tidy text 0 (Spells True text .body k k') k (k'.pass text)
  | .choice => k.next text = .keyword .ifKw → k.consumed = false →
      Costs tidy text 0 (Spells True text .choice k k') k (k'.pass text)
  | .loop => Costs tidy text 0 (Spells True text .loop k k') k (k'.pass text)
  | .script => True
  | p => Costs tidy text 0 (Spells True text p k k') k k'

theorem Spells.balances {tidy : Prop} {p : Phrase} (spells : Spells tidy text p k k')
    (start : Steady text k) : Balances tidy text p k k' := by
  have seen : ∀ {k : Place}, Steady text (k.pass text) := steady_of_consumed rfl
  have pass : ∀ {k : Place} {t : Token}, k.next text = t → isPlainToken t = true →
      Shifts text 0 k (k.pass text) := fun eq plain => .passPlain (by rw [eq]; exact plain)
  have again : ∀ {k : Place} {t : Token}, k.next text = t → (k.advance text).next text = t :=
    fun eq => by rwa [Place.next, Place.advance_advance]
  have last : ∀ {k : Place}, (k.advance text).consumed = false := Place.consumed_advance _ _
  have use : ∀ {k : Place}, k.consumed = false → k.use = k.pass text :=
    fun h => by rw [Place.pass, Place.advance_of_seen h]
  induction spells with
  -- expressions
  | expression whole ih => exact (ih start).map .expression
  | assignment left rest ih ih' =>
    exact ((ih start).seq (ih' (left.steady start).1)).map fun both => .assignment both.1 both.2
  | assignmentRest sign right rest ih ih' =>
    exact (((ih seen).seq (ih' (right.steady seen).1)).later (pass sign rfl)).map
      fun both => .assignmentRest sign both.1 both.2
  | assignmentEnd other => exact .none (.assignmentEnd other) (.advance _)
  | conditionalEnd only other ih =>
    exact ((ih start).before (.advance _)).map fun a => .conditionalEnd a other
  | conditional condition question first colon second ih ih' ih'' =>
    exact ((ih start).seq (((ih' seen).seq ((ih'' seen).later (pass colon rfl))).later
      (pass question rfl))).map fun all => .conditional all.1 question all.2.1 colon all.2.2
  | @logical op _ _ _ left rest ih ih' =>
    have ih' := ih' (left.steady start).1
    cases op with
    | or => exact ((ih start).seq ih').map fun both => .logical both.1 both.2
    | and => exact ((ih start).seq ih').map fun both => .logical both.1 both.2
  | logicalRest sign right rest ih ih' =>
    exact (((ih seen).seq (ih' (right.steady seen).1)).later (pass sign rfl)).map
      fun both => .logicalRest sign both.1 both.2
  | logicalEnd other => exact .none (.logicalEnd other) (.advance _)
  | binary left rest ih ih' =>
    exact ((ih start).seq (ih' (left.steady start).1)).map fun both => .binary both.1 both.2
  | binaryRest sign right rest ih ih' =>
    exact (((ih seen).seq (ih' (right.steady seen).1)).later
      (.passKind sign)).map fun both => .binaryRest sign both.1 both.2
  | binaryEnd other => exact .none (.binaryEnd other) (.advance _)
  | prefixed sign operand ih =>
    exact ((ih seen).later (.passKind sign)).map
      fun a => .prefixed sign a
  | unary plain value other ih =>
    exact ((((ih start.advance).before (.passStep _)).before (.advance _)).later (.advance _)).map
      fun a => .unary plain a other
  | power plain value sign exponent ih ih' =>
    exact ((((ih start.advance).before (.passStep _)).seq ((ih' seen).later (pass sign rfl))).later
      (.advance _)).map fun both => .power plain both.1 sign both.2
  | access value rest ih ih' =>
    exact ((ih start).seq (ih' (value.steady start).1)).map fun both => .access both.1 both.2
  | property dot name rest ih ih' =>
    exact (((ih seen).seq (ih' (name.steady seen).1)).later (pass dot rfl)).map
      fun both => .property dot both.1 both.2
  | call opening arguments rest ih ih' =>
    exact (((ih start.advance (again opening) last).seq
      (ih' (arguments.steady start.advance).1)).later
      (.advance _)).map fun both => .call opening both.1 both.2
  | accessEnd dot opening => exact .none (.accessEnd dot opening) (.advance _)
  | parenthesized opening inner closing ih =>
    exact (((ih seen).before (pass closing rfl)).later (pass opening rfl)).map
      fun a => .parenthesized opening a closing
  | group opening only ih =>
    exact ((ih start.advance).later (.advance _)).map fun a => .group opening a
  -- literals and names
  | atom atom sound => exact .none (.atom atom sound) (.passKind atom)
  | objectLiteral opening rest ih =>
    exact ((ih seen).enter opening).map fun a => .objectLiteral opening a
  | functionLiteral word rest ih =>
    exact ((ih seen).later (pass word rfl)).map fun a => .functionLiteral word a
  | object all closing ih => exact ((ih start).close closing).map fun a => .object a closing
  | membersEnd closing => exact .none (.membersEnd closing) (.advance _)
  | lastMember key sound colon value closing ih =>
    exact ((((ih seen).before (.advance _)).later (pass colon rfl)).later
      (.passKind key)).map fun a => .lastMember key sound colon a closing
  | member key sound colon value comma rest ih ih' =>
    exact ((((ih seen).seq ((ih' seen).later (pass comma rfl))).later (pass colon rfl)).later
      (.passKind key)).map
      fun both => .member key sound colon both.1 comma both.2
  | function opening names closing brace body ending ih ih' =>
    have inner := ih' seen.advance (again brace) last
    exact (((ih seen).seq ((inner.later (.advance _)).later (pass closing rfl))).later
      (pass opening rfl)).map fun both => .function opening both.1 closing brace both.2 ending
  | parametersCut isOver => exact .none (.parametersCut isOver) (.advance _)
  | noParameters closing => exact .none (.noParameters closing) (.advance _)
  | lastParameter name closing =>
    exact ((Costs.none (.lastParameter name closing) (.advance _)).later (pass name rfl))
  | parameter name comma rest ih =>
    exact (((ih seen).later (pass comma rfl)).later (pass name rfl)).map
      fun a => .parameter name comma a
  -- arguments
  | arguments list closing ih =>
    intro opening unused
    rw [use unused] at ih
    refine (((ih seen).before (pass closing rfl)).later (pass opening rfl)).map fun a => ?_
    rw [← use unused] at a
    exact .arguments a closing
  | argumentsCut isOver => exact .none (.argumentsCut isOver) (.advance _)
  | noArguments closing => exact .none (.noArguments closing) (.advance _)
  | lastArgument more value opening closing ih =>
    exact (((ih start.advance).before (.advance _)).later (.advance _)).map
      fun a => .lastArgument more a opening closing
  | argument more value opening comma rest ih ih' =>
    exact (((ih start.advance).seq ((ih' seen).later (pass comma rfl))).later (.advance _)).map
      fun both => .argument more both.1 opening comma both.2
  -- statements
  | statement whole ending ih => exact (ih start ending).map fun a => .statement a ending
  | @jump k word =>
    have plain : k.next text ≠ .leftBrace ∧ k.next text ≠ .keyword .ifKw := by
      refine ⟨?_, ?_⟩ <;> intro eq <;> rw [eq] at word <;> cases word
    exact fun ending => .ofEnd (.none (.jump word) (.passKind word)) seen
      ending plain
  | declaration word names ih =>
    refine fun ending => .ofEnd (((ih seen).later (pass word rfl)).map fun a => .declaration word a)
      (names.steady seen).1 ending ?_
    rw [word]
    decide
  | choiceStatement word whole ih =>
    refine fun _ => .ofOwn (((ih start.advance (again word) last).later (.advance _)).map
      fun a => .choiceStatement word a) fun foreign => foreign.2.2 word
  | loopStatement word whole ih =>
    refine fun _ => .ofOwn (((ih start.advance).later (.advance _)).map
      fun a => .loopStatement word a) fun foreign => ?_
    cases whole
    cases foreign.1
  | returnStatement word value ih =>
    refine fun ending => .ofEnd (((ih seen).later (pass word rfl)).map
      fun a => .returnStatement word a) (value.steady seen).1 ending ?_
    rw [word]
    decide
  | blockStatement brace whole ih =>
    refine fun _ => .ofOwn (((ih start.advance (again brace) last).later (.advance _)).map
      fun a => .blockStatement brace a) fun foreign => foreign.2.1 brace
  | @expressionStatement k _ opens whole ih =>
    have plain : k.next text ≠ .leftBrace ∧ k.next text ≠ .keyword .ifKw := by
      refine ⟨?_, ?_⟩ <;> intro eq <;> rw [eq] at opens <;> cases opens
    exact fun ending => .ofEnd (((ih start.advance).later (.advance _)).map
      fun a => .expressionStatement opens a) (whole.steady start.advance).1 ending plain
  | block rest ih =>
    intro brace unused
    rw [use unused] at ih
    refine (((ih seen).closeEnd (rest.steady (steady_of_consumed rfl)).1 rest.ends_blockRest).enter
      brace).map fun a => ?_
    rw [← use unused] at a
    exact .block a
  | blockEnd ending => exact .none (.blockEnd ending) (.advance _)
  | blockRest more open' first semicolon rest ih ih' =>
    have own : ¬ Foreign text _ _ := fun foreign => by
      rw [Foreign, Place.next, Place.advance_advance] at foreign
      rcases semicolon with brace | word | semicolon
      · exact foreign.2.1 brace
      · exact foreign.2.2 word
      · cases semicolon.symm.trans foreign.1
    exact (((((ih start.advance).own fun _ => own).map And.left).seq
      (ih' (first.steady start.advance).1)).later (.advance _)).map
      fun both => .blockRest more open' both.1 semicolon both.2
  | bodyBlock brace whole ih =>
    exact ((ih start.advance (again brace) last).later (.advance _)).map fun a => .bodyBlock brace a
  | @body k k₁ brace only ends ih =>
    have used := ((only.steady start.advance).2.1 rfl).1
    have same : k₁.unuse.pass text = k₁ := by
      rw [Place.pass, Place.advance_of_seen rfl, Place.unuse, Place.use, ← used]
    show Costs _ _ _ _ _ (k₁.unuse.pass text)
    rw [same]
    refine (((ih start.advance).own fun h foreign => ?_).later (.advance _)).map
      fun both => .body brace both.1 fun _ => ?_
    · rw [Foreign, Place.next, Place.advance_advance] at foreign
      exact (ends h).elim (fun other => other foreign.1) foreign.2.2
    · have own := both.2
      rw [Foreign, Place.next, Place.advance_advance] at own
      by_cases word : k.next text = .keyword .ifKw
      · exact .inr word
      · exact .inl fun closing => own ⟨closing, brace, word⟩
  | lastBinding name value ending ih =>
    exact (((ih seen).before (.advance _)).later (pass name rfl)).map
      fun a => .lastBinding name a ending
  | binding name value comma rest ih ih' =>
    exact (((ih seen).seq ((ih' seen).later (pass comma rfl))).later (pass name rfl)).map
      fun both => .binding name both.1 comma both.2
  | initializer sign value ih =>
    exact ((ih seen).later (pass sign rfl)).map fun a => .initializer sign a
  | noInitializer sign => exact .none (.noInitializer sign) (.advance _)
  | @choice k k₁ k₂ opening condition closing first other ih ih' =>
    intro word unused
    have seen₂ := (first.steady seen).2.2 (.inl rfl)
    have same : k₂.unuse = k₂ := by rw [Place.unuse, ← seen₂]
    rw [use unused] at opening
    have all := ((ih (steady_of_consumed rfl)).seq ((ih' seen).later (pass closing rfl)))
    show Costs _ _ _ _ _ (k₂.unuse.pass text)
    rw [same]
    rw [use unused] at all
    refine ((all.later (pass opening rfl)).later (pass word rfl)).map fun both => ?_
    rw [← use unused] at both opening
    exact same ▸ .choice opening both.1 closing both.2 other
  | @choiceElse k k₁ k₂ k' opening condition closing first word' second ih ih' ih'' =>
    intro word unused
    have seen₂ := (first.steady seen).2.2 (.inl rfl)
    rw [use unused] at opening
    have third := (ih'' seen).later (pass word' rfl)
    rw [use seen₂] at third
    have all := ((ih (steady_of_consumed rfl)).seq (((ih' seen).seq third).later (pass closing rfl)))
    rw [use unused] at all
    refine ((all.later (pass opening rfl)).later (pass word rfl)).map fun all => ?_
    rw [← use unused] at all opening
    exact .choiceElse opening all.1 closing all.2.1 word' (use seen₂ ▸ all.2.2)
  | @loop k k₁ k₂ k₃ k₄ word opening start' first condition second step closing body
      ih ih₂ ih₃ ih₄ =>
    have seen₄ := (body.steady seen).2.2 (.inl rfl)
    have behind : Shifts text 0 (k₄.pass text) ((Place.closed k₄.pos).pass text) := by
      intro d j _ awaits
      rw [← use seen₄, awaits_of_consumed rfl]
      exact (awaits_of_consumed (k := (Place.closed k₄.pos).pass text) rfl).mp awaits
    have all := (ih seen).seq (((ih₂ seen).seq (((ih₃ seen).seq
      (((ih₄ seen).before behind).later (pass closing rfl))).later (pass second rfl))).later
      (pass first rfl))
    exact ((all.later (pass opening rfl)).later (pass word rfl)).map
      fun all => .loop word opening all.1 first all.2.1 second all.2.2.1 closing all.2.2.2
  | noStart sign => exact .none (.noStart sign) (.advance _)
  | startBindings word names ih =>
    exact ((ih seen).later (pass word rfl)).map fun a => .startBindings word a
  | startExpression sign word whole ih =>
    exact ((ih start.advance).later (.advance _)).map fun a => .startExpression sign word a
  | absent sign => exact .none (.absent sign) (.advance _)
  | present sign whole ih =>
    exact ((ih start.advance).later (.advance _)).map fun a => .present sign a
  | noValue ending => exact .none (.noValue ending) (.advance _)
  | value more whole ih => exact ((ih start.advance).later (.advance _)).map fun a => .value more a
  | scriptEnd isOver => trivial
  | script more first rest ih ih' => trivial

/-- A block ends at the brace that closes its own one, together with one more for
each that a body in it has used up.  There is none if the block is tidy. -/
theorem Spells.closes {tidy : Prop} (spells : Spells tidy text .block k k')
    (closing : k'.token = .rightBrace) :
    ∃ n, (tidy → n = 0) ∧ (n = 0 → Spells True text .block k k')
      ∧ Closes text (n + 1) k.pos k'.pos := by
  cases spells with
  | block rest =>
    obtain ⟨n, free, holds, shifts⟩ := rest.balances (steady_of_consumed rfl)
    have seen := (rest.steady (steady_of_consumed rfl)).2.2 (.inr (.inr rfl))
    have here : Awaits text 1 k' k'.pos := by
      rw [Awaits, seen, if_neg Bool.false_ne_true, closing]
      exact ⟨nofun, nofun, .inl ⟨rfl, rfl, rfl⟩⟩
    refine ⟨n, free, fun zero => .block (holds zero), ?_⟩
    have there := (awaits_of_consumed rfl).mp (shifts 1 k'.pos Nat.one_pos here)
    rwa [Nat.add_zero, Nat.add_comm] at there

/-- A block ends at a brace that closes its own one and some around it.  There are
none around it if and only if the block is tidy. -/
theorem Derives.closes_block (derives : Derives text .block k k')
    (closing : k'.token = .rightBrace) :
    ∃ n, Closes text (n + 1) k.pos k'.pos ∧ (n = 0 ↔ Spells True text .block k k') := by
  obtain ⟨n, -, holds, closes⟩ := Spells.closes derives closing
  refine ⟨n, closes, holds, fun tidy => ?_⟩
  obtain ⟨m, free, -, closes'⟩ := tidy.closes closing
  obtain rfl := free trivial
  exact Nat.succ.inj (closes.unique closes')

end Grammar

end ArenaScript
