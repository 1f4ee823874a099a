import ArenaScript.Proofs.Evaluate.Passage
import ArenaScript.Proofs.Source.Parameters
import ArenaScript.Proofs.Source.Tiling

/-!
# Copies of a text

A part of a text may stand at the end of another text.  As long as what is read ends
in the part, with a token that takes up room, the tokens of both texts are the same.

Main definitions:

- `Tie`: a part of a text that is the end of another one.
- `Tie.Near`: corresponding places.
- `Tie.Twin`: engines at corresponding places.
- `Engine.Before`: a place from which tokens lead to a position.

Main results:

- `Engine.Passes.before`: what leads to a position was on the way before.
- `Tie.Twin.advance`: the next token.
- `Tie.Twin.ahead`: a token that is only looked at.
-/

namespace ArenaScript

open Source

/-! ## Tokens of a part -/

namespace Source

/-- A literal in a window is measured as in the text. -/
theorem Window.measure_eq {s t : Source} {d : Nat} (window : Window s t d) {i n : Nat}
    (inside : i + n ≤ t.length) :
    measure ⟨s.bytes, s.start + (d + i), n⟩ = measure ⟨t.bytes, t.start + i, n⟩ := by
  have same : Same ⟨s.bytes, s.start + (d + i), n⟩ ⟨t.bytes, t.start + i, n⟩ := by
    refine ⟨rfl, fun j => ?_⟩
    by_cases less : j < n
    · have bound := window.inside
      have byte := window.byte (i + j) (by omega)
      simp only [Source.byte, less, true_and, ← Nat.add_assoc, show d + i + j < s.length by omega,
        show i + j < t.length by omega] at byte ⊢
      exact byte
    · simp only [Source.byte, less, false_and, if_false]
  rw [Source.measure_eq, Source.measure_eq, same.unescape]

/-- A token that ends in a window is a token of the window.  If the window ends with it, it
has to take up room. -/
theorem Window.scan_eq_of_full {s t : Source} {d : Nat} (window : Window s t d) {k : Nat}
    (top : (s.scan (d + k)).stop ≤ d + t.length)
    (full : (s.scan (d + k)).stop = d + t.length → (s.scan (d + k)).token.isBare = false) :
    s.scan (d + k) = (t.scan k).shift d := by
  have low := s.le_stop (d + k)
  rw [Lexeme.stop] at low top full
  refine window.scan_eq (by omega) ?_ top
  refine Nat.lt_of_not_le fun out => ?_
  have bare : (s.scan (d + k)).token.isBare = true := by
    rcases s.token_of_length_eq_zero (i := d + k) (by omega) with token | token <;>
      rw [token] <;> rfl
  rw [full (by omega)] at bare
  cases bare

end Source

/-! ## Places on the way -/

/-- From a place tokens lead to a position, where a token ends that takes up room. -/
structure Engine.Before (last : Nat) (e : Engine) : Prop where
  le : e.cursor.pos ≤ last
  full : e.cursor.pos = last → e.cursor.token.isBare = false
  steps : e.cursor.pos = last ∨ e.nextStop ≤ last

/-- What leads to a position was on the way before. -/
theorem Engine.Passes.before {e e₁ : Engine} {last : Nat} (passes : e.Passes e₁)
    (inside : e.cursor.pos ≤ e.cursor.length) (before : e₁.Before last) : e.Before last := by
  have low := passes.rises.pos inside
  have top := before.le
  refine ⟨by omega, fun there => ?_, ?_⟩
  · have same : e₁.cursor.pos = e.cursor.pos := by omega
    have full := before.full (same.trans there)
    rcases passes.rises.token inside same with token | bare
    · rwa [← token]
    · rw [full] at bare
      cases bare
  · rcases passes.steps inside with same | far
    · have stop : e₁.nextStop = e.nextStop := by
        rw [Engine.nextStop, Engine.nextStop, passes.reads_eq, same]
      rw [← same, ← stop]
      exact before.steps
    · exact .inr (Nat.le_trans far top)

/-! ## Corresponding places -/

/-- A part of a text is the end of another text. -/
structure Tie where
  whole : Source
  copy : Source
  part : Source
  d : Nat
  d' : Nat
  window : Window whole part d
  window' : Window copy part d'
  ends : d' + part.length = copy.length

namespace Tie

/-- A text as a copy of itself. -/
def refl (s : Source) : Tie where
  whole := s
  copy := s
  part := s
  d := 0
  d' := 0
  window := ⟨by omega, fun k _ => by rw [Nat.zero_add], fun k _ _ => by rw [Nat.zero_add]⟩
  window' := ⟨by omega, fun k _ => by rw [Nat.zero_add], fun k _ _ => by rw [Nat.zero_add]⟩
  ends := Nat.zero_add _

/-- Where the part ends in the text. -/
def last (t : Tie) : Nat := t.d + t.part.length

/-- Places with the same token, which is a token of the part unless it says nothing else. -/
structure Near (t : Tie) (k k' : Cursor) : Prop where
  low : t.d ≤ k.pos
  pos : k'.pos + t.d = k.pos + t.d'
  token : k'.token = k.token
  consumed : k'.consumed = k.consumed
  number : k.token = .number → k'.number = k.number
  sound : k.token = .string →
    (measure ⟨t.copy.bytes, t.copy.start + k'.tokenStart, k'.tokenLength⟩).2
      = (measure ⟨t.whole.bytes, t.whole.start + k.tokenStart, k.tokenLength⟩).2

/-- Engines at corresponding places of the two texts.  The second one is nested no deeper. -/
structure Twin (t : Tie) (e e' : Engine) : Prop where
  reads : e.reads = t.whole
  reads' : e'.reads = t.copy
  depth : e'.depth ≤ e.depth
  maxDepth : e'.maxDepth = e.maxDepth
  near : t.Near e.cursor e'.cursor

namespace Twin

variable {t : Tie} {e e' e₁ e₁' : Engine}

variable (twin : t.Twin e e')
include twin

theorem passes (first : e.Passes e₁) (second : e'.Passes e₁')
    (near : t.Near e₁.cursor e₁'.cursor) : t.Twin e₁ e₁' := by
  refine ⟨first.reads_eq.trans twin.reads, second.reads_eq.trans twin.reads', ?_, ?_, near⟩
  · rw [first.depth_eq.1, second.depth_eq.1]
    exact twin.depth
  · rw [first.depth_eq.2, second.depth_eq.2]
    exact twin.maxDepth

/-- A nesting that is allowed is allowed in the copy. -/
theorem tooDeep (deep : Routine.tooDeep e' = true) : Routine.tooDeep e = true := by
  have depth := twin.depth
  simp only [Routine.tooDeep, twin.maxDepth, Bool.and_eq_true, decide_eq_true_eq] at deep ⊢
  omega

/-- The place as a place of the part. -/
theorem exists_place : ∃ k, e.cursor.pos = t.d + k ∧ e'.cursor.pos = t.d' + k := by
  have low := twin.near.low
  have pos := twin.near.pos
  exact ⟨e.cursor.pos - t.d, by omega, by omega⟩

/-- The next token, if it ends in the part. -/
theorem scan (top : e.nextStop ≤ t.last)
    (full : e.nextStop = t.last → (e.reads.scan e.cursor.pos).token.isBare = false) :
    ∃ l : Lexeme, e.reads.scan e.cursor.pos = l.shift t.d
      ∧ e'.reads.scan e'.cursor.pos = l.shift t.d' ∧ l.start + l.length ≤ t.part.length := by
  obtain ⟨k, pos, pos'⟩ := twin.exists_place
  rw [Engine.nextStop, twin.reads, pos] at top full
  rw [twin.reads, twin.reads', pos, pos']
  have low := t.whole.le_stop (t.d + k)
  have within : k ≤ t.part.length := by
    rw [last] at top
    omega
  refine ⟨t.part.scan k, t.window.scan_eq_of_full top full, t.window'.scan_eq_of_tail t.ends within,
    Source.scan_inside _ within⟩

/-- The next token is the same, if the way goes on behind it. -/
theorem advance (before : { e with cursor := e.cursor.advance e.arena.bytes }.Before t.last) :
    t.Near (e.cursor.advance e.arena.bytes) (e'.cursor.advance e'.arena.bytes) := by
  have near := twin.near
  have top := before.le
  have full := before.full
  simp only [Cursor.advance, near.consumed] at top full ⊢
  split
  · rename_i used
    simp only [used, if_true, Cursor.accept] at top full
    obtain ⟨l, same, same', inside⟩ := twin.scan top full
    have low := e.reads.le_stop e.cursor.pos
    have first := near.low
    rw [show e.cursor.source e.arena.bytes = e.reads from rfl,
      show e'.cursor.source e'.arena.bytes = e'.reads from rfl, same, same']
    rw [same, Lexeme.stop] at low
    refine ⟨?_, ?_, rfl, rfl, fun number => ?_, fun _ => ?_⟩
    · exact Nat.le_trans first low
    · simp only [Cursor.accept, Lexeme.shift]
      omega
    · have token : (e.reads.scan e.cursor.pos).token = .number := by
        rw [same]
        exact number
      obtain ⟨v, found⟩ := Option.isSome_iff_exists.mp ((number_scan _ _).mpr token)
      rw [same] at found
      simp only [Lexeme.shift] at found
      simp only [Cursor.accept, Lexeme.shift, found, Option.getD_some]
    · simp only [Cursor.accept, Lexeme.shift]
      rw [t.window.measure_eq inside, t.window'.measure_eq inside]
  · exact near

theorem onward (before : e.onward.Before t.last) : t.Near e.onward.cursor e'.onward.cursor :=
  have used : t.Twin { e with cursor := e.cursor.use } { e' with cursor := e'.cursor.use } :=
    { twin with near := { twin.near with consumed := rfl } }
  used.advance before

/-- A token behind the current one is the same, or the copy ends. -/
theorem ahead (before : e.Before t.last) :
    (e'.reads.scan e'.cursor.pos).token = (e.reads.scan e.cursor.pos).token
      ∨ (e'.reads.scan e'.cursor.pos).token = .eof := by
  obtain ⟨k, pos, pos'⟩ := twin.exists_place
  have top := before.le
  have within : k ≤ t.part.length := by
    rw [last] at top
    omega
  have copy : e'.reads.scan e'.cursor.pos = (t.part.scan k).shift t.d' := by
    rw [twin.reads', pos']
    exact t.window'.scan_eq_of_tail t.ends within
  have steps := before.steps
  rw [Engine.nextStop, twin.reads, pos, last, Lexeme.stop] at steps
  rw [copy, twin.reads, pos]
  have up := t.whole.le_skipBlanks (t.d + k)
  have start := t.whole.scan_start (t.d + k)
  by_cases starts : (t.whole.scan (t.d + k)).start < t.d + t.part.length
  · refine .inl (congrArg Lexeme.token (t.window.scan_eq within starts ?_)).symm
    omega
  · refine .inr ?_
    have past : t.part.length ≤ t.part.skipBlanks k := by
      rcases steps with last | top
      · have low := t.part.le_skipBlanks k
        omega
      · have same := t.window.skipBlanks_eq within (by omega)
        omega
    show (t.part.scan k).token = .eof
    rw [Source.scan, if_pos past]

end Twin

end Tie

end ArenaScript
