import ArenaScript.Proofs.Evaluate.Course
import ArenaScript.Proofs.Source.Windows

/-!
# Passing over a text

What changes while a stretch of a text is passed over: the place in the text, the
messages of errors and the two marks of use.  The place only moves forward, from
token to token, and a failure moves it to the end of the text.

Main definitions:

- `Engine.Undisturbed`: nothing has changed that a dry run must keep.
- `Cursor.Rises`: a place has not moved back.
- `Engine.Passes`: both, and no token was passed over in part.
- `Engine.Legible`: the place is one of the text.
- `Value.Settled`: the values of dry runs.
-/

namespace ArenaScript

open Engine

/-- The event is the report of a failure. -/
def Event.isFailure : Event → Bool
  | .failed _ _ => true
  | _ => false

/-- Two engines differ in nothing but the place in the text, the messages of
errors with their reports, and the marks of use. -/
def Engine.Undisturbed (e e' : Engine) : Prop :=
  ∃ (low : UInt32) (log : ErrorLog) (cursor : Cursor) (deepest : Nat) (failures : Array Event),
    (∀ event ∈ failures, event.isFailure = true) ∧ e' = { e with
      arena := { e.arena with low := low }
      log := log
      cursor := cursor
      deepest := deepest
      events := e.events ++ failures }

namespace Engine.Undisturbed

variable {e e₁ e₂ : Engine}

theorem of_cursor (e : Engine) (k : Cursor) : e.Undisturbed { e with cursor := k } := by
  refine ⟨e.arena.low, e.log, k, e.deepest, #[], by simp, ?_⟩
  rw [Array.append_empty]

theorem trans (first : e.Undisturbed e₁) (second : e₁.Undisturbed e₂) : e.Undisturbed e₂ := by
  obtain ⟨_, _, _, _, failures, sound, rfl⟩ := first
  obtain ⟨low, log, cursor, deepest, more, sound', rfl⟩ := second
  refine ⟨low, log, cursor, deepest, failures ++ more, fun event mem => ?_, ?_⟩
  · rcases Array.mem_append.mp mem with mem | mem
    · exact sound event mem
    · exact sound' event mem
  · simp only [Array.append_assoc]

theorem bytes_eq (same : e.Undisturbed e₁) : e₁.arena.bytes = e.arena.bytes := by
  obtain ⟨_, _, _, _, _, -, rfl⟩ := same
  rfl

end Engine.Undisturbed

/-! ## Places -/

/-- Tokens that may take up no room: the end of a text, a place where no token
starts, and the semicolon that stands for the end of a loop. -/
def Token.isBare : Token → Bool
  | .eof | .bad | .semicolon => true
  | _ => false

/-- A cursor has not moved back in its text.  It has moved forward if it has come
to another token that takes up room. -/
structure Cursor.Rises (k k' : Cursor) : Prop where
  origin : k'.origin = k.origin
  length : k'.length = k.length
  pos : k.pos ≤ k.length → k.pos ≤ k'.pos ∧ k'.pos ≤ k.length
  token : k.pos ≤ k.length → k'.pos = k.pos → k'.token = k.token ∨ k'.token.isBare = true
  span : k.pos ≤ k.length → k.tokenStart + k.tokenLength ≤ k.length →
    k'.tokenStart + k'.tokenLength ≤ k.length
  number : k.number.kind = .number → k'.number.kind = .number

/-- Nothing but the end of the text is left to be read. -/
def Cursor.Spent (k : Cursor) : Prop := k.pos = k.length ∧ k.token.isBare = true

namespace Cursor

theorem length_source (k : Cursor) (arena : ByteArray) : (k.source arena).length = k.length := by
  rw [source]
  split <;> rfl

/-- A token of a text lies in the text. -/
theorem scan_inside (k : Cursor) (arena : ByteArray) (inside : k.pos ≤ k.length) :
    ((k.source arena).scan k.pos).start + ((k.source arena).scan k.pos).length ≤ k.length := by
  have stop := Source.scan_inside (k.source arena) (i := k.pos) (by
    rw [length_source]; exact inside)
  rwa [length_source] at stop

theorem le_scan_start (k : Cursor) (arena : ByteArray) :
    k.pos ≤ ((k.source arena).scan k.pos).start := by
  rw [Source.scan_start]
  exact (k.source arena).le_skipBlanks k.pos

/-- A token that takes up no room is bare. -/
theorem isBare_of_scan {k : Cursor} {arena : ByteArray}
    (empty : ((k.source arena).scan k.pos).length = 0) :
    ((k.source arena).scan k.pos).token.isBare = true := by
  rcases (k.source arena).token_of_length_eq_zero empty with token | token <;> rw [token] <;> rfl

namespace Rises

variable {k k₁ k₂ : Cursor}

/-- The token may be marked as used or not, and replaced by a bare one. -/
theorem of_pos (k : Cursor) {t : Token} (bare : t = k.token ∨ t.isBare = true) (consumed : Bool) :
    k.Rises { k with token := t, consumed := consumed } :=
  ⟨rfl, rfl, fun inside => ⟨Nat.le_refl _, inside⟩, fun _ _ => bare, fun _ => id, id⟩

theorem refl (k : Cursor) : k.Rises k := of_pos k (.inl rfl) k.consumed

theorem use (k : Cursor) : k.Rises k.use := of_pos k (.inl rfl) true

theorem unuse (k : Cursor) : k.Rises k.unuse := of_pos k (.inl rfl) false

theorem trans (first : k.Rises k₁) (second : k₁.Rises k₂) : k.Rises k₂ := by
  have length := first.length
  refine ⟨second.origin.trans first.origin, second.length.trans length, fun inside => ?_,
    fun inside same => ?_, fun inside span => ?_,
    fun number => second.number (first.number number)⟩
  all_goals
    have low := first.pos inside
    have high := second.pos (by omega)
  · omega
  · rcases second.token (by omega) (by omega) with token | bare
    · rw [token]
      exact first.token inside (by omega)
    · exact .inr bare
  · have inner := first.span inside span
    have outer := second.span (by omega) (by omega)
    omega

theorem advance (k : Cursor) (arena : ByteArray) : k.Rises (k.advance arena) := by
  rw [Cursor.advance]
  split
  · have up := k.le_scan_start arena
    refine ⟨rfl, rfl, fun inside => ?_, fun _ same => .inr ?_,
      fun inside _ => k.scan_inside arena inside, fun number => ?_⟩
    · have stop := k.scan_inside arena inside
      simp only [accept]
      omega
    · simp only [accept] at same ⊢
      exact isBare_of_scan (by omega)
    · simp only [accept]
      cases found : ((k.source arena).scan k.pos).number with
      | none => exact number
      | some v => exact Source.kind_number found
  · exact .refl k

theorem finish (k : Cursor) : k.Rises k.finish :=
  ⟨rfl, rfl, fun inside => ⟨inside, Nat.le_refl _⟩, fun _ _ => .inr rfl, fun _ => id, id⟩

/-- What comes after the end of the text is at its end as well. -/
theorem spent (rises : k.Rises k₁) (spent : k.Spent) : k₁.Spent := by
  obtain ⟨stop, bare⟩ := spent
  have inside : k.pos ≤ k.length := Nat.le_of_eq stop
  have between := rises.pos inside
  have length := rises.length
  refine ⟨by omega, ?_⟩
  rcases rises.token inside (by omega) with same | other
  · rwa [same]
  · exact other

theorem source_eq (rises : k.Rises k₁) (arena : ByteArray) : k₁.source arena = k.source arena := by
  simp only [Cursor.source, rises.origin, rises.length]

end Rises

end Cursor

/-! ## Engines -/

namespace Engine

/-- The text that an engine reads. -/
def reads (e : Engine) : Source := e.cursor.source e.arena.bytes

/-- Where the token from the place on ends. -/
def nextStop (e : Engine) : Nat := (e.reads.scan e.cursor.pos).stop

/-- The engine at the next token. -/
def onward (e : Engine) : Engine := { e with cursor := e.cursor.use.advance e.arena.bytes }

/-- A stretch of the text has been passed over, from token to token. -/
structure Passes (e e' : Engine) : Prop where
  undisturbed : e.Undisturbed e'
  rises : e.cursor.Rises e'.cursor
  steps : e.cursor.pos ≤ e.cursor.length →
    e'.cursor.pos = e.cursor.pos ∨ e.nextStop ≤ e'.cursor.pos

namespace Passes

variable {e e₁ e₂ : Engine}

theorem reads_eq (same : e.Passes e₁) : e₁.reads = e.reads := by
  rw [reads, reads, same.undisturbed.bytes_eq, same.rises.source_eq]

/-- The place has not been left. -/
theorem of_pos (same : e.Undisturbed e₁) (rises : e.cursor.Rises e₁.cursor)
    (pos : e₁.cursor.pos = e.cursor.pos) : e.Passes e₁ :=
  ⟨same, rises, fun _ => .inl pos⟩

theorem refl (e : Engine) : e.Passes e := of_pos (.of_cursor e e.cursor) (.refl _) rfl

/-- The place stays as it is. -/
theorem of_undisturbed (same : e.Undisturbed e₁) (place : e₁.cursor = e.cursor) : e.Passes e₁ :=
  of_pos same (place ▸ .refl _) (by rw [place])

theorem trans (first : e.Passes e₁) (second : e₁.Passes e₂) : e.Passes e₂ := by
  refine ⟨first.undisturbed.trans second.undisturbed, first.rises.trans second.rises,
    fun inside => ?_⟩
  have low := first.rises.pos inside
  have length := first.rises.length
  have high := second.rises.pos (by omega)
  rcases first.steps inside with same | far
  · have stop : e₁.nextStop = e.nextStop := by rw [nextStop, nextStop, first.reads_eq, same]
    rw [← stop, ← same]
    exact second.steps (by omega)
  · exact .inr (by omega)

theorem advance (e : Engine) : e.Passes { e with cursor := e.cursor.advance e.arena.bytes } := by
  refine ⟨.of_cursor e _, .advance _ _, fun _ => ?_⟩
  show (e.cursor.advance e.arena.bytes).pos = _ ∨ _ ≤ (e.cursor.advance e.arena.bytes).pos
  rw [Cursor.advance]
  split
  · exact .inr (Nat.le_refl _)
  · exact .inl rfl

theorem onward (e : Engine) : e.Passes e.onward :=
  (of_pos (.of_cursor e e.cursor.use) (.use _) rfl).trans (advance _)

variable (same : e.Passes e₁)
include same

theorem mode_eq : e₁.mode = e.mode := by
  obtain ⟨⟨_, _, _, _, _, -, rfl⟩, -, -⟩ := same
  rfl

theorem roots_eq : e₁.roots = e.roots := by
  obtain ⟨⟨_, _, _, _, _, -, rfl⟩, -, -⟩ := same
  rfl

theorem depth_eq : e₁.depth = e.depth ∧ e₁.maxDepth = e.maxDepth := by
  obtain ⟨⟨_, _, _, _, _, -, rfl⟩, -, -⟩ := same
  exact ⟨rfl, rfl⟩

/-- What is held and how deep the nesting is does not matter to the rest. -/
theorem change (roots : List Value) (depth : Nat) : { e with roots := roots, depth := depth }.Passes
      { e₁ with roots := roots, depth := depth } := by
  obtain ⟨⟨low, log, cursor, deepest, failures, sound, rfl⟩, rises, steps⟩ := same
  exact ⟨⟨low, log, cursor, deepest, failures, sound, rfl⟩, rises, steps⟩

theorem inMode (mode : Mode) : { e with mode := mode }.Passes { e₁ with mode := mode } := by
  obtain ⟨⟨low, log, cursor, deepest, failures, sound, rfl⟩, rises, steps⟩ := same
  exact ⟨⟨low, log, cursor, deepest, failures, sound, rfl⟩, rises, steps⟩

end Passes

/-- The text lies within its bytes, the place and the current token within the text,
and a number was scanned last. -/
structure Legible (e : Engine) : Prop where
  valid : e.cursor.isValid e.arena.bytes = true
  inside : e.cursor.pos ≤ e.cursor.length
  token : e.cursor.tokenStart + e.cursor.tokenLength ≤ e.cursor.length
  number : e.cursor.number.kind = .number

theorem Passes.legible {e e' : Engine} (passes : e.Passes e') (legible : e.Legible) :
    e'.Legible := by
  have rises := passes.rises
  have source := passes.reads_eq
  refine ⟨?_, ?_, ?_, rises.number legible.number⟩
  · have valid := legible.valid
    rw [Cursor.isValid] at valid ⊢
    rw [show e'.cursor.source e'.arena.bytes = e.cursor.source e.arena.bytes from source]
    exact valid
  · rw [rises.length]
    exact (rises.pos legible.inside).2
  · rw [rises.length]
    exact rises.span legible.inside legible.token

/-- The part of a text that is read lies within its bytes. -/
theorem Legible.source_inside {e : Engine} (legible : e.Legible) :
    e.reads.start + e.cursor.length ≤ e.reads.bytes.size := by
  have valid : e.reads.start + e.reads.length ≤ e.reads.bytes.size := of_decide_eq_true legible.valid
  rwa [show e.reads.length = e.cursor.length from e.cursor.length_source _] at valid

end Engine

/-! ## Values -/

/-- Only a property leads on. -/
theorem Engine.resolve_of_kind_ne {v : Value} (other : v.kind ≠ .property) (e : Engine) :
    resolve v e = .ok (v, e) := by
  simp only [resolve, readArena, Arena.resolve, Arena.chainBound, Arena.resolveFrom, other, if_false]

/-- A value of a dry run at a place: no string, no reference to a property, a span only
of the text, and an error only at the end of the text. -/
structure Value.Settled (v : Value) (k : Cursor) : Prop where
  plain : v.kind ≠ .property
  text : v.kind ≠ .string
  span : v.kind = .span → v.spanStart.toNat + v.spanLength.toNat ≤ k.length
  blame : v.isError = true → k.Spent

/-- A value that is settled anywhere. -/
def Value.isConstant (v : Value) : Bool :=
  v.kind ≠ .property && v.kind ≠ .string && v.kind ≠ .span && !v.isError

theorem Value.isError_of_isConstant {v : Value} (plain : v.isConstant = true) :
    v.isError = false := by
  simp only [isConstant, Bool.and_eq_true, Bool.not_eq_true'] at plain
  exact plain.2

namespace Value.Settled

variable {v : Value} {k k' : Cursor}

theorem rises (settled : v.Settled k) (rises : k.Rises k') : v.Settled k' :=
  ⟨settled.plain, settled.text, rises.length ▸ settled.span,
    fun error => rises.spent (settled.blame error)⟩

theorem constant (plain : v.isConstant = true) (k : Cursor) : v.Settled k := by
  simp only [isConstant, ne_eq, decide_not, Bool.and_eq_true, Bool.not_eq_true',
    decide_eq_false_iff_not] at plain
  obtain ⟨⟨⟨property, text⟩, span⟩, fine⟩ := plain
  exact ⟨property, text, fun kind => absurd kind span, fun error => nomatch fine.symm.trans error⟩

theorem error (error : v.isError = true) (spent : k.Spent) : v.Settled k := by
  have kind : v.kind = .error := by simpa [isError] using error
  refine ⟨?_, ?_, ?_, fun _ => spent⟩ <;> rw [kind] <;> nofun

end Value.Settled

/-- Values that are the same, or spans of different texts. -/
def Value.Like (v v' : Value) : Prop := v' = v ∨ v.kind = .span ∧ v'.kind = .span

theorem Value.Like.isError_eq {v v' : Value} (like : v.Like v') : v'.isError = v.isError := by
  rcases like with rfl | ⟨span, span'⟩
  · rfl
  · rw [isError, isError, span, span']

theorem Value.Like.eq_of_isError {v v' : Value} (like : v.Like v') (error : v.isError = true) :
    v' = v := by
  rcases like with rfl | ⟨span, -⟩
  · rfl
  · rw [isError, span] at error
    cases error

/-- What operands give in a dry run: the first error, or else the same for all. -/
def Value.joined (left right : Value) : Value :=
  if left.isError then left else if right.isError then right else .zero

theorem Value.Settled.joined {left right : Value} {k : Cursor} (first : left.Settled k)
    (second : right.Settled k) : (left.joined right).Settled k := by
  rw [Value.joined]
  split
  · exact first
  · split
    · exact second
    · exact .constant (by decide) k

/-- All of some values are those of a dry run at a place. -/
def Settle (vs : List Value) (k : Cursor) : Prop := ∀ v ∈ vs, v.Settled k

namespace Settle

variable {vs : List Value} {v : Value} {k k' : Cursor}

theorem rises (settle : Settle vs k) (rises : k.Rises k') : Settle vs k' :=
  fun v mem => (settle v mem).rises rises

theorem cons (settled : v.Settled k) (settle : Settle vs k) : Settle (v :: vs) k :=
  List.forall_mem_cons.mpr ⟨settled, settle⟩

theorem tail (settle : Settle (v :: vs) k) : Settle vs k :=
  fun u mem => settle u (List.mem_cons_of_mem v mem)

theorem head (settle : Settle (v :: vs) k) : v.Settled k := settle v (List.mem_cons_self ..)

theorem single (settle : Settle (v :: vs) k) : Settle [v] k := cons settle.head nofun

end Settle

end ArenaScript
