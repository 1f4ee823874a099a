import ArenaScript.Engine.Scanning
import ArenaScript.Proofs.Collector.Soundness
import ArenaScript.Proofs.Lockstep.Arenas
import ArenaScript.Proofs.Source.Reading

/-!
# Texts read in step

Cursors of several engines stand at one place of one text.  The text is that of
the host, the same for all, or it lies inside related strings of their arenas.
A text in an arena is kept by a function among the values held for later; its
cursor is said to be anchored at the height of that value in the stack.

Main definitions:

- `Listed`: lists whose members at each position have a property in common.
- `Site`, `Ground`, `Spot`: where a text lies, the text, and a place in it.
- `World.Reads`: cursors at one place of one text.

Main results:

- `Spot.Inside.advance`: a scanned token lies inside the text.
- `World.Reads.shows`: all cursors show the text.
- `World.Reads.part`: cursors over a part of the text.
-/

namespace ArenaScript.Lockstep

variable {ι : Type} {roots : List Value} {height : Nat} {o : UInt32}

/-! ## Lists in step -/

/-- Lists of one length whose members at each position have a property in
common. -/
def Listed {α β : Type} (P : α → (ι → β) → Prop) : List α → (ι → List β) → Prop
  | [], vs => ∀ i, vs i = []
  | x :: xs, vs => ∃ v vs', (∀ i, vs i = v i :: vs' i) ∧ P x v ∧ Listed P xs vs'

namespace Listed

variable {α β : Type} {P Q : α → (ι → β) → Prop} {xs : List α} {vs : ι → List β}

theorem cons {x : α} {v : ι → β} (head : P x v) (tail : Listed P xs vs) :
    Listed P (x :: xs) fun i => v i :: vs i :=
  ⟨v, vs, fun _ => rfl, head, tail⟩

/-- A map of the members, one for each index, is a map of the lists. -/
theorem map {γ : Type} {R : α → (ι → γ) → Prop} {f : ι → β → γ}
    (step : ∀ x v, P x v → R x fun i => f i (v i)) (listed : Listed P xs vs) :
    Listed R xs fun i => (vs i).map (f i) := by
  induction xs generalizing vs with
  | nil =>
    intro i
    simp [listed i]
  | cons x xs ih =>
    obtain ⟨v, vs', eq, head, tail⟩ := listed
    refine ⟨fun i => f i (v i), fun i => (vs' i).map (f i), fun i => ?_, step x v head, ih tail⟩
    simp [eq i]

theorem mono (step : ∀ x ∈ xs, ∀ v, P x v → Q x v) (listed : Listed P xs vs) : Listed Q xs vs := by
  induction xs generalizing vs with
  | nil => exact listed
  | cons x xs ih =>
    obtain ⟨v, vs', eq, head, tail⟩ := listed
    exact ⟨v, vs', eq, step x (List.mem_cons_self ..) v head,
      ih (fun y mem => step y (List.mem_cons_of_mem x mem)) tail⟩

theorem length_eq (listed : Listed P xs vs) (i : ι) : (vs i).length = xs.length := by
  induction xs generalizing vs with
  | nil => simp [listed i]
  | cons x xs ih =>
    obtain ⟨v, vs', eq, -, tail⟩ := listed
    simp [eq i, ih tail]

theorem get (listed : Listed P xs vs) {n : Nat} {x : α} (found : xs[n]? = some x) :
    ∃ v, P x v ∧ ∀ i, (vs i)[n]? = some (v i) := by
  induction xs generalizing vs n with
  | nil => simp at found
  | cons y ys ih =>
    obtain ⟨v, vs', eq, head, tail⟩ := listed
    cases n with
    | zero =>
      obtain rfl : y = x := by simpa using found
      exact ⟨v, head, fun i => by simp [eq i]⟩
    | succ n =>
      obtain ⟨v', there, at?⟩ := ih tail (n := n) (by simpa using found)
      exact ⟨v', there, fun i => by simpa [eq i] using at? i⟩

theorem mem (listed : Listed P xs vs) {i : ι} {b : β} (mem : b ∈ vs i) :
    ∃ x v, P x v ∧ v i = b := by
  induction xs generalizing vs with
  | nil =>
    rw [listed i] at mem
    cases mem
  | cons x xs ih =>
    obtain ⟨v, vs', eq, head, tail⟩ := listed
    rw [eq i] at mem
    rcases List.mem_cons.mp mem with rfl | mem
    · exact ⟨x, v, head, rfl⟩
    · exact ih tail mem

end Listed

/-! ## Texts and places in them -/

/-- Where a text lies: with the host, or from some byte on inside the string that
the value at a height of the stack of values held for later keeps. -/
inductive Site where
  | host (full : ByteArray) (start : Nat)
  | kept (height skipped : Nat)

/-- A text that is being read. -/
structure Ground where
  text : ByteArray
  site : Site

/-- The height of the value that keeps a text, if it lies in an arena. -/
def Ground.anchor (g : Ground) : Option Nat :=
  match g.site with
  | .host _ _ => none
  | .kept height _ => some height

/-- A place in a text, with the token scanned last. -/
structure Spot where
  pos : Nat
  tokenStart : Nat
  tokenLength : Nat
  token : Token
  consumed : Bool
  number : Value

namespace Spot

variable {t : Spot} {n : Nat}

/-- The place lies in a text of a length, and so does the token. -/
structure Inside (t : Spot) (n : Nat) : Prop where
  pos : t.pos ≤ n
  token : t.tokenStart + t.tokenLength ≤ n
  number : t.number.kind = .number

/-- The cursor at a place of a text that lies somewhere. -/
def cursor (t : Spot) (origin : Origin) (length : Nat) : Cursor where
  origin := origin
  length := length
  pos := t.pos
  tokenStart := t.tokenStart
  tokenLength := t.tokenLength
  token := t.token
  consumed := t.consumed
  number := t.number

/-- The place after the next token is scanned, unless the current one is
unused. -/
def advance (t : Spot) (text : ByteArray) : Spot :=
  if t.consumed then
    let lexeme := (Source.ofBytes text).scan t.pos
    { pos := lexeme.start + lexeme.length
      tokenStart := lexeme.start
      tokenLength := lexeme.length
      token := lexeme.token
      consumed := false
      number := lexeme.number.getD t.number }
  else t

/-- The start of a text. -/
def start : Spot := ⟨0, 0, 0, .bad, true, .zero⟩

/-- The current token is used up. -/
def use (t : Spot) : Spot := { t with consumed := true }

/-- The current token is to be seen again. -/
def unuse (t : Spot) : Spot := { t with consumed := false }

/-- Nothing more is read. -/
def finish (t : Spot) (length : Nat) : Spot :=
  { t with pos := length, token := .eof, consumed := false }

theorem inside_start (n : Nat) : start.Inside n := ⟨Nat.zero_le n, Nat.zero_le n, by decide⟩

theorem Inside.use (inside : t.Inside n) : t.use.Inside n :=
  ⟨inside.pos, inside.token, inside.number⟩

theorem Inside.unuse (inside : t.Inside n) : t.unuse.Inside n :=
  ⟨inside.pos, inside.token, inside.number⟩

theorem Inside.finish (inside : t.Inside n) : (t.finish n).Inside n :=
  ⟨Nat.le_refl n, inside.token, inside.number⟩

theorem Inside.advance {text : ByteArray} (inside : t.Inside text.size) :
    (t.advance text).Inside text.size := by
  unfold Spot.advance
  by_cases consumed : t.consumed = true
  · rw [if_pos consumed]
    have bound := (Source.ofBytes text).scan_inside inside.pos
    refine ⟨bound, bound, ?_⟩
    show (((Source.ofBytes text).scan t.pos).number.getD t.number).kind = .number
    cases number : ((Source.ofBytes text).scan t.pos).number with
    | none => exact inside.number
    | some v => exact Source.kind_number number
  · rw [if_neg consumed]
    exact inside

end Spot

/-- A value at a height of a stack keeps the string at an offset. -/
def Anchors (roots : List Value) (height : Nat) (o : UInt32) : Prop :=
  ∃ upper lower, roots = upper ++ .ref .function o :: lower ∧ lower.length = height

theorem Anchors.push (anchored : Anchors roots height o) (v : Value) :
    Anchors (v :: roots) height o := by
  obtain ⟨upper, lower, rfl, length⟩ := anchored
  exact ⟨v :: upper, lower, rfl, length⟩

theorem Anchors.pop {v : Value} (anchored : Anchors (v :: roots) height o)
    (below : height < roots.length) : Anchors roots height o := by
  obtain ⟨upper, lower, eq, length⟩ := anchored
  cases upper with
  | nil =>
    simp only [List.nil_append, List.cons.injEq] at eq
    obtain ⟨-, rfl⟩ := eq
    omega
  | cons u upper =>
    simp only [List.cons_append, List.cons.injEq] at eq
    exact ⟨upper, lower, eq.2, length⟩

/-- Only a function keeps a text. -/
theorem Anchors.popOther {v : Value} (anchored : Anchors (v :: roots) height o)
    (other : v.kind ≠ .function) : Anchors roots height o := by
  obtain ⟨upper, lower, eq, length⟩ := anchored
  cases upper with
  | nil =>
    simp only [List.nil_append, List.cons.injEq] at eq
    rw [eq.1, Value.kind_ref] at other
    exact absurd rfl other
  | cons u upper =>
    simp only [List.cons_append, List.cons.injEq] at eq
    exact ⟨upper, lower, eq.2, length⟩

theorem Anchors.lt_length (anchored : Anchors roots height o) : height < roots.length := by
  obtain ⟨upper, lower, rfl, length⟩ := anchored
  simp only [List.length_append, List.length_cons]
  omega

theorem Anchors.mem (anchored : Anchors roots height o) : .ref .function o ∈ roots := by
  obtain ⟨upper, lower, rfl, -⟩ := anchored
  simp

theorem Anchors.map (anchored : Anchors roots height o) (m : UInt32 → UInt32) :
    Anchors (roots.map (Value.move m)) height (m o) := by
  obtain ⟨upper, lower, rfl, length⟩ := anchored
  refine ⟨upper.map (Value.move m), lower.map (Value.move m), ?_, by simpa using length⟩
  simp [Value.move_ref m (show Kind.isEntity .function = true from rfl)]

variable [Rules ι]

namespace World

/-- Where the text of a ground lies: with the host, or inside related strings
that values held for later keep.  Under strict rules texts of the host are
small. -/
def Lies (w : World ι) (roots : ι → List Value) (g : Ground) (origin : ι → Origin) : Prop :=
  match g.site with
  | .host full start => (∀ i, origin i = .host full start)
      ∧ Source.Shows ⟨full, start, g.text.size⟩ g.text
      ∧ (Strict ι → g.text.size < 2 ^ 24)
  | .kept height d => ∃ (a : ι → UInt32) (age : Nat) (text : ByteArray), w.rel (.string age text) a
      ∧ (∀ i, Anchors (roots i) height (a i))
      ∧ (∀ i, origin i = .arena ((a i).toNat + 4 + d))
      ∧ d + g.text.size ≤ text.size ∧ text.extract d (d + g.text.size) = g.text

/-- Cursors at one place of one text. -/
structure Reads (w : World ι) (roots : ι → List Value) (g : Ground) (t : Spot)
    (k : ι → Cursor) : Prop where
  /-- They differ only in where the text lies. -/
  cursor : ∀ i, k i = t.cursor (k i).origin g.text.size
  /-- The text lies where it should. -/
  lies : w.Lies roots g fun i => (k i).origin
  /-- The place is inside the text. -/
  inside : t.Inside g.text.size

variable {w w' : World ι} {roots : ι → List Value} {g : Ground} {t : Spot} {k : ι → Cursor}

theorem Lies.mono (le : w.Le w') {roots' : ι → List Value} {origin : ι → Origin}
    (keep : ∀ i height o, g.anchor = some height → Anchors (roots i) height o →
      Anchors (roots' i) height o) (lies : w.Lies roots g origin) :
    w'.Lies roots' g origin := by
  unfold Lies at lies ⊢
  cases site : g.site with
  | host full start => simpa only [site] using lies
  | kept height d =>
    have anchor : g.anchor = some height := by rw [Ground.anchor, site]
    simp only [site] at lies ⊢
    obtain ⟨a, age, text, rel, anchored, rest⟩ := lies
    exact ⟨a, age, text, le _ _ rel, fun i => keep i height _ anchor (anchored i), rest⟩

variable (reads : w.Reads roots g t k)
include reads

theorem Reads.mono (le : w.Le w') {roots' : ι → List Value}
    (keep : ∀ i height o, g.anchor = some height → Anchors (roots i) height o →
      Anchors (roots' i) height o) : w'.Reads roots' g t k :=
  ⟨reads.cursor, reads.lies.mono le keep, reads.inside⟩

/-- Cursors at another place of the same text. -/
theorem Reads.goTo {u : Spot} (inside : u.Inside g.text.size)
    {k' : ι → Cursor} (eq : ∀ i, k' i = u.cursor (k i).origin g.text.size) :
    w.Reads roots g u k' := by
  have origin : (fun i => (k' i).origin) = fun i => (k i).origin := by
    funext i
    rw [eq i]
    rfl
  refine ⟨fun i => ?_, ?_, inside⟩
  · rw [show (k' i).origin = (k i).origin from congrFun origin i]
    exact eq i
  · rw [origin]
    exact reads.lies

omit reads in
/-- The bytes of a string of a heap, as part of the arena that holds it. -/
theorem shows_string {a : Arena} {h : Heap} {scratch : List Value} (holds : a.Holds h scratch)
    {o : UInt32} {text : ByteArray} (found : h.at? o.toNat = some ⟨.string text, false⟩) :
    Source.Shows ⟨a.bytes, o.toNat + 4, text.size⟩ text := by
  have inside := holds.record_le_size found
  have whole : Record.size ⟨.string text, false⟩ = 4 + (text.size + 4) / 4 * 4 := rfl
  obtain ⟨-, -, body⟩ := holds.records _ _ found
  refine ⟨rfl, ?_, body⟩
  simp only
  omega

/-- All cursors show the text, wherever it lies. -/
theorem Reads.shows {arena : ι → Arena} (fits : w.Fits arena)
    (i : ι) : ((k i).source (arena i).bytes).Shows g.text := by
  have lies := reads.lies
  rw [reads.cursor i]
  unfold Lies at lies
  cases site : g.site with
  | host full start =>
    simp only [site] at lies
    obtain ⟨origin, shown, -⟩ := lies
    simpa only [Spot.cursor, Cursor.source, origin i] using shown
  | kept height d =>
    simp only [site] at lies
    obtain ⟨a, age, text, rel, -, origin, bound, content⟩ := lies
    have found := (fits.good i).at?_eq (fits.matched.content rel i)
    have shown := (shows_string (fits.holds i) found).part bound
    rw [content] at shown
    simpa only [Spot.cursor, Cursor.source, origin i] using shown

/-- Under strict rules no text is too long to become a string. -/
theorem Reads.small [Nonempty ι] {arena : ι → Arena}
    (fits : w.Fits arena) (strict : Strict ι) : g.text.size < 2 ^ 30 := by
  have lies := reads.lies
  unfold Lies at lies
  cases site : g.site with
  | host full start =>
    simp only [site] at lies
    exact Nat.lt_trans (lies.2.2 strict) (by decide)
  | kept height d =>
    simp only [site] at lies
    obtain ⟨a, age, text, rel, -, -, bound, -⟩ := lies
    have i := Classical.arbitrary ι
    have found := (fits.good i).at?_eq (fits.matched.content rel i)
    have inside := (shows_string (fits.holds i) found).inside
    have size := fits.size_le i
    simp only at inside
    omega

end World

/-- A part of a text. -/
def Ground.part (g : Ground) (x n : Nat) : Ground where
  text := g.text.extract x (x + n)
  site := match g.site with
    | .host full start => .host full (start + x)
    | .kept height skipped => .kept height (skipped + x)

/-- Cursors over a part of the text. -/
theorem World.Reads.part {w : World ι} {roots : ι → List Value} {g : Ground} {t : Spot}
    {k : ι → Cursor} (reads : w.Reads roots g t k) {x n : Nat} (bound : x + n ≤ g.text.size) :
    w.Reads roots (g.part x n) .start fun i => (k i).part x n := by
  have size : (g.text.extract x (x + n)).size = n := by
    simp only [ByteArray.size_extract]
    omega
  have lies := reads.lies
  refine ⟨fun i => ?_, ?_, Spot.inside_start _⟩
  · unfold Cursor.part Ground.part
    rw [size]
    cases (k i).origin with
    | host text start => rfl
    | arena start => rfl
  · unfold World.Lies at lies
    unfold World.Lies Ground.part
    rw [size]
    cases site : g.site with
    | host full start =>
      simp only [site] at lies ⊢
      obtain ⟨origin, shown, small⟩ := lies
      refine ⟨fun i => ?_, shown.part bound, fun strict => ?_⟩
      · simp only [Cursor.part, origin, Cursor.start]
      · have := small strict
        omega
    | kept height d =>
      simp only [site] at lies ⊢
      obtain ⟨a, age, text, rel, anchored, origin, inside, content⟩ := lies
      refine ⟨a, age, text, rel, anchored, fun i => ?_, by omega, ?_⟩
      · simp only [Cursor.part, origin i, Cursor.start, Nat.add_assoc]
      · rw [← content, ByteArray.extract_extract]
        congr 1
        omega

end ArenaScript.Lockstep
