import ArenaScript.Evaluate.Call
import ArenaScript.Proofs.Evaluate.DryRun
import ArenaScript.Proofs.Lockstep.Expressions

/-!
# Calls in step

Chains of accesses and calls on engines that agree.  While a function runs, its
text is kept by the function among the values held for later; the cursor of the
caller is set aside and comes back at the end.

Main results:

- `Alike.bindParameters`: parameters take on the values of the arguments.
- `Alike.callValue`: calls of functions and natives.
- `Alike.accessRest`: chains.
-/

namespace ArenaScript.Lockstep

open Engine Routine Grammar

variable {ι : Type} [Rules ι] {w : World ι} {s : Standing ι} {c : Current} {e : ι → Engine}

namespace Alike

variable {tag : Tag} {ts : List Tag} {caller : List Nat} {age : Nat} {text : ByteArray}

/-! ## Argument lists -/

variable (alike : Alike w s c e)
include alike

theorem legible (i : ι) : (e i).Legible := by
  have inside := alike.cursor.inside
  refine ⟨alike.isValid i, ?_, ?_, ?_⟩
  · rw [alike.pos i, alike.length i]
    exact inside.pos
  · rw [alike.tokenStart i, alike.tokenLength i, alike.length i]
    exact inside.token
  · rw [alike.number i]
    exact inside.number

/-- After an expression that failed in a dry run nothing is left to be read. -/
theorem isBare_of_failed [Nonempty ι] {w₁ : World ι} {c₁ : Current} {v : ι → Value}
    {e₁ : ι → Engine} (dry : c.mode.dry = true)
    (ends : ∀ i, (Routine.call .expression (e i)).Ends (v i, e₁ i)) (alike₁ : Alike w₁ s c₁ e₁)
    (related : w₁.Related tag v) (error : tag.isError = true) :
    (c₁.spot.advance s.ground.text).token.isBare = true := by
  have i := Classical.arbitrary ι
  have performs : Production.expression.Performs (e i) (v i, e₁ i) := by
    cases ends i with
    | waiting performs rest =>
      cases rest
      exact performs
  have settled := dry_run_settles (by rw [alike.mode i, dry]) (alike.legible i) performs
  obtain ⟨stop, bare⟩ := settled.blame ((related.isError i).trans error)
  simp only [alike₁.pos i, alike₁.length i, alike₁.lastToken i] at stop bare
  unfold Spot.advance
  split
  · have start := (Source.ofBytes s.ground.text).scan_start c₁.spot.pos
    have inside := (Source.ofBytes s.ground.text).scan_inside (Nat.le_of_eq stop)
    have up := (Source.ofBytes s.ground.text).le_skipBlanks c₁.spot.pos
    have length : (Source.ofBytes s.ground.text).length = s.ground.text.size := rfl
    rcases (Source.ofBytes s.ground.text).token_of_length_eq_zero (i := c₁.spot.pos) (by omega) with
      token | token <;> simp only [token] <;> rfl
  · exact bare

/-- The rest of an argument list that is passed over. -/
theorem argumentList [Nonempty ι] (afterComma : Bool) (dry : c.mode.dry = true) :
    Together LostNext (Goes w (.listing s c (.argumentList afterComma)))
      fun i => Routine.argumentList afterComma (e i) := by
  obtain ⟨e₁, token, alike₁⟩ := alike.token
  have next := c.spot.next_place s.ground.text
  have stop : Derives s.ground.text (.argumentList afterComma) (c.spot.place s.ground.text)
        ((c.spot.place s.ground.text).advance s.ground.text) →
      Together LostNext (Goes w (.listing s c (.argumentList afterComma)))
        fun i => .finished (.value .undefined, e₁ i) := fun derives => by
    refine .give alike₁ rfl (.refl w c) (World.related_undefined w)
      ⟨Tag.isPlain_undefined, fun _ => ⟨rfl, ?_⟩⟩
    rw [Spot.place_advance]
    exact derives
  simp only [Routine.argumentList, Routine.steps, token]
  by_cases eof : (c.spot.advance s.ground.text).token = .eof
  · simp only [eof, if_true]
    exact stop (.argumentsCut (next.trans eof))
  by_cases paren : (!afterComma && decide ((c.spot.advance s.ground.text).token = .rightParen)) =
    true
  · simp only [eof, paren, if_true, if_false]
    simp only [Bool.and_eq_true, Bool.not_eq_true', decide_eq_true_eq] at paren
    obtain ⟨rfl, paren⟩ := paren
    exact stop (.noArguments (next.trans paren))
  have opening : afterComma = true
      ∨ (c.spot.place s.ground.text).next s.ground.text ≠ .rightParen := by
    rw [next]
    cases afterComma with
    | true => exact .inl rfl
    | false => exact .inr (by simpa using paren)
  simp only [eof, paren, Routine.steps]
  have first : Together (fun _ => False) (Out w (.reading s _ .expression)) _ :=
    .call alike₁ .expression
  refine first.afterEnd (fun w₂ c₂ tag v e₂ alike₂ since₂ related given ends => ?_)
    fun _ _ lost => lost.elim
  obtain ⟨e₃, token, alike₃⟩ := alike₂.token
  have next₂ := c₂.spot.next_place s.ground.text
  simp only [token, Routine.steps]
  -- a token follows only if the argument has been read
  have value : (c₂.spot.advance s.ground.text).token.isBare = false →
      c₂.mode = c.mode ∧ Derives s.ground.text .expression
        ((c.spot.place s.ground.text).advance s.ground.text) (c₂.spot.place s.ground.text) := by
    intro full
    rw [← Spot.place_advance]
    refine given.2 (Bool.eq_false_iff.mpr fun error => ?_)
    rw [alike₁.isBare_of_failed dry ends alike₂ related error] at full
    cases full
  by_cases paren : (c₂.spot.advance s.ground.text).token = .rightParen
  · obtain ⟨mode, value⟩ := value (by rw [paren]; rfl)
    simp only [paren, if_true]
    refine .give alike₃ rfl since₂ (World.related_undefined w₂)
      ⟨Tag.isPlain_undefined, fun _ => ⟨mode, ?_⟩⟩
    rw [Spot.place_advance]
    exact .lastArgument (next ▸ eof) value opening (next₂.trans paren)
  obtain ⟨comma, u, e₄, expect, alike₄, found⟩ := alike₃.expectAt .comma
  simp only [paren, expect, Routine.steps]
  cases comma with
  | false => exact alike₄.failing (.next _ _) .malformed rfl since₂
  | true =>
    obtain ⟨comma, rfl⟩ := found rfl
    simp only [Spot.advance_of_seen (Spot.consumed_advance _ _)] at comma alike₄
    obtain ⟨mode, value⟩ := value (by rw [comma]; rfl)
    refine .goOn (.argumentList true (by rw [mode]; exact dry)) alike₄ (fun _ same => same) since₂
      fun _ _ given => given.mono id fun _ rest => ⟨rest.1.trans mode, ?_⟩
    have rest := rest.2
    rw [← Spot.pass_place] at rest
    exact .argument (next ▸ eof) value opening (next₂.trans comma) rest

/-- How an argument list ends that was passed over: all that is related stays
related. -/
def Spanned (w₀ : World ι) (s : Standing ι) (c₀ : Current) (r : ι → Value × Engine) : Prop :=
  ∃ (w : World ι) (c : Current) (tag : Tag) (v : ι → Value) (e : ι → Engine),
    (∀ i, r i = (v i, e i)) ∧ w₀.Le w ∧ Alike w s c e ∧ c.mode = c₀.mode ∧ w.Related tag v
      ∧ Given (Tag.Names s.ground.text.size)
        (Read s.ground.text c₀.mode .arguments (c₀.spot.place s.ground.text)) c tag

/-- An argument list is only read, whatever the mode is. -/
theorem argumentSpan : Together LostValue (Spanned w s c) fun i => Routine.argumentSpan (e i) := by
  obtain ⟨e₁, dried, alike₁⟩ := alike.goDry
  obtain ⟨e₂, use, alike₂⟩ := alike₁.use
  simp only [Routine.argumentSpan, Routine.steps, dried, use, alike.pos, alike.mode]
  refine .afterCall (.argumentList false rfl) alike₂
    fun w₃ c₃ tag v e₃ alike₃ since₃ related given => ?_
  have le : w.Le w₃ := (since₃ rfl).1
  obtain ⟨e₄, restored, alike₄⟩ := alike₃.restoreMode c.mode alike.free
  simp only [restored, Routine.steps, related.isError]
  by_cases error : tag.isError = true
  · simp only [error, if_true]
    exact .finished _ (fun _ => rfl) ⟨w₃, _, tag, v, e₄, fun _ => rfl, le, alike₄, rfl, related,
      .failed (Tag.names_of_isError _ tag error) error⟩
  obtain ⟨-, list⟩ := given.2 (Bool.eq_false_iff.mpr error)
  obtain ⟨paren, u, e₅, expect, alike₅, found⟩ := alike₄.expectAt .rightParen
  simp only [error, expect, Routine.steps]
  cases paren with
  | false =>
    obtain ⟨e₆, failed, alike₆⟩ := alike₅.fail .malformed
    simp only [Engine.malformed, failed, Routine.steps]
    have error := isError_failureOf { c₃ with mode := c.mode, spot := u } .malformed
    exact .finished _ (fun _ => rfl) ⟨w₃, _, _, _, e₆, fun _ => rfl, le, alike₆, rfl,
      related_failureOf _ _ _, .failed (Tag.names_of_isError _ _ error) error⟩
  | true =>
    obtain ⟨closing, here⟩ := found rfl
    simp only [Routine.steps, alike₅.pos, alike₅.tokenLength]
    have bare : (Value.span (UInt32.ofNat c.spot.pos)
        (UInt32.ofNat (u.pos - c.spot.pos - u.tokenLength))).isEntity = false := by
      rw [Value.isEntity, Value.span, Value.kind_box]
      rfl
    refine .finished _ (fun _ => rfl) ⟨w₃, _, _, _, e₅, fun _ => rfl, le, alike₅, rfl,
      World.related_other w₃ bare, .inr ⟨_, rfl, ?_⟩, fun _ => ⟨rfl, ?_⟩⟩
    · have start := Value.spanStart_span_le c.spot.pos
        (UInt32.ofNat (u.pos - c.spot.pos - u.tokenLength))
      have length := Value.spanLength_span_le (UInt32.ofNat c.spot.pos)
        (u.pos - c.spot.pos - u.tokenLength)
      have first := alike.cursor.inside.pos
      have last : u.pos ≤ s.ground.text.size := alike₅.cursor.inside.pos
      omega
    · simp only [here]
      rw [← Spot.pass_place]
      exact .arguments list ((Spot.next_place _ _).trans closing)

/-! ## Arguments of functions -/

/-- Blanks between arguments are passed over. -/
theorem skipArgumentBlanks :
    ∃ (u : Spot) (e' : ι → Engine), (∀ i, Routine.skipArgumentBlanks (e i) = .ok ((), e' i))
      ∧ Alike w s { c with spot := u } e' := by
  have skipped := fun i => (alike.shows i).skipBlanks c.spot.pos
  have bound : (Source.ofBytes s.ground.text).skipBlanks c.spot.pos ≤ s.ground.text.size :=
    Source.skipBlanks_le _ alike.cursor.inside.pos
  refine ⟨_, _, fun i => ?_, alike.moveTo bound⟩
  simp only [Routine.skipArgumentBlanks, Action.runs, alike.source, Engine.changeCursor,
    alike.pos, skipped]

/-- So is the comma after an argument. -/
theorem skipArgumentComma :
    ∃ (u : Spot) (e' : ι → Engine), (∀ i, Routine.skipArgumentComma (e i) = .ok ((), e' i))
      ∧ Alike w s { c with spot := u } e' := by
  obtain ⟨u, e₁, skipped, alike₁⟩ := alike.skipArgumentBlanks
  have held := fun i => ((alike₁.shows i).same).holds u.pos ','
  by_cases comma : (Source.ofBytes s.ground.text).holds u.pos ',' = true
  · refine ⟨_, _, fun i => ?_, alike₁.moveTo (Source.lt_of_holds comma)⟩
    simp only [Routine.skipArgumentComma, Action.runs, skipped, alike₁.source,
      Engine.changeCursor, alike₁.pos, held, comma, if_true]
  · refine ⟨u, e₁, fun i => ?_, alike₁⟩
    simp only [Routine.skipArgumentComma, Action.runs, skipped, alike₁.source,
      Engine.changeCursor, alike₁.pos, held, comma, Bool.false_eq_true, if_false]

/-- The next argument, evaluated in the scope of the caller. -/
theorem nextArgument (roots : s.roots = .object s.registers.scope :: tag :: .object caller :: ts) :
    Together LostValue (Out w (.anywhere s)) fun i => Routine.nextArgument (e i) := by
  obtain ⟨u, e₁, skipped, alike₁⟩ := alike.skipArgumentBlanks
  obtain ⟨e₂, used, alike₂⟩ := alike₁.use
  have used : ∀ i, Engine.changeCursor Cursor.use (e₁ i) = .ok ((), e₂ i) := used
  simp only [Routine.nextArgument, Routine.steps, skipped, used, alike₂.length, alike₂.pos]
  by_cases isOver : s.ground.text.size ≤ u.use.pos
  · simp only [isOver, if_true]
    exact .done alike₂ rfl (.never _ _ _) (World.related_undefined w)
      ⟨Tag.isPlain_undefined, fun _ => trivial⟩
  obtain ⟨outer, held₂, rc⟩ :=
    alike₂.heldAt (show s.roots[2]? = some (.object caller) by rw [roots]; rfl)
  simp only [isOver, held₂, Routine.steps]
  have alike₃ := alike₂.withScope (World.Refers.offset rc)
  refine .afterCall .expression alike₃ fun w₄ c₄ t v e₄ alike₄ since₄ rv given => ?_
  obtain ⟨t', r, resolved, rr, plain, -⟩ := alike₄.resolve rv
  obtain ⟨callee, held₀, ro⟩ :=
    alike₄.heldAt (show s.roots[0]? = some (.object s.registers.scope) by rw [roots]; rfl)
  simp only [resolved, held₀, Routine.steps]
  exact .done (alike₄.withScope (World.Refers.offset ro)) rfl (.never _ _ _) rr
    ⟨plain given.1, fun _ => trivial⟩

/-! ## Bodies of functions -/

/-- The text of the function that is being called is the same for all. -/
theorem calleeText {callee : List Nat}
    (roots : s.roots = .object callee :: tag :: .object caller :: .function age text :: ts) :
    ∃ a : ι → UInt32, w.rel (.string age text) a ∧ (∀ i, Anchors (e i).roots ts.length (a i))
      ∧ (∀ i, Source.Shows ⟨(e i).arena.bytes, (a i).toNat + 4, text.size⟩ text)
      ∧ ∀ i, Routine.calleeText (e i)
        = .ok (⟨(e i).arena.bytes, (a i).toNat + 4, text.size⟩, e i) := by
  have held := alike.roots
  rw [roots] at held
  obtain ⟨v₀, r₀, eq₀, -, v₁, r₁, eq₁, -, v₂, r₂, eq₂, -, f, lower, eq₃, ⟨⟨a, rel, refers⟩, -⟩,
    rest⟩ :=
    held
  have whole : ∀ i, (e i).roots = v₀ i :: v₁ i :: v₂ i :: .ref .function (a i) :: lower i :=
    fun i => by rw [← refers i, ← eq₃ i, ← eq₂ i, ← eq₁ i]; exact eq₀ i
  have found := fun i => (alike.fits.good i).at?_eq (alike.fits.matched.content rel i)
  have shown := fun i => World.shows_string (alike.fits.holds i) (found i)
  refine ⟨a, rel, fun i => ⟨[v₀ i, v₁ i, v₂ i], lower i, whole i, rest.length_eq i⟩, shown,
    fun i => ?_⟩
  have length := alike.fits.stringLength rel i
  have size : (UInt32.ofNat text.size).toNat = text.size := by
    obtain ⟨n, -, same⟩ := (alike.fits.holds i).stringLength_eq (found i)
    rw [← same, UInt32.ofNat_toNat]
  -- an offset inside the arena does not wrap
  have start : (a i + 4).toNat = (a i).toNat + 4 := by
    have bound := Heap.at?_le_extent (found i)
    have small := (alike.fits.holds i).extent_lt
    exact toNat_add_of_lt (by rw [show (4 : UInt32).toNat = 4 from rfl]; omega)
  have inside : (a i).toNat + 4 + text.size ≤ (e i).arena.bytes.size := (shown i).inside
  simp only [Routine.calleeText, Engine.held, whole, bind, StateT.bind, Except.bind, readArena,
    List.getElem?_cons_succ, List.getElem?_cons_zero, Value.offset_ref, length, get, getThe,
    MonadStateOf.get, StateT.get, pure, Except.pure, size, start, inside, if_true]
  rfl

/-- The body of a function, which starts at a position of its text. -/
theorem runBody [Nonempty ι] {a : ι → UInt32}
    (rel : w.rel (.string age text) a) (anchored : ∀ i, Anchors (e i).roots ts.length (a i))
    (pos : Nat) (starts : Strict ι → pos < text.size) (spares : s.Spares s.registers.scope) :
    Together LostNext (Goes w (.called s))
      fun i => Routine.runBody ((a i).toNat + 4) pos text.size (e i) := by
  simp only [Routine.runBody, Routine.steps]
  by_cases isOver : text.size ≤ pos
  · simp only [isOver, if_true]
    refine .halted (fun strict => ?_) (Classical.arbitrary ι) .fault rfl
    have := starts strict
    omega
  simp only [isOver, if_false]
  have size : (text.extract pos (pos + (text.size - pos - 1))).size = text.size - pos - 1 := by
    rw [ByteArray.size_extract]
    omega
  let g : Ground := ⟨text.extract pos (pos + (text.size - pos - 1)), .kept ts.length pos⟩
  have reads : w.Reads (fun i => (e i).roots) g .start
      fun i => Cursor.start (.arena ((a i).toNat + 4 + pos)) (text.size - pos - 1) := by
    refine ⟨fun i => ?_, ⟨a, age, text, rel, anchored, fun _ => rfl, ?_, ?_⟩, Spot.inside_start _⟩
    · rw [size]
      rfl
    · rw [size]
      omega
    · rw [size]
  have alike₁ := ((alike.read reads).withResult none (World.related_undefined w)
    Tag.isPlain_undefined nofun fun _ => rfl).withMode { inCall := true } fun _ => rfl
  refine .checked (.next _ _)
    (.call alike₁ (.script (World.related_undefined w) Tag.isPlain_undefined fun _ => .inr spares))
    ⟨g, none, rfl⟩ False.elim ?_
  intro w₂ c₂ tag v e₂ alike₂ _ _ _ _ _
  obtain ⟨tag', related, plain, -⟩ := alike₂.result
  simp only [alike₂.mode]
  by_cases returned : c₂.mode.returned = true
  · simp only [returned, if_true]
    exact .give alike₂ ⟨g, none, rfl⟩ (.never _ _ _) related plain
  · simp only [returned, Bool.false_eq_true, if_false]
    exact .give alike₂ ⟨g, none, rfl⟩ (.never _ _ _) (World.related_undefined w₂)
      Tag.isPlain_undefined

/-- The end of a parameter list is passed over. -/
theorem enterBody [Nonempty ι] {callee : List Nat}
    (roots : s.roots = .object callee :: tag :: .object caller :: .function age text :: ts)
    (pos : Nat) (starts : Strict ι → (Source.ofBytes text).bodyStart pos < text.size)
    (spares : s.Spares s.registers.scope) :
    Together LostNext (Goes w (.called s)) fun i => Routine.enterBody pos text.size (e i) := by
  obtain ⟨a, rel, anchored, shown, callee⟩ := alike.calleeText roots
  have holds := fun i n char => ((shown i).same).holds n char
  have skips := fun i n => (shown i).skipBlanks n
  simp only [Routine.enterBody, Routine.steps, callee, holds, skips]
  exact alike.runBody rel anchored _ starts spares

/-- The parameters take on the values of the arguments, then the body runs. -/
theorem bindParameters [Nonempty ι] (pos : Nat)
    (roots : s.roots = .object s.registers.scope :: tag :: .object caller :: .function age text ::
      ts)
    (leads : Strict ι → (Source.ofBytes text).LeadsToBody pos)
    (spares : s.Spares s.registers.scope) :
    Together LostNext (Goes w (.called s)) fun i => Routine.bindParameters pos text.size (e i) := by
  obtain ⟨a, rel, anchored, shown, callee⟩ := alike.calleeText roots
  simp only [Routine.bindParameters, Routine.steps, callee]
  by_cases isOver : text.size ≤ pos
  · simp only [isOver, if_true]
    exact alike.enterBody roots pos
      (fun strict => absurd (leads strict).lt (Nat.not_lt.mpr isOver)) spares
  have holds := fun i n char => ((shown i).same).holds n char
  have skips := fun i n => (shown i).skipBlanks n
  have names := fun i n => (shown i).scanName n
  simp only [isOver, if_false, holds, skips, names]
  have start : (Source.ofBytes text).skipBlanks pos ≤ text.size :=
    Source.skipBlanks_le _ (Nat.le_of_lt (Nat.lt_of_not_le isOver))
  have stop :
      ((Source.ofBytes text).scanName ((Source.ofBytes text).skipBlanks pos)).2 ≤ text.size :=
    (Source.stops_length _).scanName_le start
  have step := fun strict => (leads strict).step
  generalize (Source.ofBytes text).skipBlanks pos = first at start stop step
  generalize (Source.ofBytes text).scanName first = name at stop step
  by_cases last : ((Source.ofBytes text).holds first ')' || decide (name.1 ≠ .ident)) = true
  · simp only [last, if_true]
    refine alike.enterBody roots first (fun strict => ?_) spares
    rcases step strict with ⟨-, inside⟩ | ⟨free, ident, -⟩
    · exact inside
    · simp [free, ident] at last
  simp only [last, Routine.steps]
  refine .checked (.next _ _) (alike.nextArgument roots) ⟨s.ground, s.registers.result, rfl⟩
    False.elim ?_
  intro w₁ c₁ t v e₁ alike₁ _ _ rv given₁ _
  obtain ⟨a₁, -, -, shown₁, callee₁⟩ := alike₁.calleeText roots
  have slices := fun i => (shown₁ i).slice (i := first) (n := name.2 - first) (by omega)
  simp only [callee₁, slices, Routine.steps]
  have short : Strict ι → (text.extract first (first + (name.2 - first))).size + 8 < 2 ^ 32 := by
    have small := alike.string_small rel
    rw [ByteArray.size_extract]
    omega
  refine .checkedThen (.next _ _) (alike₁.newString _ short) ⟨s.ground, s.registers.result, rfl⟩
    (.never w w₁ c₁) ?_
  intro w₂ c₂ t' key e₂ le alike₂ _ since₂ rk given sane
  obtain rfl := given.resolve_right (Bool.eq_false_iff.mp sane)
  obtain ⟨target, held, ro⟩ :=
    alike₂.heldAt (show s.roots[0]? = some (.object s.registers.scope) by rw [roots]; rfl)
  simp only [held, Routine.steps]
  obtain ⟨names, placed⟩ :=
    alike₂.newProperty (World.Refers.offset ro) spares rk (rv.mono le) given₁.1
  refine .checkedThen (.next _ _) placed ⟨s.ground, s.registers.result, rfl⟩ since₂ ?_
  intro w₃ c₃ _ _ e₃ _ alike₃ _ since₃ _ _ _
  obtain ⟨u, e₄, skipped, alike₄⟩ := alike₃.skipArgumentComma
  obtain ⟨a₄, -, -, shown₄, callee₄⟩ := alike₄.calleeText roots
  have holds₄ := fun i n char => ((shown₄ i).same).holds n char
  have skips₄ := fun i n => (shown₄ i).skipBlanks n
  simp only [skipped, callee₄, holds₄, skips₄, Routine.steps]
  refine .goOn (.bindParameters _ roots (fun strict => ?_) spares) alike₄ (fun _ same => same)
    False.elim fun _ _ given => given
  rcases step strict with ⟨paren, -⟩ | ⟨-, -, rest⟩
  · simp [paren] at last
  · exact rest

end Alike

end ArenaScript.Lockstep

/-! ## Entering and leaving calls -/

namespace ArenaScript.Routine

open Engine

/-- The start of a call: the cursor and the pinned entity of the caller are kept
and the arguments come next. -/
def enterCall (arguments : Value) : Action Unit := do
  suspend
  hold (pinnedValue (← get))
  changeCursor (·.part arguments.spanStart.toNat arguments.spanLength.toNat)
  skipArgumentBlanks
  modify fun e => { e with depth := e.depth + 1 }

/-- The end of the call of a function: the scope and the result of the caller
come back. -/
def leaveFunction (v : Value) : Action Value := do
  let result ← unhold
  let caller ← unhold
  let _ ← unhold
  modify fun e => { e with scope := caller.offset, result := result }
  return v

/-- The end of a call: the cursor, the mode and the pinned entity of the caller
come back. -/
def leaveCall (mode : Mode) (v : Value) : Action Value := do
  modify fun e => { e with depth := e.depth - 1 }
  let pinned ← unhold
  modify fun e => { e with pinned := if pinned.kind = .string then pinned.offset else 0 }
  resume
  restoreMode mode
  changeCursor fun c => if v.isError then c.finish else c.use
  return v

/-- A call by its start, its middle and its end. -/
theorem callValue_eq {f a : Value} (e : Engine) (span : a.kind = .span)
    (callable : f.kind = .function ∨ f.kind = .native) :
    callValue f a e = (Progress.ofExcept (enterCall a e)).bind fun r =>
      (if f.kind = .function then callFunction f { r.2 with pinned := f.offset }
        else callNative f r.2).bind fun v => .ofExcept (leaveCall e.mode v.1 v.2) := by
  have callable : ¬ (f.kind ≠ .function ∧ f.kind ≠ .native) := by
    rw [not_and_or, not_not, not_not]
    exact callable
  simp only [callValue, enterCall, leaveCall, Routine.steps, Action.steps, span, callable, ne_eq,
    not_true_eq_false, if_false]
  by_cases function : f.kind = .function
  · simp only [function, if_true]
  · simp only [function, if_false]

/-- A call of a function by its start, its middle and its end. -/
theorem callFunction_eq (f : Value) (e : Engine) :
    callFunction f e = (Progress.ofExcept (Engine.enterScope
        { e with roots := e.result :: .ref .object e.scope :: f :: e.roots })).bind fun r =>
      if r.1.isError = true then .ofExcept (leaveFunction r.1 r.2)
      else (Progress.ofExcept (readArena (·.stringLength f.offset)
          { r.2 with roots := r.1 :: r.2.roots })).bind fun n =>
        (call (.bindParameters 1 n.1.toNat) n.2).bind fun v =>
          (Progress.ofExcept (unhold v.2)).bind fun u => .ofExcept (leaveFunction v.1 u.2) := by
  simp only [callFunction, leaveFunction, Routine.steps, Action.steps]
  rfl

theorem leaveFunction_apply {e : Engine} {result caller f : Value} {roots : List Value}
    (eq : e.roots = result :: caller :: f :: roots) (v : Value) :
    leaveFunction v e
      = .ok (v, { e with roots := roots, scope := caller.offset, result := result }) := by
  simp only [leaveFunction, bind, StateT.bind, Except.bind, unhold, eq]
  rfl

theorem leaveCall_apply {e : Engine} {pinned : Value} {roots : List Value} {k : Cursor}
    {ks : List Cursor} (eq : e.roots = pinned :: roots) (eq' : e.suspended = k :: ks) (mode : Mode)
    (v : Value) :
    leaveCall mode v e = .ok (v, { e with
      depth := e.depth - 1
      roots := roots
      pinned := if pinned.kind = .string then pinned.offset else 0
      suspended := ks
      mode := mode
      cursor := if v.isError then k.finish else k.use }) := by
  simp only [leaveCall, Action.runs, unhold, eq, resume, eq']
  rfl

/-- The end of a call does not fail: it gives the value or halts. -/
theorem leaveFunction_cases (v : Value) (e : Engine) :
    (∃ h, leaveFunction v e = .error h) ∨
      ∃ e', leaveFunction v e = .ok (v, e') ∧ e'.log = e.log := by
  rcases eq : e.roots with _ | ⟨result, _ | ⟨caller, _ | ⟨f, roots⟩⟩⟩
  case cons.cons.cons => exact .inr ⟨_, leaveFunction_apply eq v, rfl⟩
  all_goals
    left
    refine ⟨.fault, ?_⟩
    simp only [leaveFunction, Action.runs, unhold, eq]

theorem leaveCall_cases (mode : Mode) (v : Value) (e : Engine) :
    (∃ h, leaveCall mode v e = .error h) ∨
      ∃ e', leaveCall mode v e = .ok (v, e') ∧ e'.log = e.log := by
  rcases eq : e.roots with _ | ⟨pinned, roots⟩
  · left
    refine ⟨.fault, ?_⟩
    simp only [leaveCall, Action.runs, unhold, eq]
  · rcases eq' : e.suspended with _ | ⟨k, ks⟩
    · left
      refine ⟨.fault, ?_⟩
      simp only [leaveCall, Action.runs, unhold, eq, resume, eq']
    · exact .inr ⟨_, leaveCall_apply eq eq' mode v, rfl⟩

end ArenaScript.Routine

namespace ArenaScript.Lockstep

open Engine Routine

variable {ι : Type} [Rules ι] {w : World ι} {s : Standing ι} {c : Current} {e : ι → Engine}

omit [Rules ι] in
theorem Standing.Grounded.mono {n m : Nat} (grounded : s.Grounded n) (le : n ≤ m) :
    s.Grounded m :=
  ⟨fun height anchor => Nat.lt_of_lt_of_le (grounded.1 height anchor) le,
    fun f mem height anchor => Nat.lt_of_lt_of_le (grounded.2 f mem height anchor) le⟩

/-- A lost call ends lost or halts. -/
theorem loses_leaveCall (mode : Mode) {r : Value × Engine} (lost : LostValue r) :
    Loses LostValue (.ofExcept (Routine.leaveCall mode r.1 r.2)) := by
  obtain ⟨error, full⟩ := lost
  rcases leaveCall_cases mode r.1 r.2 with ⟨h, eq⟩ | ⟨e', eq, log⟩
  · exact .inl ⟨h, by rw [eq]; rfl⟩
  · exact .inr ⟨(r.1, e'), by rw [eq]; rfl, error, log ▸ full⟩

theorem loses_leaveFunction (mode : Mode) {r : Value × Engine} (lost : LostValue r) :
    Loses LostValue ((Progress.ofExcept (Routine.leaveFunction r.1 r.2)).bind
      fun q => .ofExcept (Routine.leaveCall mode q.1 q.2)) := by
  obtain ⟨error, full⟩ := lost
  rcases leaveFunction_cases r.1 r.2 with ⟨h, eq⟩ | ⟨e', eq, log⟩
  · exact .inl ⟨h, by rw [eq]; rfl⟩
  · simp only [eq, Routine.steps]
    exact loses_leaveCall mode (r := (r.1, e')) ⟨error, log ▸ full⟩

/-- What a call keeps for its end: the cursor of the caller and values held for
later. -/
def Standing.inCall (s : Standing ι) (g : Ground) (t : Spot) (kept : List Tag) (r : Registers) :
    Standing ι :=
  { s with
    registers := r
    ground := g
    roots := kept ++ s.roots
    suspended := (s.ground, t) :: s.suspended
    depth := s.depth + 1 }

/-- The pinned entity as a value held for later. -/
def Registers.pinnedTag (r : Registers) : Tag :=
  match r.pinned with
  | none => .other .undefined
  | some (age, text) => .string age text

/-- Calls end in the mode of the caller, behind the arguments. -/
abbrev Role.back (s : Standing ι) (mode : Mode) (t : Spot) : Role ι :=
  active s fun c => c.mode = mode ∧ c.spot = t.use

namespace Alike

variable {tag : Tag} {g : Ground} {t : Spot} {pinned : Option (Nat × ByteArray)} {w₀ : World ι}

/-- The text of the caller can be read again during a call. -/
theorem outOfCall {kept : List Tag} {r : Registers} (alike : Alike w (s.inCall g t kept r) c e) :
    ∃ (k : ι → Cursor) (ks : ι → List Cursor), (∀ i, (e i).suspended = k i :: ks i)
      ∧ Alike w { s with registers := r, roots := kept ++ s.roots } { c with spot := t } fun i =>
        { e i with cursor := k i, suspended := ks i, depth := s.depth } := by
  have back : Alike w { s with
      registers := r
      ground := g
      roots := kept ++ s.roots
      suspended := (s.ground, t) :: s.suspended } c
      fun i => { e i with depth := s.depth } := alike.withDepth s.depth
  obtain ⟨k, ks, eq, alike'⟩ := Alike.resume (s := { s with
    registers := r, ground := g, roots := kept ++ s.roots }) back
  exact ⟨k, ks, eq, alike'⟩

/-- The pinned entity, the mode and the place of the caller come back. -/
theorem comeBack {tag : Tag} {p v : ι → Value}
    (alike : Alike w { s with registers := { s.registers with pinned := pinned } } c e)
    (rp : w.Related s.registers.pinnedTag p) {mode : Mode}
    (free : mode.inCall = true → s.registers.result = none) (related : w.Related tag v)
    (plain : tag.IsPlain) :
    Together LostValue (Out w₀ (.back s mode c.spot)) fun i => .finished (v i, { e i with
      pinned := if (p i).kind = .string then (p i).offset else 0
      mode := mode
      cursor := if tag.isError = true then (e i).cursor.finish else (e i).cursor.use }) := by
  have back : w.Pins s.registers.pinned
      fun i => if (p i).kind = .string then (p i).offset else 0 := by
    simp only [rp.kind]
    cases known : s.registers.pinned with
    | none =>
      have tag : s.registers.pinnedTag = .other .undefined := by rw [Registers.pinnedTag, known]
      rw [tag]
      exact fun _ => if_neg (by decide)
    | some string =>
      have tag : s.registers.pinnedTag = .string string.1 string.2 := by
        rw [Registers.pinnedTag, known]
      rw [tag] at rp ⊢
      exact World.Refers.offset rp
  have alike' : Alike w s { c with mode := mode } fun i => { e i with
      pinned := if (p i).kind = .string then (p i).offset else 0
      mode := mode } := (alike.withMode mode free).withPinned back
  by_cases error : tag.isError = true
  · simp only [error, if_true]
    exact .done (alike'.changeCursor Cursor.finish alike'.cursor.inside.finish fun _ => rfl) rfl
      (.never _ _ _) related (Role.fails _ _ _ error)
  · simp only [error, Bool.false_eq_true, if_false]
    exact .done (alike'.changeCursor Cursor.use alike'.cursor.inside.use fun _ => rfl) rfl
      (.never _ _ _) related ⟨plain, fun _ => ⟨rfl, rfl⟩⟩

/-- The end of a call. -/
theorem leaveCall {g : Ground} {t : Spot} {tag : Tag} {v : ι → Value} (alike : Alike w
      (s.inCall g t [s.registers.pinnedTag] { s.registers with pinned := pinned }) c e)
    (grounded : s.Grounded s.roots.length) {mode : Mode}
    (free : mode.inCall = true → s.registers.result = none) (related : w.Related tag v)
    (plain : tag.IsPlain) :
    Together LostValue (Out w₀ (.back s mode t))
      fun i => .ofExcept (Routine.leaveCall mode (v i) (e i)) := by
  obtain ⟨k, ks, suspended, alike₁⟩ := alike.outOfCall
  obtain ⟨p, roots, eq, rp, alike₂⟩ := Alike.unhold
    (s := { s with registers := { s.registers with pinned := pinned } }) alike₁ grounded
  have eq : ∀ i, (e i).roots = p i :: roots i := eq
  have depth : ∀ i, (e i).depth = s.depth + 1 := alike.depth
  simp only [leaveCall_apply (eq _) (suspended _), depth, Nat.add_sub_cancel, related.isError,
    Routine.steps]
  exact alike₂.comeBack rp free related plain

/-- The end of the call of a function. -/
theorem leaveFunction {result : Tag} {age : Nat} {text : ByteArray} {r : Registers} {v : ι → Value}
    (alike : Alike w (s.inCall g t
      [result, .object s.registers.scope, .function age text, s.registers.pinnedTag] r) c e)
    (grounded : s.Grounded s.roots.length) (plain' : result.IsPlain)
    (same : ∀ known, s.registers.result = some known → result = known) {mode : Mode}
    (free : mode.inCall = true → s.registers.result = none) (related : w.Related tag v)
    (plain : tag.IsPlain) :
    Together LostValue (Out w₀ (.back s mode t))
      fun i => (Progress.ofExcept (Routine.leaveFunction (v i) (e i))).bind
        fun q => .ofExcept (Routine.leaveCall mode q.1 q.2) := by
  obtain ⟨k, ks, suspended, alike₁⟩ := alike.outOfCall
  have higher : ∀ ts : List Tag,
      Standing.Grounded { s with registers := r } (ts ++ s.roots).length :=
    fun ts => Standing.Grounded.mono (n := s.roots.length) grounded
      (by rw [List.length_append]; omega)
  -- the text of the caller does not depend on what the call holds
  obtain ⟨v₁, roots₁, eq₁, rr, alike₂⟩ := alike₁.unhold
    (higher [.object s.registers.scope, .function age text, s.registers.pinnedTag])
  obtain ⟨o, roots₂, eq₂, ro, alike₃⟩ := alike₂.unhold
    (higher [.function age text, s.registers.pinnedTag])
  obtain ⟨f, roots₃, eq₃, -, alike₄⟩ := alike₃.unhold (higher [s.registers.pinnedTag])
  obtain ⟨p, roots₄, eq₄, rp, alike₅⟩ := alike₄.unhold (higher [])
  have eq₁ : ∀ i, (e i).roots = v₁ i :: roots₁ i := eq₁
  have eq₂ : ∀ i, roots₁ i = o i :: roots₂ i := eq₂
  have eq₃ : ∀ i, roots₂ i = f i :: roots₃ i := eq₃
  have eq₄ : ∀ i, roots₃ i = p i :: roots₄ i := eq₄
  have eq : ∀ i, (e i).roots = v₁ i :: o i :: f i :: roots₃ i :=
    fun i => by rw [eq₁ i, eq₂ i, eq₃ i]
  have depth : ∀ i, (e i).depth = s.depth + 1 := alike.depth
  have left := fun i => leaveCall_apply
    (e := { e i with roots := roots₃ i, scope := (o i).offset, result := v₁ i })
    (eq₄ i) (suspended i) mode (v i)
  simp only [leaveFunction_apply (eq _), left, Routine.steps]
  simp only [depth, Nat.add_sub_cancel, related.isError]
  have alike₆ := ((alike₅.freeResult.withMode mode fun _ => rfl).withScope
    (World.Refers.offset ro)).withResult s.registers.result rr plain' same free
  exact alike₆.comeBack rp free related plain

/-- The start of a call. -/
theorem enterCall (alike : Alike w s c e) {x : Value}
    (inside : x.spanStart.toNat + x.spanLength.toNat ≤ s.ground.text.size) :
    ∃ (g : Ground) (u : Spot) (e' : ι → Engine),
      (∀ i, Routine.enterCall x (e i) = .ok ((), e' i))
        ∧ Alike w (s.inCall g c.spot [s.registers.pinnedTag] s.registers)
          { c with spot := u } e' := by
  -- the pinned entity as a value
  have pinned : w.Related s.registers.pinnedTag fun i => pinnedValue (e i) := by
    have pins := alike.pinned
    unfold Registers.pinnedTag
    cases known : s.registers.pinned with
    | none =>
      rw [known] at pins
      have none : ∀ i, (e i).pinned = 0 := pins
      simpa only [pinnedValue, none, if_true] using World.related_undefined w
    | some string =>
      rw [known] at pins
      refine ⟨_, pins, fun i => ?_⟩
      exact if_neg (alike.fits.matched.ne_zero pins nofun i)
  have alike₁ := alike.suspend.hold pinned
  have alike₂ := alike₁.read (alike₁.cursor.part inside)
  obtain ⟨u, e', skipped, alike₃⟩ := alike₂.skipArgumentBlanks
  refine ⟨_, u, _, fun i => ?_, alike₃.withDepth (s.depth + 1)⟩
  have same : pinnedValue { e i with suspended := (e i).cursor :: (e i).suspended }
      = pinnedValue (e i) := rfl
  have depth : (e' i).depth = s.depth := alike₃.depth i
  simp only [Routine.enterCall, Action.runs, Engine.suspend, Engine.hold, Engine.changeCursor,
    same, skipped, depth]

/-- A call of a function, up to the end of the call. -/
theorem callFunction [Nonempty ι] {g : Ground} {t : Spot} {age : Nat} {text : ByteArray}
    {f : ι → Value}
    (alike : Alike w
      (s.inCall g t [s.registers.pinnedTag] { s.registers with pinned := pinned }) c e)
    (grounded : s.Grounded s.roots.length) {mode : Mode}
    (free : mode.inCall = true → s.registers.result = none)
    (function : w.Related (.function age text) f) :
    Together LostValue (Out w₀ (.back s mode t))
      fun i => (Routine.callFunction (f i) (e i)).bind
        fun v => .ofExcept (Routine.leaveCall mode v.1 v.2) := by
  obtain ⟨result, related, plain, same⟩ := alike.result
  have scope : w.Related (.object s.registers.scope) fun i => .ref .object (e i).scope :=
    ⟨_, alike.scope, fun _ => rfl⟩
  have alike₁ := ((alike.hold function).hold scope).hold related
  simp only [callFunction_eq, Routine.steps]
  refine alike₁.enterScope.bind (fun r entered => ?_) fun i r lost => ?_
  · obtain ⟨w₂, c₂, tag, v, e₂, eq, le, -, rv, outcome⟩ := entered
    obtain rfl : r = fun i => (v i, e₂ i) := funext eq
    simp only [rv.isError]
    rcases outcome with ⟨error, alike₂⟩ | ⟨scopeAge, rfl, alike₂, spares⟩
    · simp only [error, if_true]
      exact alike₂.leaveFunction grounded plain same free rv (Tag.isPlain_of_isError error)
    have sane : (Tag.object (scopeAge :: s.registers.scope)).isError = false := rfl
    have alike₃ := alike₂.hold rv
    have short := alike.fits.text_lt (World.Refers.offset function.1)
    have size : (UInt32.ofNat text.size).toNat = text.size :=
      UInt32.toNat_ofNat_of_lt' (by simp only [UInt32.size]; omega)
    have length := alike₃.stringLength (World.Refers.offset (function.mono le).1)
    simp only [Engine.stringLength] at length
    simp only [Tag.isError, Tag.kind, length, size, Routine.steps]
    -- the body may leave another text behind
    have called : Together (fun _ => False) (Out w₂ (.called _)) _ :=
      .call alike₃ (.bindParameters 1 rfl function.2 spares)
    refine called.bind (fun r out => ?_) fun _ _ lost => lost.elim
    obtain ⟨w₄, s₄, c₄, tag, v, e₄, eq, alike₄, ⟨g₄, result', rfl⟩, -, rv, plain'⟩ := out
    obtain rfl : r = fun i => (v i, e₄ i) := funext eq
    let inner : Registers := ⟨scopeAge :: s.registers.scope, pinned, result'⟩
    have alike₄ : Alike w₄ { s.inCall g₄ t [] inner with
        roots := .object (scopeAge :: s.registers.scope) ::
          ([result, .object s.registers.scope, .function age text, s.registers.pinnedTag]
            ++ s.roots) } c₄ e₄ := alike₄
    obtain ⟨o, roots, held, -, alike₅⟩ := alike₄.unholdOther (by rintro ⟨⟩)
    simp only [Engine.unhold, held, Routine.steps]
    exact Alike.leaveFunction (g := g₄) (r := inner) alike₅ grounded plain same free rv plain'
  · rw [if_pos lost.1]
    exact loses_leaveFunction mode lost

/-- A call of a native, up to the end of the call.  Only an engine on its own
has natives. -/
theorem callNative {x : Value}
    (alike : Alike w (s.inCall g t [s.registers.pinnedTag] s.registers) c e)
    (grounded : s.Grounded s.roots.length) {mode : Mode}
    (free : mode.inCall = true → s.registers.result = none) :
    Together LostValue (Out w₀ (.back s mode t))
      fun i => (Routine.callNative x (e i)).bind
        fun v => .ofExcept (Routine.leaveCall mode v.1 v.2) := by
  simp only [Routine.callNative, Routine.steps, alike.natives]
  by_cases unknown : c.natives.size ≤ x.payload.toNat
  · obtain ⟨e₁, failed, alike₁⟩ := alike.fail .badCall
    simp only [unknown, failed, Routine.steps]
    exact alike₁.leaveCall grounded free (related_failureOf _ _ _)
      (Tag.isPlain_of_isError (isError_failureOf _ _))
  · have hosted : Hosted ι := by
      refine alike.hosted.resolve_left fun none => unknown ?_
      rw [none]
      exact Nat.zero_le _
    simp only [unknown, if_false]
    have called : Together (fun _ => False) (Out w _) _ :=
      .call (alike.withNatives (List.prefix_refl _)) (.pushArguments x.payload.toNat 0 hosted
        (Nat.zero_le _) (Nat.lt_of_not_le unknown))
    refine called.bind (fun r out => ?_) fun _ _ lost => lost.elim
    obtain ⟨w₁, s₁, c₁, tag, v, e₁, eq, alike₁, ends, -, rv, plain, -⟩ := out
    obtain rfl : r = fun i => (v i, e₁ i) := funext eq
    have same : s₁ = { s.inCall g t [s.registers.pinnedTag] s.registers with
        natives := c.natives.toList } := by
      rw [ends]
      simp only [UInt32.toNat_zero, List.drop_zero, UInt32.mul_zero, UInt32.add_zero]
    subst same
    have back := alike₁.withNatives (alike.known.trans alike₁.known)
    exact Alike.leaveCall (s := s) back grounded free rv plain

/-- A call of a plain value with the arguments of a span. -/
theorem callValue [Nonempty ι] (alike : Alike w s c e) {tag' : Tag} {f a : ι → Value}
    (rf : w.Related tag f) (ra : w.Related tag' a) (named : tag'.Names s.ground.text.size) :
    Together LostValue (Out w (.back s c.mode c.spot))
      fun i => Routine.callValue (f i) (a i) (e i) := by
  by_cases span : tag'.kind = .span
  · by_cases callable : tag.kind = .function ∨ tag.kind = .native
    · obtain ⟨x, rfl, inside⟩ := named.resolve_left fun operand => operand span
      obtain ⟨g, u, e₁, entered, alike₁⟩ := alike.enterCall inside
      have eq := fun i => callValue_eq (e i) ((ra.kind i).trans span)
        (by rw [rf.kind i]; exact callable)
      simp only [eq]
      simp only [ra.2, entered, rf.kind, Routine.steps, alike.mode]
      have grounded := alike.grounded
      by_cases function : tag.kind = .function
      · obtain ⟨age, text, rfl⟩ := rf.eq_function function
        simp only [Tag.kind, if_true]
        have pins : w.Pins (some (age, text)) fun i => (f i).offset := World.Refers.offset rf.1
        exact (alike₁.withPinned pins).callFunction grounded alike.free rf
      · obtain ⟨y, -, same⟩ := rf.eq_of_not_entity
          (by rw [callable.resolve_left function]; rfl)
        simp only [function, if_false, same]
        exact alike₁.callNative grounded alike.free
    · have callable : tag.kind ≠ .function ∧ tag.kind ≠ .native := not_or.mp callable
      simp only [Routine.callValue, Routine.steps, rf.kind, ra.kind, span, callable, ne_eq,
        not_true_eq_false, not_false_eq_true, and_self]
      exact alike.failing (.value _ _) .notAFunction rfl (.never _ _ _)
  · simp only [Routine.callValue, Routine.steps, ra.kind, span, ne_eq, not_false_eq_true]
    exact alike.failing (.value _ _) .badCall rfl (.never _ _ _)

/-! ## Chains -/

/-- A call has come to its end behind its arguments. -/
structure Called (tag : Tag) (c c' : Current) : Prop where
  sane : tag.isError = false
  mode : c'.mode = c.mode
  spot : c'.spot = c.spot

/-- The call operator behind an argument list. -/
theorem applyCall [Nonempty ι] (alike : Alike w s c e) (used : c.spot.consumed = true) {tag' : Tag}
    {f a : ι → Value} (rf : w.Related tag f) (ra : w.Related tag' a)
    (named : tag'.Names s.ground.text.size) :
    Together LostValue (Out w (.operand s c.mode (Called tag c)))
      fun i => Routine.applyCall (f i) (a i) (e i) := by
  simp only [Routine.applyCall, Routine.steps, rf.isError, ra.isError, alike.isDry]
  by_cases error : tag.isError = true
  · simp only [error, if_true]
    exact .done alike rfl (.refl w c) rf (.operand_of_isError error)
  have sane : tag.isError = false := Bool.eq_false_iff.mpr error
  by_cases error' : tag'.isError = true
  · simp only [error, error', Bool.false_eq_true, if_true, if_false]
    exact .done alike rfl (.refl w c) ra (.operand_of_isError error')
  by_cases dry : c.mode.dry = true
  · simp only [error, error', dry, Bool.false_eq_true, if_true, if_false]
    exact .done alike rfl (fun _ => ⟨.refl w, dry⟩) (World.related_other w (x := .zero) (by decide))
      ⟨Tag.isPlain_zero.isOperand, fun _ => ⟨sane, rfl, rfl⟩⟩
  obtain ⟨t, l, resolved, rl, plain, -⟩ := alike.resolve rf
  obtain ⟨t', r, resolved', rr, plain', same⟩ := alike.resolve ra
  obtain ⟨e', noted, alike'⟩ := alike.noteUse
  simp only [error, error', dry, resolved, resolved', noted, Routine.steps, rl.isError, rr.isError]
  have since : Since (c.mode.dry = true) w w c := .refl w c
  by_cases inner : t.isError = true
  · simp only [inner, if_true]
    exact .done alike' rfl since rl (.operand_of_isError inner)
  by_cases inner' : t'.isError = true
  · simp only [inner, inner', Bool.false_eq_true, if_true, if_false]
    exact .done alike' rfl since rr (.operand_of_isError inner')
  simp only [inner, inner', Routine.steps]
  have named' : t'.Names s.ground.text.size := by
    by_cases property : tag'.kind = .property
    · obtain ⟨names, rfl⟩ := ra.eq_property property
      exact .inl (plain' nofun).isOperand
    · rw [(same property).1]
      exact named
  refine (alike'.callValue rl rr named').within rfl (fun h => absurd h dry)
    fun _ _ given => given.mono Tag.IsPlain.isOperand fun _ back => ⟨sane, back.1, ?_⟩
  rw [back.2, Spot.use, ← used]

/-- A value followed by accesses and calls. -/
theorem access [Nonempty ι] (alike : Alike w s c e) (deep : 0 < s.depth) :
    Together LostNext (Goes w (.reading s c .access)) fun i => Routine.access (e i) := by
  simp only [Routine.access, Routine.steps]
  refine .checked (.next _ _) alike.group rfl (Since.refl w c) ?_
  intro w₁ c₁ tag v e₁ alike₁ _ since₁ rv ⟨named, read⟩ sane
  obtain ⟨mode₁, value⟩ := read sane
  simp only [rv.kind]
  by_cases span : tag.kind = .span
  · obtain ⟨x, rfl, inside⟩ := named.resolve_left fun operand => operand span
    have text : ∀ i, spanText (v i) (e₁ i) = .ok (_, e₁ i) := fun i => by
      rw [rv.2 i]
      exact alike₁.textAt inside i
    simp only [span, text, Routine.steps]
    refine .goOnWith (alike₁.lookup _) rfl since₁
      (fun _ _ _ _ related operand => .accessRest deep related operand)
      fun c₂ t₂ unmoved _ _ _ given => given.mono id fun _ read => ?_
    obtain ⟨sane₂, mode', rest⟩ := read
    rw [unmoved.mode] at mode'
    rw [unmoved.spot sane₂] at rest
    exact ⟨mode'.trans mode₁, .access value rest⟩
  · simp only [span, if_false]
    exact .goOn (.accessRest deep rv span) alike₁ (fun _ same => same) since₁ fun _ _ given =>
      given.mono id fun _ read => ⟨read.2.1.trans mode₁, .access value read.2.2⟩

/-- A lost name ends a chain lost. -/
theorem loses_dot {r : Value × Engine} (lost : LostValue r) :
    Loses LostNext ((Progress.ofExcept (Engine.unhold r.2)).bind fun u =>
      (Progress.ofExcept (Engine.applyDot u.1 r.1 u.2)).bind fun q =>
        .finished (.goOn (.accessRest q.1), q.2)) := by
  obtain ⟨error, full⟩ := lost
  rcases eq : r.2.roots with _ | ⟨v, roots⟩
  · left
    refine ⟨.fault, ?_⟩
    simp only [Engine.unhold, eq, Routine.steps]
  · right
    simp only [Engine.unhold, eq, Engine.applyDot, Engine.withOperands, Action.steps, error]
    by_cases left : v.isError = true
    · simp only [left]
      exact ⟨_, rfl, full⟩
    · simp only [left, Routine.steps]
      exact ⟨_, rfl, full⟩

/-- A lost argument list ends a chain lost. -/
theorem loses_call (v : Value) {r : Value × Engine} (lost : LostValue r) :
    Loses LostNext (if r.1.isError = true then .finished (.value r.1, r.2)
      else (Routine.applyCall v r.1 r.2).bind fun q =>
        .finished (.goOn (.accessRest q.1), q.2)) := by
  rw [if_pos lost.1]
  exact .inr ⟨_, rfl, lost.2⟩

/-- The rest of a chain of accesses and calls. -/
theorem accessRest [Nonempty ι] (alike : Alike w s c e) (deep : 0 < s.depth) {v : ι → Value}
    (related : w.Related tag v) (operand : tag.IsOperand) :
    Together LostNext (Goes w (.operand s c.mode
        (ReadAfter tag s.ground.text c.mode .accessRest (c.spot.place s.ground.text))))
      fun i => Routine.accessRest (v i) (e i) := by
  obtain ⟨e₁, token, alike₁⟩ := alike.token
  have next := c.spot.next_place s.ground.text
  have stop : (c.spot.place s.ground.text).next s.ground.text ≠ .dot →
      (c.spot.place s.ground.text).next s.ground.text ≠ .leftParen →
      Together LostNext (Goes w (.operand s c.mode
        (ReadAfter tag s.ground.text c.mode .accessRest (c.spot.place s.ground.text))))
      fun i => .finished (.value (v i), e₁ i) := fun dot opening => by
    refine .give alike₁ rfl (.refl w c) related ⟨operand, fun sane => ⟨sane, rfl, ?_⟩⟩
    rw [Spot.place_advance]
    exact .accessEnd dot opening
  simp only [Routine.accessRest, Routine.steps, token]
  generalize (c.spot.advance s.ground.text).token = t at next
  rw [next] at stop
  cases t
  case dot =>
    obtain ⟨e₂, use, alike₂⟩ := alike₁.use
    obtain ⟨e₃, hold, alike₃⟩ := alike₂.holdAll related
    simp only [Routine.steps, use, hold]
    refine alike₃.group.after ?_ fun i r lost => loses_dot lost
    rintro w₄ c₄ t name e₄ alike₄ since₄ rn ⟨named, read⟩
    obtain ⟨l, e₅, unheld, rl, alike₅⟩ := alike₄.unholdAll alike₂.grounded
    simp only [unheld, Routine.steps]
    refine .goOnWith (alike₅.applyDot rl rn operand named) rfl since₄
      (fun _ _ _ _ related given => .accessRest deep related given.1)
      fun c₆ t₆ unmoved given₆ _ _ given => given.mono id fun _ read₆ => ?_
    obtain ⟨sane₆, mode', rest⟩ := read₆
    obtain ⟨sane, sane'⟩ := given₆.2 sane₆
    obtain ⟨mode₄, name⟩ := read sane'
    rw [unmoved.mode] at mode'
    rw [unmoved.spot sane₆] at rest
    rw [← Spot.pass_place] at name
    exact ⟨sane, mode'.trans mode₄, .property next name rest⟩
  case leftParen =>
    simp only [Routine.steps]
    refine alike₁.argumentSpan.bind (fun r spanned => ?_) fun i r lost => loses_call (v i) lost
    obtain ⟨w₂, c₂, t, a, e₂, eq, le, alike₂, mode₂, ra, named, read⟩ := spanned
    obtain rfl : r = fun i => (a i, e₂ i) := funext eq
    have since₂ : Since (c.mode.dry = true) w w₂ c₂ := fun dry => ⟨le, by rw [mode₂]; exact dry⟩
    simp only [ra.isError]
    by_cases error : t.isError = true
    · simp only [error, if_true]
      exact .give alike₂ rfl since₂ ra (.operand_of_isError error)
    obtain ⟨-, arguments⟩ := read (Bool.eq_false_iff.mpr error)
    have used := arguments.consumed_arguments
    simp only [error, Routine.steps]
    refine (alike₂.applyCall used (related.mono le) ra named).after ?_
      fun _ r lost => .inr ⟨_, rfl, lost.2⟩
    rintro w₃ c₃ t r e₃ alike₃ since₃ rr ⟨operand', read'⟩
    refine .goOn (.accessRest deep rr operand') alike₃ (fun _ same => same) (since₂.trans since₃)
      fun _ _ given => given.mono id fun _ read₄ => ?_
    obtain ⟨sane₃, mode', rest⟩ := read₄
    obtain ⟨sane, mode₃, spot₃⟩ := read' sane₃
    rw [spot₃] at rest
    rw [Spot.place_advance] at arguments
    exact ⟨sane, (mode'.trans mode₃).trans mode₂, .call next arguments rest⟩
  all_goals exact stop (by simp) (by simp)

end Alike

end ArenaScript.Lockstep
