import ArenaScript.Proofs.Lockstep.Together

/-!
# Actions in step

What the actions of an engine do to engines that agree: each gives the same
answer, or related values, and leaves engines that agree.

Main results:

- `Alike.token`, `Alike.expectAt`, `Alike.lookahead`, `Alike.textAt`: reading.
- `Alike.fail`: failing.
- `Alike.holdAll`, `Alike.unholdAll`: values held for later.
-/

namespace ArenaScript.Lockstep

open Engine

variable {ι : Type} [Rules ι] {w : World ι} {s : Standing ι} {c : Current} {e : ι → Engine}

namespace Alike

/-! ## Reading -/

variable (alike : Alike w s c e)
include alike

theorem token_eq (i : ι) :
    Engine.token (e i) = .ok ((c.spot.advance s.ground.text).token, { e i with
      cursor := (c.spot.advance s.ground.text).cursor (e i).cursor.origin s.ground.text.size }) := by
  have scanned := (alike.shows i).scan c.spot.pos
  have cursor := alike.cursor.cursor i
  have place : (e i).cursor.advance (e i).arena.bytes
      = (c.spot.advance s.ground.text).cursor (e i).cursor.origin s.ground.text.size := by
    simp only [Cursor.advance, alike.consumed, alike.pos, scanned, Spot.advance]
    by_cases consumed : c.spot.consumed = true
    · rw [if_pos consumed, if_pos consumed]
      conv => lhs; rw [cursor]
      rfl
    · rw [if_neg consumed, if_neg consumed]
      exact cursor
  rw [Engine.token, alike.isValid i, Bool.not_true, Bool.and_false, if_neg Bool.false_ne_true,
    place]
  rfl

/-- The next token is the same for all. -/
theorem token : ∃ e', (∀ i, Engine.token (e i) = .ok ((c.spot.advance s.ground.text).token, e' i))
      ∧ Alike w s { c with spot := c.spot.advance s.ground.text } e' :=
  ⟨_, alike.token_eq, alike.goTo alike.cursor.inside.advance fun _ => rfl⟩

theorem use :
    ∃ e', (∀ i, Engine.use (e i) = .ok ((), e' i)) ∧ Alike w s { c with spot := c.spot.use } e' :=
  ⟨_, fun _ => rfl, alike.changeCursor Cursor.use alike.cursor.inside.use fun _ => rfl⟩

theorem unuse : ∃ e', (∀ i, Engine.changeCursor Cursor.unuse (e i) = .ok ((), e' i))
      ∧ Alike w s { c with spot := c.spot.unuse } e' :=
  ⟨_, fun _ => rfl, alike.changeCursor Cursor.unuse alike.cursor.inside.unuse fun _ => rfl⟩

/-- A token is expected by all or by none.  If it is there, it is used up. -/
theorem expectAt (t : Token) : ∃ (found : Bool) (u : Spot) (e' : ι → Engine),
      (∀ i, Engine.expect t (e i) = .ok (found, e' i)) ∧ Alike w s { c with spot := u } e'
        ∧ (found = true → (c.spot.advance s.ground.text).token = t
          ∧ u = (c.spot.advance s.ground.text).use) := by
  obtain ⟨e₁, token, alike₁⟩ := alike.token
  by_cases there : (c.spot.advance s.ground.text).token = t
  · obtain ⟨e₂, use, alike₂⟩ := alike₁.use
    refine ⟨true, _, e₂, fun i => ?_, alike₂, fun _ => ⟨there, rfl⟩⟩
    simp only [Engine.expect, bind, StateT.bind, Except.bind, token, there, if_true, use]
    rfl
  · refine ⟨false, _, e₁, fun i => ?_, alike₁, nofun⟩
    simp only [Engine.expect, bind, StateT.bind, Except.bind, token, there, if_false]
    rfl

/-- Looking at the token after the current one. -/
theorem lookahead : ∃ e' : ι → Engine,
      (∀ i, Engine.lookahead (e i) = .ok ((c.spot.use.advance s.ground.text).token, e' i))
        ∧ Alike w s { c with spot := c.spot.unuse } e' := by
  have used := alike.changeCursor Cursor.use alike.cursor.inside.use fun _ => rfl
  have next := used.token_eq
  refine ⟨_, fun i => ?_,
    alike.changeCursor Cursor.unuse alike.cursor.inside.unuse fun _ => rfl⟩
  simp only [Engine.lookahead, Engine.use, Engine.changeCursor, bind, StateT.bind, Except.bind, get,
    getThe, MonadStateOf.get, StateT.get, pure, Except.pure, modify, modifyGet,
    MonadStateOf.modifyGet, StateT.modifyGet, next]
  rfl

/-- A part of the text is the same for all. -/
theorem textAt {x n : Nat} (inside : x + n ≤ s.ground.text.size) (i : ι) :
    Engine.textAt x n (e i) = .ok (s.ground.text.extract x (x + n), e i) := by
  have shown := alike.shows i
  have bound := shown.inside
  have length := shown.length
  simp only [Engine.textAt, Action.runs, source, alike.isValid i, if_true]
  rw [if_pos (by omega), shown.slice inside]
  rfl

/-- The bytes of the current token are the same for all. -/
theorem tokenText (i : ι) : Engine.tokenText (e i) = .ok (s.ground.text.extract c.spot.tokenStart
      (c.spot.tokenStart + c.spot.tokenLength), e i) := by
  have text := alike.textAt alike.cursor.inside.token i
  simpa only [Engine.tokenText, Action.runs, alike.tokenStart, alike.tokenLength] using text

theorem isDry (i : ι) : Engine.isDry (e i) = .ok (c.mode.dry, e i) := by
  rw [← alike.mode i]
  rfl

/-! ## Modes -/

theorem changeMode (f : Mode → Mode) (free : (f c.mode).inCall = true → s.registers.result = none) :
    ∃ e', (∀ i, Engine.changeMode f (e i) = .ok ((), e' i))
      ∧ Alike w s { c with mode := f c.mode } e' := by
  refine ⟨_, fun i => ?_, alike.withMode (f c.mode) free⟩
  rw [← alike.mode i]
  rfl

/-! ## Reports -/

theorem report (event : ι → Event) :
    ∃ e', (∀ i, Engine.report (event i) (e i) = .ok ((), e' i)) ∧ Alike w s c e' := by
  refine ⟨_, fun i => ?_, alike.withRest (fun i => (e i).threshold) (fun i => (e i).deepest)
    (fun i => (e i).collectPending) (fun i => (e i).tracing)
    (fun i => if (e i).tracing then (e i).events.push (event i) else (e i).events)
    fun i => (e i).output⟩
  show Except.ok ((), if (e i).tracing = true then _ else _) = _
  split <;> rfl

theorem noteUse : ∃ e', (∀ i, Engine.noteUse (e i) = .ok ((), e' i)) ∧ Alike w s c e' := by
  have fits := alike.fits.congr (fun i => (alike.fits.holds i).noteLow)
    fun i => Arena.sameBlock_noteLow (e i).arena
  have noted := alike.withArena (.refl w) fits rfl
    (fun i => (Arena.sameBlock_noteLow (e i).arena).limit_eq) fun _ _ => id
  exact ⟨_, fun _ => rfl, noted.withRest (fun i => (e i).threshold)
    (fun i => max (e i).deepest (e i).depth) (fun i => (e i).collectPending)
    (fun i => (e i).tracing) (fun i => (e i).events) fun i => (e i).output⟩

/-! ## Values held for later -/

theorem holdAll {tag : Tag} {v : ι → Value} (related : w.Related tag v) :
    ∃ e', (∀ i, Engine.hold (v i) (e i) = .ok ((), e' i))
      ∧ Alike w { s with roots := tag :: s.roots } c e' :=
  ⟨_, fun _ => rfl, alike.hold related⟩

omit alike in
theorem unholdAll {tag : Tag} {ts : List Tag} (alike : Alike w { s with roots := tag :: ts } c e)
    (grounded : s.Grounded ts.length) :
    ∃ (v : ι → Value) (e' : ι → Engine), (∀ i, Engine.unhold (e i) = .ok (v i, e' i))
      ∧ w.Related tag v ∧ Alike w { s with roots := ts } c e' := by
  obtain ⟨v, roots, eq, related, alike'⟩ := alike.unhold grounded
  refine ⟨v, _, fun i => ?_, related, alike'⟩
  simp only [Engine.unhold, eq i]

theorem heldAt {n : Nat} {tag : Tag} (found : s.roots[n]? = some tag) :
    ∃ v : ι → Value, (∀ i, Engine.held n (e i) = .ok (v i, e i)) ∧ w.Related tag v := by
  obtain ⟨v, related, eq⟩ := alike.held found
  refine ⟨v, fun i => ?_, related⟩
  simp only [Engine.held, eq i]

/-! ## Failing -/

/-- The value of a failure. -/
def failureOf (c : Current) (f : Failure) : Value := (c.log.record f).lastValue f.kind

omit alike in
theorem kind_failureOf (c : Current) (f : Failure) : (failureOf c f).kind = .error :=
  Value.kind_box _ _

theorem fail (f : Failure) : ∃ e', (∀ i, Engine.fail f (e i) = .ok (failureOf c f, e' i))
      ∧ Alike w s { c with
          log := c.log.record f, spot := c.spot.finish s.ground.text.size } e' := by
  have finished := alike.changeCursor Cursor.finish alike.cursor.inside.finish fun _ => rfl
  have recorded : Alike w s { c with
      log := c.log.record f, spot := c.spot.finish s.ground.text.size }
      fun i => { e i with log := (e i).log.record f, cursor := (e i).cursor.finish } :=
    { finished with log := fun i => by rw [← alike.log i] }
  obtain ⟨e', reported, alike'⟩ := recorded.report fun _ => .failed f.kind f.message
  refine ⟨e', fun i => ?_, alike'⟩
  have log := alike'.log i
  simp only [Engine.fail, bind, StateT.bind, Except.bind, modify, modifyGet,
    MonadStateOf.modifyGet, StateT.modifyGet, pure, Except.pure, reported, get, getThe,
    MonadStateOf.get, StateT.get, log, failureOf]
  rfl

end Alike

end ArenaScript.Lockstep
