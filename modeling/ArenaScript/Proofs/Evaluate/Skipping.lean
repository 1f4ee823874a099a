import ArenaScript.Proofs.Evaluate.Functions
import ArenaScript.Proofs.Grammar.Phrases

/-!
# Dry runs of phrases

A dry run finds no fault with a text that follows the grammar: from the place where a
phrase starts it comes to the place where the phrase ends, if the nesting has no limit.
Dry runs always end, so only their outcome is at stake here, and a routine that halts
needs no attention.

Main definitions:

- `Engine.text`, `Engine.here`: the text that an engine reads, and the place in it.
- `Engine.Skims`: a dry run at a place.
- `Routine.Gets`, `Routine.Skips`: what routines come to from place to place.
- `Grammar.Phrase.Skipped`: the routine that passes a phrase.

Main results:

- `Grammar.Derives.skips`: a dry run passes every phrase of the grammar.
-/

namespace ArenaScript

open Engine Grammar

/-! ## Places of engines -/

namespace Engine

/-- The text that an engine reads. -/
def text (e : Engine) : ByteArray :=
  let source := e.cursor.source e.arena.bytes
  source.bytes.extract source.start (source.start + source.length)

/-- The place of the grammar in the text that an engine reads. -/
def here (e : Engine) : Place where
  pos := e.cursor.pos
  token := e.cursor.token
  consumed := e.cursor.consumed
  sound := isSound e.text e.cursor.token e.cursor.tokenStart e.cursor.tokenLength

theorem Passes.text_eq {e e' : Engine} (passes : e.Passes e') : e'.text = e.text := by
  have same := passes.reads_eq
  simp only [reads] at same
  simp only [text, same]

/-- An engine goes from token to token as the grammar does. -/
theorem Legible.here_advance {e : Engine} (legible : e.Legible) :
    Engine.here { e with cursor := e.cursor.advance e.arena.bytes } = e.here.advance e.text := by
  rw [Engine.here, (Passes.advance e).text_eq, Place.advance]
  simp only [Cursor.advance, Engine.here]
  by_cases used : e.cursor.consumed = true
  · have scan : (e.cursor.source e.arena.bytes).scan e.cursor.pos
        = (Source.ofBytes e.text).scan e.cursor.pos := legible.shows.scan _
    simp only [used, if_true, Cursor.accept, scan]
  · simp only [used, Bool.false_eq_true, if_false]

theorem Legible.next_eq {e : Engine} (legible : e.Legible) : e.here.next e.text = e.seen := by
  rw [Place.next, ← legible.here_advance]
  rfl

/-- A dry run in a mode, without a limit of nesting, stands at a place of a text and holds
some values. -/
structure Skims (text : ByteArray) (m : Mode) (vs : List Value) (k : Place) (e : Engine) :
    Prop where
  legible : e.Legible
  text_eq : e.text = text
  mode : e.mode = m
  roots : e.roots = vs
  here : e.here = k
  unlimited : e.maxDepth ≤ 0

namespace Skims

variable {text : ByteArray} {m : Mode} {vs : List Value} {k k' : Place} {e e' : Engine}

theorem passes (skims : e.Skims text m vs k) (passes : e.Passes e') (here : e'.here = k') :
    e'.Skims text m vs k' where
  legible := passes.legible skims.legible
  text_eq := passes.text_eq.trans skims.text_eq
  mode := passes.mode_eq.trans skims.mode
  roots := passes.roots_eq.trans skims.roots
  here := here
  unlimited := passes.depth_eq.2 ▸ skims.unlimited

theorem advance (skims : e.Skims text m vs k) :
    { e with cursor := e.cursor.advance e.arena.bytes }.Skims text m vs (k.advance text) :=
  skims.passes (.advance e) (by rw [skims.legible.here_advance, skims.here, skims.text_eq])

theorem use (skims : e.Skims text m vs k) :
    { e with cursor := e.cursor.use }.Skims text m vs k.use :=
  skims.passes (.of_pos (.of_cursor e _) (.use _) rfl) (by rw [← skims.here]; rfl)

theorem unuse (skims : e.Skims text m vs k) :
    { e with cursor := e.cursor.unuse }.Skims text m vs k.unuse :=
  skims.passes (.of_pos (.of_cursor e _) (.unuse _) rfl) (by rw [← skims.here]; rfl)

/-- Other values are held. -/
theorem holding {us : List Value} (skims : e.Skims text m vs k) {ws : List Value} (eq : us = ws) :
    { e with roots := us }.Skims text m ws k :=
  ⟨⟨skims.legible.1, skims.legible.2, skims.legible.3, skims.legible.4⟩, skims.text_eq,
    skims.mode, eq, skims.here, skims.unlimited⟩

/-- A run at another depth of nesting. -/
theorem nested (skims : e.Skims text m vs k) (n : Nat) :
    { e with depth := n }.Skims text m vs k :=
  ⟨⟨skims.legible.1, skims.legible.2, skims.legible.3, skims.legible.4⟩, skims.text_eq,
    skims.mode, skims.roots, skims.here, skims.unlimited⟩

/-- A semicolon is to be seen after a loop. -/
theorem closed (skims : e.Skims text m vs k) :
    { e with cursor := { e.cursor with token := .semicolon, consumed := false } }.Skims text m vs
      (.closed k.pos) where
  legible := ⟨skims.legible.1, skims.legible.2, skims.legible.3, skims.legible.4⟩
  text_eq := skims.text_eq
  mode := skims.mode
  roots := skims.roots
  here := by rw [← skims.here]; rfl
  unlimited := skims.unlimited

theorem not_tooDeep (skims : e.Skims text m vs k) : ¬ Routine.tooDeep e = true := by
  have unlimited := skims.unlimited
  simp only [Routine.tooDeep, Bool.and_eq_true, decide_eq_true_eq]
  omega

theorem token_eq (skims : e.Skims text m vs k) : e.cursor.token = k.token :=
  congrArg Place.token skims.here

/-- A string literal is only measured. -/
theorem stringLiteral (skims : e.Skims text m vs k) (dry : m.dry = true)
    (string : k.token = .string) (sound : k.sound = true) :
    Routine.stringLiteral e = .ok (.zero, e) := by
  have valid : Engine.source e = .ok (e.reads, e) := if_pos skims.legible.valid
  have literal : (Source.measure ⟨e.reads.bytes, e.reads.start + e.cursor.tokenStart,
      e.cursor.tokenLength⟩).2 = true := by
    have size : e.text.size = e.cursor.length :=
      skims.legible.shows.length.symm.trans (e.cursor.length_source _)
    have window : Source.Window e.reads (.ofBytes e.text) 0 :=
      skims.legible.shows.window (Source.shows_ofBytes _) (Nat.le_of_eq (Nat.zero_add _))
        (by rw [Nat.zero_add]; exact ByteArray.extract_zero_size)
    have inside : e.cursor.tokenStart + e.cursor.tokenLength ≤ (Source.ofBytes e.text).length :=
      Nat.le_trans skims.legible.token (Nat.le_of_eq size.symm)
    have same := window.measure_eq inside
    rw [← skims.here, Engine.here, isSound, skims.token_eq, string] at sound
    simp only [Nat.zero_add] at same
    rw [same, Source.measure_eq]
    simpa [Source.ofBytes] using sound
  show (if e.mode.dry then _ else _ : Action Value) e = _
  rw [if_pos (skims.mode ▸ dry)]
  simp only [Action.runs, valid, literal, if_true]

theorem seen_eq (skims : e.Skims text m vs k) : e.seen = k.next text := by
  rw [← skims.here, ← skims.text_eq, skims.legible.next_eq]

end Skims

end Engine

/-- No error and no reference: what a dry run gives that goes well. -/
def Value.Passive (v : Value) : Prop := v.isError = false ∧ v.kind ≠ .property

instance (v : Value) : Decidable v.Passive := inferInstanceAs (Decidable (_ ∧ _))

/-! ## Routines from place to place -/

namespace Routine

/-- What a routine of a dry run comes to from a place on, if it ends. -/
def Gets (text : ByteArray) (m : Mode) (vs : List Value) (k : Place) {α : Type} (x : Routine α)
    (Q : α × Engine → Prop) : Prop :=
  ∀ e : Engine, e.Skims text m vs k → ∀ r, (x e).Ends r → Q r

/-- The outcome is no error, at a place. -/
def Lands (text : ByteArray) (m : Mode) (vs : List Value) (k : Place) (o : Value × Engine) :
    Prop :=
  o.1.Passive ∧ o.2.Skims text m vs k

/-- The production that ends so or hands over comes to such an outcome. -/
def Leads (text : ByteArray) (m : Mode) (vs : List Value) (k : Place) (r : Next × Engine) : Prop :=
  ∀ o, Production.Yields o r → Lands text m vs k o

/-- A routine of a dry run goes from one place to another without an error. -/
def Skips (text : ByteArray) (m : Mode) (x : Routine Value) (k k' : Place) : Prop :=
  ∀ vs, Gets text m vs k x (Lands text m vs k')

namespace Gets

variable {text : ByteArray} {m : Mode} {vs : List Value} {k k₁ k' : Place} {α β : Type}
  {f : α → Routine β} {Q : β × Engine → Prop} {u v : Value} {t : Token}

theorem bind {x : Routine α} {P : α → Prop} {us : List Value}
    (first : Gets text m vs k x fun r => P r.1 ∧ r.2.Skims text m us k₁)
    (next : ∀ a, P a → Gets text m us k₁ (f a) Q) : Gets text m vs k (x >>= f) Q := by
  intro e skims r ends
  obtain ⟨⟨a, e₁⟩, first', rest⟩ := Progress.Ends.of_bind ends
  obtain ⟨known, skims₁⟩ := first e skims _ first'
  exact next a known e₁ skims₁ r rest

/-- An action that changes at most the place. -/
theorem act {x : Action α} {a : α} {us : List Value}
    (run : ∀ e : Engine, e.Skims text m vs k → ∀ r, x e = .ok r →
      r.1 = a ∧ r.2.Skims text m us k₁)
    (next : Gets text m us k₁ (f a) Q) : Gets text m vs k (liftM x >>= f) Q :=
  bind (P := (· = a)) (fun e skims r ends => run e skims r ends.of_ofExcept) fun _ eq => eq ▸ next

/-- An action that only looks at the engine. -/
theorem look {x : Action α} (same : ∀ e r, x e = .ok r → r.2 = e)
    (next : ∀ a, Gets text m vs k (f a) Q) : Gets text m vs k (liftM x >>= f) Q :=
  bind (P := fun _ => True)
    (fun e skims r ends => ⟨trivial, same e r ends.of_ofExcept ▸ skims⟩) fun a _ => next a

theorem get {f : Engine → Routine β}
    (next : ∀ e : Engine, e.Skims text m vs k → Gets text m vs k (f e) Q) :
    Gets text m vs k (get >>= f) Q :=
  fun e skims r ends => next e skims e skims r ends

/-- A part of the engine is changed that a dry run does not look at. -/
theorem change {g : Engine → Engine} {f : PUnit → Routine β}
    (keeps : ∀ e : Engine, e.Skims text m vs k → (g e).Skims text m vs k)
    (next : Gets text m vs k (f ⟨⟩) Q) : Gets text m vs k (modify g >>= f) Q :=
  fun e skims r ends => next (g e) (keeps e skims) r ends

theorem token {f : Token → Routine β}
    (next : Gets text m vs (k.advance text) (f (k.next text)) Q) :
    Gets text m vs k (liftM Engine.token >>= f) Q := by
  refine act (fun e skims r run => ?_) next
  obtain rfl := Except.ok.inj (skims.legible.token_eq.symm.trans run)
  exact ⟨skims.seen_eq, skims.advance⟩

/-- The next token is known. -/
theorem tokenIs {f : Token → Routine β} (found : k.next text = t)
    (next : Gets text m vs (k.advance text) (f t) Q) :
    Gets text m vs k (liftM Engine.token >>= f) Q :=
  token (found.symm ▸ next)

theorem use {f : Unit → Routine β} (next : Gets text m vs k.use (f ()) Q) :
    Gets text m vs k (liftM Engine.use >>= f) Q :=
  act (fun e skims r run => by cases run; exact ⟨rfl, skims.use⟩) next

theorem expect {f : Bool → Routine β} (found : k.next text = t)
    (next : Gets text m vs (k.pass text) (f true) Q) :
    Gets text m vs k (liftM (Engine.expect t) >>= f) Q := by
  refine act (fun e skims r run => ?_) next
  rw [skims.legible.expect_eq, if_pos (skims.seen_eq.trans found)] at run
  cases run
  exact ⟨rfl, skims.advance.use⟩

theorem call {x : Routine Value} {f : Value → Routine β} (skips : Skips text m x k k₁)
    (next : ∀ v, v.Passive → Gets text m vs k₁ (f v) Q) : Gets text m vs k (x >>= f) Q :=
  bind (skips vs) next

/-- An outcome that is no error is not taken for one. -/
theorem check {x : Routine Value} {y f : Value → Routine β} (skips : Skips text m x k k₁)
    (next : ∀ v, v.Passive → Gets text m vs k₁ (f v) Q) :
    Gets text m vs k (x >>= fun v => if v.isError then y v else f v) Q :=
  call skips fun v fine => by
    rw [if_neg (Bool.eq_false_iff.mp fine.1)]
    exact next v fine

theorem known {a : α} (next : Gets text m vs k (f a) Q) : Gets text m vs k (Pure.pure a >>= f) Q :=
  next

theorem yes {b : Prop} [Decidable b] {x y : Routine β} (holds : b) (next : Gets text m vs k x Q) :
    Gets text m vs k (if b then x else y) Q := by
  rwa [if_pos holds]

theorem no {b : Prop} [Decidable b] {x y : Routine β} (fails : ¬ b) (next : Gets text m vs k y Q) :
    Gets text m vs k (if b then x else y) Q := by
  rwa [if_neg fails]

/-- A token that is expected is found. -/
theorem expecting {x y : Routine β} (found : k.next text = t)
    (next : Gets text m vs (k.pass text) x Q) :
    Gets text m vs k (liftM (Engine.expect t) >>= fun b => if !b then y else x) Q :=
  expect found next

theorem isDry {f : Bool → Routine β} (dry : m.dry = true) (next : Gets text m vs k (f true) Q) :
    Gets text m vs k (liftM Engine.isDry >>= f) Q :=
  act (fun e skims r run => by cases run; exact ⟨by rw [skims.mode, dry], skims⟩) next

/-- The mode stays what it is. -/
theorem inMode {g : Mode → Mode} {f : Unit → Routine β} (same : g m = m)
    (next : Gets text m vs k (f ()) Q) : Gets text m vs k (liftM (changeMode g) >>= f) Q := by
  refine act (fun e skims r run => ?_) next
  cases run
  refine ⟨rfl, ⟨⟨skims.legible.1, skims.legible.2, skims.legible.3, skims.legible.4⟩, skims.text_eq,
    ?_, skims.roots, skims.here, skims.unlimited⟩⟩
  show g e.mode = m
  rw [skims.mode, same]

theorem resolve {f : Value → Routine β} (fine : v.Passive) (next : Gets text m vs k (f v) Q) :
    Gets text m vs k (liftM (Engine.resolve v) >>= f) Q :=
  act (fun e skims r run => by
    rw [resolve_of_kind_ne fine.2] at run
    cases run
    exact ⟨rfl, skims⟩) next

/-- A dry run applies no operator. -/
theorem operands {op : Value → Value → Action Value} {f : Value → Routine β} (dry : m.dry = true)
    (left : u.Passive) (right : v.Passive) (next : Gets text m vs k (f .zero) Q) :
    Gets text m vs k (liftM (withOperands u v op) >>= f) Q := by
  refine act (fun e skims r run => ?_) next
  have idle : withOperands u v op e = .ok (.zero, e) := by
    simp only [withOperands, Engine.isDry, Action.runs, left.1, right.1, skims.mode, dry,
      Except.bind, if_true, Bool.false_eq_true, if_false]
  cases idle.symm.trans run
  exact ⟨rfl, skims⟩

/-- A value is held meanwhile. -/
theorem hold {x : Routine α} {P : α → Prop} {f : α → Value → Routine β}
    (inner : Gets text m (v :: vs) k x fun r => P r.1 ∧ r.2.Skims text m (v :: vs) k₁)
    (next : ∀ a, P a → Gets text m vs k₁ (f a v) Q) :
    Gets text m vs k (liftM (Engine.hold v) >>= fun _ => x >>= fun a => liftM unhold >>= f a)
      Q := by
  intro e skims r ends
  have held : { e with roots := v :: e.roots }.Skims text m (v :: vs) k :=
    skims.holding (congrArg (v :: ·) skims.roots)
  obtain ⟨⟨a, e₁⟩, first, rest⟩ :=
    Progress.Ends.of_bind (p := x { e with roots := v :: e.roots }) ends
  obtain ⟨known, skims₁⟩ := inner _ held _ first
  have back : unhold e₁ = .ok (v, { e₁ with roots := vs }) := by rw [unhold, skims₁.roots]
  simp only [Routine.steps, back] at rest
  exact next a known _ (skims₁.holding rfl) r rest

theorem holding {q : Production} {f : Value × Value → Routine β}
    (skips : Skips text m (Routine.call q) k k₁)
    (next : ∀ u, u.Passive → Gets text m vs k₁ (f (v, u)) Q) :
    Gets text m vs k (Routine.holding v q >>= f) Q := by
  have whole : Gets text m vs k (liftM (Engine.hold v) >>= fun _ => Routine.call q >>= fun u =>
      liftM unhold >>= fun v => f (v, u)) Q := hold (skips (v :: vs)) next
  intro e skims r ends
  refine whole e skims r ?_
  simpa only [Routine.holding, Routine.steps] using ends

theorem isTruthy {f : Bool → Routine β} (next : ∀ b, Gets text m vs k (f b) Q) :
    Gets text m vs k (liftM (Engine.isTruthy v) >>= f) Q :=
  look Lasts.isTruthy_same next

theorem noteUse {f : Unit → Routine β} (next : Gets text m vs k (f ()) Q) :
    Gets text m vs k (liftM Engine.noteUse >>= f) Q :=
  act (fun e skims r run => by
    obtain ⟨passes, place⟩ := Lasts.passes_noteUse run
    exact ⟨rfl, skims.passes passes (by rw [← skims.here, here, here, passes.text_eq, place])⟩) next

theorem unuse {f : Unit → Routine β} (next : Gets text m vs k.unuse (f ()) Q) :
    Gets text m vs k (liftM (changeCursor Cursor.unuse) >>= f) Q :=
  act (fun e skims r run => by cases run; exact ⟨rfl, skims.unuse⟩) next

/-- The token after the current one is looked at. -/
theorem lookahead {f : Token → Routine β}
    (next : Gets text m vs k.unuse (f (k.use.next text)) Q) :
    Gets text m vs k (liftM Engine.lookahead >>= f) Q := by
  refine act (fun e skims r run => ?_) next
  have look : Engine.lookahead e = .ok ({ e with cursor := e.cursor.use }.seen,
      { e with cursor := e.cursor.unuse }) := by
    show (Engine.token { e with cursor := e.cursor.use }).bind _ = _
    rw [skims.use.legible.token_eq]
    rfl
  cases look.symm.trans run
  exact ⟨skims.use.seen_eq, skims.unuse⟩

/-- An action whose outcome is known in a dry run. -/
theorem leaveOut {x y : Action α} {a : α} (dry : m.dry = true)
    (run : ∀ e, x e = (if e.mode.dry then Pure.pure a else y) e)
    (next : Gets text m vs k (f a) Q) : Gets text m vs k (liftM x >>= f) Q :=
  act (fun e skims r ran => by
    rw [run, skims.mode, dry, if_pos rfl] at ran
    cases ran
    exact ⟨rfl, skims⟩) next

theorem string {f : Value → Routine β} (dry : m.dry = true) (string : k.token = .string)
    (sound : k.sound = true) (next : Gets text m vs k (f .zero) Q) :
    Gets text m vs k (liftM Routine.stringLiteral >>= f) Q :=
  act (fun e skims r ran => by
    cases (skims.stringLiteral dry string sound).symm.trans ran
    exact ⟨rfl, skims⟩) next

/-- A token that has been seen is expected. -/
theorem expectingSeen {x y : Routine β} (found : k.next text = t)
    (next : Gets text m vs (k.pass text) x Q) :
    Gets text m vs (k.advance text) (liftM (Engine.expect t) >>= fun b => if !b then y else x)
      Q := by
  refine expecting (by rwa [Place.next, Place.advance_advance]) ?_
  rwa [Place.pass, Place.advance_advance]

/-- The key of a member has been seen. -/
theorem memberKey {f : Value → Routine β} (dry : m.dry = true) (key : isKey (k.next text) = true)
    (sound : (k.advance text).sound = true) (next : Gets text m vs (k.advance text) (f .zero) Q) :
    Gets text m vs (k.advance text) (liftM Routine.memberKey >>= f) Q := by
  refine act (fun e skims r ran => ?_) next
  have again := skims.advance
  rw [Place.advance_advance] at again
  have seen : e.seen = k.next text := by rw [skims.seen_eq, Place.next, Place.advance_advance]
  have run : Routine.memberKey e
      = .ok (.zero, { e with cursor := e.cursor.advance e.arena.bytes }) := by
    show (Engine.token e).bind _ = _
    rw [skims.legible.token_eq, seen]
    simp only [isKey, Bool.or_eq_true, decide_eq_true_eq] at key
    rcases key with name | string
    · simp only [name, Except.bind]
      show (if e.mode.dry then _ else _ : Action Value) _ = _
      rw [if_pos (skims.mode ▸ dry)]
      rfl
    · simp only [string, Except.bind]
      exact again.stringLiteral dry string sound
  cases run.symm.trans ran
  exact ⟨rfl, again⟩

theorem goDry {f : Unit → Routine β} (dry : m.dry = true) (next : Gets text m vs k (f ()) Q) :
    Gets text m vs k (liftM Routine.goDry >>= f) Q :=
  inMode (Mode.eq_of_dry dry) next

theorem goDryIf {b : Prop} [Decidable b] {f : Unit → Routine β} (dry : m.dry = true)
    (next : Gets text m vs k (f ()) Q) :
    Gets text m vs k (if b then liftM Routine.goDry >>= f else f ()) Q := by
  split
  · exact goDry dry next
  · exact next

theorem collectIfDue {f : Unit → Routine β} (dry : m.dry = true)
    (next : Gets text m vs k (f ()) Q) :
    Gets text m vs k (liftM Engine.collectIfDue >>= f) Q :=
  act (fun e skims r ran => by
    have idle : Engine.collectIfDue e = .ok ((), e) := by
      show (if !e.mode.dry && _ then collectNow else Pure.pure ()) e = _
      rw [skims.mode, dry]
      rfl
    cases idle.symm.trans ran
    exact ⟨rfl, skims⟩) next

theorem pure {a : α} {Q : α × Engine → Prop}
    (holds : ∀ e : Engine, e.Skims text m vs k → Q (a, e)) :
    Gets text m vs k (Pure.pure a : Routine α) Q :=
  fun e skims _ ends => ends.of_finished ▸ holds e skims

theorem value (fine : v.Passive) : Gets text m vs k (Pure.pure v) (Lands text m vs k) :=
  pure fun _ skims => ⟨fine, skims⟩

theorem give (fine : v.Passive) : Gets text m vs k (Routine.give v) (Leads text m vs k) :=
  pure fun e skims o yields => by
    obtain rfl : o = (v, e) := yields
    exact ⟨fine, skims⟩

theorem goOn {q : Production} (skips : Skips text m (Routine.call q) k k') :
    Gets text m vs k (Routine.goOn q) (Leads text m vs k') :=
  pure fun e skims o yields => skips vs e skims o (Progress.ends_call.mpr yields)

theorem tail {x : Routine α} {Q : α × Engine → Prop}
    (whole : Gets text m vs k (x >>= Pure.pure) Q) : Gets text m vs k x Q :=
  fun e skims r ends => whole e skims r (ends.bind (.finished r))

end Gets

theorem Skips.of_routine {text : ByteArray} {m : Mode} {k k' : Place} {q : Production}
    (gets : ∀ vs, Gets text m vs k q.routine (Leads text m vs k')) :
    Skips text m (call q) k k' := by
  intro vs e skims o ends
  obtain ⟨r, ends, yields⟩ := Production.performs_iff_ends.mp (Progress.ends_call.mp ends)
  exact gets vs e skims r ends o yields

end Routine

namespace Grammar

open Routine

/-- How a dry run passes a phrase: by the routine of the phrase. -/
def Phrase.Skipped (text : ByteArray) (m : Mode) (k k' : Place) : Phrase → Prop
  | .expression => Skips text m (call .expression) k k'
  | .assignment => Skips text m (call .assignment) k k'
  | .assignmentRest => ∀ v, v.Passive → Skips text m (call (.assignmentRest v)) k k'
  | .conditional => Skips text m (call .conditional) k k'
  | .logical op => Skips text m (call (.logical op)) k k'
  | .logicalRest op => ∀ v, v.Passive → Skips text m (call (.logicalRest op v m)) k k'
  | .binary level => Skips text m (call (.binary level)) k k'
  | .binaryRest level => ∀ v, v.Passive → Skips text m (call (.binaryRest level v)) k k'
  | .unary => Skips text m (call .unary) k k'
  | .access => Skips text m (call .access) k k'
  | .accessRest => ∀ v, v.Passive → Skips text m (call (.accessRest v)) k k'
  | .group => Skips text m Routine.group k k'
  | .primary => Skips text m Routine.primary k k'
  | .object => Skips text m objectLiteral k k'
  | .members => Skips text m (call .members) k k'
  | .function => Skips text m functionLiteral k k'
  | .parameters afterComma => Skips text m (call (.parameters afterComma)) k k'
  | .arguments => Skips text m argumentSpan k k'
  | .argumentList afterComma => Skips text m (call (.argumentList afterComma)) k k'
  | .statement => Skips text m (call .statement) k k'
  | .opened => Skips text m openStatement k k'
  | .block => Skips text m (call (.block false)) k k'
  | .blockRest => ∀ v, v.Passive → Skips text m (call (.blockRest v)) k k'
  | .body => Skips text m Routine.body k k'
  | .bindings => Skips text m (call (.bindings false)) k k'
  | .initializer => Skips text m Routine.initializer k k'
  | .choice => Skips text m Routine.choice k k'
  | .loop => Skips text m Routine.loop k k'
  | .loopStart => Skips text m Routine.loopStart k k'
  | .optional t => Skips text m (Routine.optional t) k k'
  | .returnValue => Skips text m Routine.returnValue k k'
  | .script => True

/-! ## Phrases with a routine of their own -/

section

/-- What follows a member of a list: its end, or a comma and more members. -/
def separated (stop : Token) (q : Production) : Routine Next := do
  if (← token) = stop then give .undefined
  else if !(← expect .comma) then give (← malformed)
  else goOn q

variable {text : ByteArray} {m : Mode} {vs : List Value} {k k₁ k₂ k₃ k₄ k' : Place}

theorem gets_end {stop : Token} {q : Production} (found : k.next text = stop) :
    Gets text m vs k (separated stop q) (Leads text m vs (k.advance text)) :=
  .token (.yes found (.give (by decide)))

theorem gets_comma {stop : Token} {q : Production} (comma : k.next text = .comma)
    (other : stop ≠ .comma) (rest : Skips text m (call q) (k.pass text) k') :
    Gets text m vs k (separated stop q) (Leads text m vs k') :=
  .token (.no (fun found => other (found.symm.trans comma)) (.expectingSeen comma (.goOn rest)))

theorem not_error {v : Value} (fine : v.Passive) : ¬ v.isError = true :=
  Bool.eq_false_iff.mp fine.1

theorem passive_span (i n : UInt32) : (Value.span i n).Passive := by
  rw [Value.Passive, Value.isError, show (Value.span i n).kind = .span from Value.kind_box ..]
  decide

/-- A statement that is an expression. -/
theorem skips_openExpression (opens : opensExpression (k.next text) = true)
    (whole : Skips text m (call .expression) (k.advance text) k') :
    Skips text m openStatement k k' := by
  refine fun vs => .token ?_
  have plain : Gets text m vs (k.advance text) (call .expression >>= fun v => liftM (resolve v))
      (Lands text m vs k') :=
    .call whole fun v fine => .tail (.resolve fine (.value fine))
  generalize k.next text = t at opens ⊢
  cases t with
  | keyword word =>
    cases word <;> first
      | exact plain
      | cases opens
  | leftBrace => cases opens
  | _ => exact plain

/-- A binding up to its value. -/
theorem gets_binding {Q : Next × Engine → Prop} (name : k.next text = .ident)
    (value : Skips text m Routine.initializer (k.pass text) k₁)
    (next : Gets text m vs k₁ (do
      let t ← token
      if t = .semicolon || t = .eof then give .undefined
      else if !(← expect .comma) then give (← malformed)
      else goOn (.bindings false)) Q) : Gets text m vs k (Routine.bindings false) Q :=
  .expecting name (.get fun e skims => .check value fun v fine =>
    .no Bool.false_ne_true (.known (.no (by decide) next)))

theorem gets_parameter {afterComma : Bool} {Q : Next × Engine → Prop} (name : k.next text = .ident)
    (next : Gets text m vs (k.pass text) (separated .rightParen (.parameters true)) Q) :
    Gets text m vs k (Routine.parameters afterComma) Q :=
  .tokenIs name (.no (by decide) (.no (by simp) (.expectingSeen name next)))

theorem gets_argument {afterComma : Bool} {Q : Next × Engine → Prop} (more : k.next text ≠ .eof)
    (opening : afterComma = true ∨ k.next text ≠ .rightParen)
    (value : Skips text m (call .expression) (k.advance text) k₁)
    (next : Gets text m vs k₁ (separated .rightParen (.argumentList true)) Q) :
    Gets text m vs k (Routine.argumentList afterComma) Q := by
  refine .token (.no more (.no ?_ (.call value fun _ _ => next)))
  rcases opening with rfl | other <;> simp [*]

variable (dry : m.dry = true)
include dry

theorem skips_jump {mark : Mode → Mode} : Skips text m (jump mark) k k.use := by
  refine fun vs => .get fun e skims => ?_
  rw [skims.mode]
  exact .no (by simp [dry]) (.no (by simp [dry]) (.use (.value (by decide))))

theorem skips_stepped (value : Skips text m (call .access) k k₁) :
    Skips text m stepped k (k₁.passStep text) := by
  refine fun vs => .check value fun v fine => .token ?_
  have zero : Value.zero.Passive := by decide
  rw [Place.passStep]
  split
  · next sign =>
    rw [if_pos (.inl sign)]
    exact .use (.tail (.operands dry fine zero (.value zero)))
  · next sign =>
    rw [if_pos (.inr sign)]
    exact .use (.tail (.operands dry fine zero (.value zero)))
  · next up down =>
    rw [if_neg (not_or.mpr ⟨up, down⟩)]
    exact .value fine

/-- Nothing is called. -/
theorem skips_applyCall {u v : Value} (fine : u.Passive) (fine' : v.Passive) :
    Skips text m (applyCall u v) k k :=
  fun _ => .no (not_error fine) (.no (not_error fine') (.isDry dry (.yes rfl
    (.value (by decide)))))

/-- A literal or a name of one token. -/
theorem skips_atom (atom : isAtom (k.next text) = true) (sound : (k.advance text).sound = true) :
    Skips text m Routine.primary k (k.pass text) := by
  refine fun vs => .token (.noteUse (.get fun e skims => .no skims.not_tooDeep (.use
    (.get fun e skims => ?_))))
  have seen := skims.token_eq
  unfold isAtom at atom
  split at atom
  case h_1 sign =>
    simp only [seen.trans sign]
    refine .value ?_
    rw [Value.Passive, Value.isError, skims.legible.number]
    decide
  case h_2 sign =>
    simp only [seen.trans sign]
    exact .tail (.string dry sign sound (.value (by decide)))
  case h_3 sign =>
    simp only [seen.trans sign]
    exact .value (passive_span _ _)
  case h_8 => cases atom
  all_goals
    next sign =>
      simp only [seen.trans sign]
      exact .value (by decide)

/-- A member up to its value. -/
theorem gets_member {Q : Next × Engine → Prop} (key : isKey (k.next text) = true)
    (sound : (k.advance text).sound = true) (colon : (k.pass text).next text = .colon)
    (value : Skips text m (call .expression) ((k.pass text).pass text) k₁)
    (next : Gets text m vs k₁ (separated .rightBrace .members) Q) :
    Gets text m vs k Routine.members Q := by
  have more : k.next text ≠ .rightBrace := fun brace => by
    rw [brace] at key
    cases key
  refine .token (.no more (.memberKey dry key sound (.no (by decide) (.use (.expecting colon
    (.hold (value (_ :: vs)) fun v fine => .no (not_error fine) (.look Lasts.held_same fun object =>
      .leaveOut dry (fun _ => rfl) (.no (by decide) next))))))))

theorem skips_function (opening : k.next text = .leftParen)
    (names : Skips text m (call (.parameters false)) (k.pass text) k₁)
    (closing : k₁.next text = .rightParen) (brace : (k₁.pass text).next text = .leftBrace)
    (body : Skips text m (call (.block false)) ((k₁.pass text).advance text) k₂)
    (ending : k₂.next text = .rightBrace) : Skips text m functionLiteral k (k₂.pass text) := by
  have checked : Skips text m checkBody ((k₁.pass text).pass text) k₂ := by
    refine fun vs => .get fun e skims => .unuse (.inMode (Mode.eq_of_dry dry) ?_)
    rw [Place.unuse_pass]
    exact .call body fun v fine => .inMode skims.mode (.value fine)
  exact fun vs => .expecting opening (.get fun e skims => .check names fun v fine =>
    .expecting closing (.expecting brace (.check checked fun v fine => .tokenIs ending
      (.no (not_not.mpr rfl) (.use (.isDry dry (.yes rfl (.value (by decide)))))))))

/-- A choice up to its second branch. -/
theorem gets_choice {Q : Value × Engine → Prop} (opening : k.use.next text = .leftParen)
    (condition : Skips text m (call .expression) (k.use.pass text) k₁)
    (closing : k₁.next text = .rightParen) (first : Skips text m Routine.body (k₁.pass text) k₂)
    (next : ∀ taken v, v.Passive → Gets text m vs k₂.unuse
      (if k₂.use.next text = .keyword .elseKw then elseBranch taken false v else return v) Q) :
    Gets text m vs k Routine.choice Q := by
  refine .use (.expecting opening (.call condition fun v fine => .resolve fine
    (.no (not_error fine) (.expecting closing (.isTruthy fun taken => .isDry dry (.goDryIf dry
      (.check first fun v fine => .no (by simp) (.lookahead (next taken _ ?_)))))))))
  split
  · exact fine
  · decide

theorem skips_elseBranch {taken : Bool} {v : Value} (fine : v.Passive)
    (second : Skips text m Routine.body (k.use.pass text) k') :
    Skips text m (elseBranch taken false v) k.unuse k' := by
  refine fun vs => .use (.token (.use (.goDryIf dry (.check second fun u fine' =>
    .get fun e skims => .no (by simp) (.value ?_)))))
  split
  · exact fine
  · exact fine'

/-- A dry loop has no rounds. -/
theorem skips_rounds {marks : LoopMarks} (after : marks.after = k.pos) :
    Skips text m (call (.rounds m marks)) k k := by
  refine Skips.of_routine fun vs => .yes dry
    (.act (a := .undefined) (fun e skims r run => ?_) (.give (by decide)))
  have idle : leaveLoop marks e = .ok (.undefined, e) := by
    have same : { e with cursor := { e.cursor with pos := marks.after } } = e := by
      rw [after, ← skims.here]
      rfl
    show (if !e.mode.returned then _ else _ : Action Value) e = _
    cases e.mode.returned with
    | true => rfl
    | false =>
      show Except.ok (Value.undefined, { e with cursor := _ }) = _
      rw [same]
  cases idle.symm.trans run
  exact ⟨rfl, skims⟩

/-- The parts of a loop. -/
theorem skips_loopInScope (word : k.next text = .keyword .forKw)
    (opening : (k.pass text).next text = .leftParen)
    (start : Skips text m Routine.loopStart ((k.pass text).pass text) k₁)
    (first : k₁.next text = .semicolon)
    (condition : Skips text m (Routine.optional .semicolon) (k₁.pass text) k₂)
    (second : k₂.next text = .semicolon)
    (step : Skips text m (Routine.optional .rightParen) (k₂.pass text) k₃)
    (closing : k₃.next text = .rightParen) (body : Skips text m Routine.body (k₃.pass text) k₄) :
    Skips text m (loopInScope m) k k₄ :=
  fun vs => .expecting word (.expecting opening (.check start fun _ _ => .expecting first
    (.goDry dry (.get fun _ _ => .check condition fun _ _ => .expecting second
      (.get fun _ _ => .check step fun _ _ => .expecting closing (.get fun _ _ => .check body
        fun _ _ => .get fun _ skims =>
          skips_rounds dry (by exact congrArg Place.pos skims.here) vs))))))

theorem skips_loop (inner : Skips text m (loopInScope m) k k₁) :
    Skips text m Routine.loop k (.closed k₁.pos) := by
  refine fun vs => .get fun e skims => ?_
  rw [skims.mode]
  refine .yes dry (.known (.no (by decide) (.call inner fun v fine => .no ?_ (.inMode ?_
    (.yes ?_ ?_)))))
  · simp [dry]
  · simp only [Bool.or_self]
  · simp [fine.1]
  · exact .act (fun e skims r run => by cases run; exact ⟨rfl, skims.closed⟩) (.value fine)

end

/-- A dry run passes every phrase of the grammar. -/
theorem Derives.skips {text : ByteArray} {m : Mode} (dry : m.dry = true) {p : Phrase}
    {k k' : Place} (derives : Derives text p k k') : p.Skipped text m k k' := by
  have zero : Value.zero.Passive := by decide
  have undefined : Value.undefined.Passive := by decide
  induction derives with
  | expression _ whole =>
    exact .of_routine fun vs => .change (fun _ skims => skims.nested _) (.call whole fun v fine =>
      .change (fun _ skims => skims.nested _) (.give fine))
  | assignment _ _ left rest =>
    exact .of_routine fun vs => .call left fun v fine => .goOn (rest v fine)
  | assignmentRest sign _ _ right rest =>
    exact fun v fine => .of_routine fun vs => .no (not_error fine) (.tokenIs sign (.use
      (.holding right fun u fine' => .no (not_error fine')
        (.operands dry fine fine' (.goOn (rest _ zero))))))
  | assignmentEnd other =>
    refine fun v fine => .of_routine fun vs => .no (not_error fine) (.token ?_)
    split
    · next sign => exact absurd sign (other _)
    · exact .give fine
  | conditionalEnd _ other only =>
    exact .of_routine fun vs => .check only fun v fine => .token (.yes other (.give fine))
  | conditional _ question _ colon _ condition first second =>
    refine .of_routine fun vs => .check condition fun v fine => .tokenIs question
      (.no (not_not.mpr rfl) (.get fun e skims => .use (.resolve fine (.isTruthy fun truth => ?_))))
    rw [skims.mode]
    cases truth with
    | true =>
      refine .check first fun v fine => .goDry dry (.expecting colon
        (.call second fun u fine' => .inMode rfl ?_))
      rw [if_neg (not_error fine')]
      exact .give fine
    | false =>
      exact .goDry dry (.check first fun v fine => .expecting colon (.inMode rfl (.goOn second)))
  | @logical op k k₁ k' _ _ left rest =>
    have operand : Skips text m (call (Routine.operandOf op)) k k₁ := by
      cases op <;> exact left
    refine .of_routine fun vs => .check operand fun v fine => .get fun e skims => ?_
    rw [skims.mode]
    exact .goOn (rest v fine)
  | logicalRest sign _ _ right rest =>
    exact fun v fine => .of_routine fun vs => .tokenIs sign (.no (not_not.mpr rfl) (.use
      (.resolve fine (.isTruthy fun truth => .goDryIf dry (.isDry dry
        (.check right fun u _ => .goOn (rest v fine)))))))
  | logicalEnd other =>
    exact fun v fine => .of_routine fun vs => .token (.yes other (.inMode rfl (.give fine)))
  | binary _ _ left rest =>
    exact .of_routine fun vs => .call left fun v fine => .goOn (rest v fine)
  | binaryRest sign _ _ right rest =>
    refine fun v fine => .of_routine fun vs => .no (not_error fine) (.token ?_)
    rw [sign]
    exact .use (.holding right fun u fine' => .no (not_error fine')
      (.operands dry fine fine' (.goOn (rest _ zero))))
  | binaryEnd other =>
    refine fun v fine => .of_routine fun vs => .no (not_error fine) (.token ?_)
    rw [other]
    exact .give fine
  | prefixed sign _ operand =>
    refine .of_routine fun vs => .token ?_
    rw [sign]
    exact .use (.call operand fun v fine => .operands dry undefined fine (.give zero))
  | unary plain _ other value =>
    refine .of_routine fun vs => .token ?_
    rw [plain]
    exact .check (skips_stepped dry value) fun v fine => .token (.yes other (.give fine))
  | power plain _ sign _ value exponent =>
    refine .of_routine fun vs => .token ?_
    rw [plain]
    exact .check (skips_stepped dry value) fun v fine => .tokenIs sign (.no (not_not.mpr rfl)
      (.use (.holding exponent fun u fine' => .operands dry fine fine' (.give zero))))
  | access _ _ value rest =>
    refine .of_routine fun vs => .check value fun v fine => ?_
    split
    · exact .look (fun e r run => Lasts.textAt_same e r run) fun name =>
        .leaveOut dry (fun _ => rfl) (.goOn (rest _ zero))
    · exact .goOn (rest v fine)
  | property dot _ _ name rest =>
    exact fun v fine => .of_routine fun vs => .tokenIs dot (.use (.hold (name (v :: vs))
      fun u fine' => .operands dry fine fine' (.goOn (rest _ zero))))
  | call opening _ _ arguments rest =>
    exact fun v fine => .of_routine fun vs => .tokenIs opening (.check arguments fun u fine' =>
      .call (skips_applyCall dry fine fine') fun u fine => .goOn (rest u fine))
  | accessEnd dot opening =>
    refine fun v fine => .of_routine fun vs => .token ?_
    split
    · next sign => exact absurd sign dot
    · next sign => exact absurd sign opening
    · exact .give fine
  | parenthesized opening _ closing inner =>
    exact fun vs => .tokenIs opening (.no (not_not.mpr rfl) (.use (.check inner fun v fine =>
      .tokenIs closing (.no (not_not.mpr rfl) (.use (.value fine))))))
  | group opening _ only => exact fun vs => .token (.yes opening (only vs))
  | atom atom sound => exact skips_atom dry atom sound
  | objectLiteral opening _ rest =>
    refine fun vs => .token (.noteUse (.get fun _ skims => .no skims.not_tooDeep (.use
      (.get fun e skims => ?_))))
    simp only [skims.token_eq.trans opening]
    exact rest vs
  | functionLiteral word _ rest =>
    refine fun vs => .token (.noteUse (.get fun _ skims => .no skims.not_tooDeep (.use
      (.get fun e skims => ?_))))
    simp only [skims.token_eq.trans word]
    exact rest vs
  | object _ closing all =>
    exact fun vs => .isDry dry (.yes rfl (.known (.no (by decide) (.hold (all (_ :: vs))
      fun v fine => .no (not_error fine) (.expecting closing (.tail (.value zero)))))))
  | membersEnd closing => exact .of_routine fun vs => .tokenIs closing (.yes rfl (.give undefined))
  | lastMember key sound colon _ closing value =>
    exact .of_routine fun vs => gets_member dry key sound colon value (gets_end closing)
  | member key sound colon _ comma _ value rest =>
    exact .of_routine fun vs => gets_member dry key sound colon value
      (gets_comma comma (by decide) rest)
  | function opening _ closing brace _ ending names body =>
    exact skips_function dry opening names closing brace body ending
  | parametersCut isOver => exact .of_routine fun vs => .tokenIs isOver (.yes rfl (.give undefined))
  | noParameters closing =>
    exact .of_routine fun vs => .tokenIs closing (.no (by decide) (.yes rfl (.give undefined)))
  | lastParameter name closing =>
    exact .of_routine fun vs => gets_parameter name (gets_end closing)
  | parameter name comma _ rest =>
    exact .of_routine fun vs => gets_parameter name (gets_comma comma (by decide) rest)
  | arguments _ closing list =>
    exact fun vs => .get fun _ _ => .get fun _ skims => .goDry dry (.use (.call list fun v fine =>
      .inMode skims.mode (.no (not_error fine) (.expecting closing (.get fun _ _ =>
        .value (passive_span _ _))))))
  | argumentsCut isOver => exact .of_routine fun vs => .tokenIs isOver (.yes rfl (.give undefined))
  | noArguments closing =>
    exact .of_routine fun vs => .tokenIs closing (.no (by decide) (.yes rfl (.give undefined)))
  | lastArgument more _ opening closing value =>
    exact .of_routine fun vs => gets_argument more opening value (gets_end closing)
  | argument more _ opening comma _ value rest =>
    exact .of_routine fun vs => gets_argument more opening value
      (gets_comma comma (by decide) rest)
  | statement _ ending whole =>
    refine .of_routine fun vs => .collectIfDue dry (.check whole fun v fine => .token (.no ?_
      (.use (.give fine))))
    simp [ending]
  | jump word =>
    simp only [isJump, Bool.or_eq_true, decide_eq_true_eq] at word
    rcases word with word | word <;> exact fun vs => .tokenIs word (skips_jump dry vs)
  | declaration word _ names => exact fun vs => .tokenIs word (.isDry dry (.use (names vs)))
  | choiceStatement word _ whole => exact fun vs => .tokenIs word (whole vs)
  | loopStatement word _ whole => exact fun vs => .tokenIs word (whole vs)
  | returnStatement word _ value =>
    refine fun vs => .tokenIs word (.get fun e skims => .use ?_)
    simp only [skims.mode, dry]
    exact .check value fun v fine => .value fine
  | blockStatement brace _ whole => exact fun vs => .tokenIs brace (.isDry dry (whole vs))
  | expressionStatement opens _ whole => exact skips_openExpression opens whole
  | block _ rest =>
    refine .of_routine fun vs => ?_
    show Gets text m vs _ (Routine.block false) _
    unfold Routine.block
    exact .no Bool.false_ne_true (.known (.no (by decide) (.use (.call (rest _ undefined)
      fun v fine => .no Bool.false_ne_true (.give fine)))))
  | blockEnd ending =>
    refine fun v fine => .of_routine fun vs => .token (.yes ?_ (.give fine))
    simpa using .inl ending
  | blockRest more open' _ semicolon _ first rest =>
    refine fun v fine => .of_routine fun vs => .token (.no ?_ (.call first fun u fine' =>
      .get fun e skims => .no ?_ (.goOn (rest u fine'))))
    · simp [more, open', fine.1]
    · rw [skims.token_eq]
      simp only [Bool.and_eq_true, decide_eq_true_eq]
      tauto
  | bodyBlock brace _ whole =>
    exact fun vs => .tokenIs brace (.yes rfl (.isDry dry (whole vs)))
  | body brace _ _ only =>
    exact fun vs => .token (.no brace (.call only fun v fine => .resolve fine
      (.unuse (.value fine))))
  | lastBinding name _ ending value =>
    refine .of_routine fun vs => gets_binding name value (.token (.yes ?_ (.give undefined)))
    simpa using ending
  | binding name _ comma _ value rest =>
    exact .of_routine fun vs => gets_binding name value
      (.tokenIs comma (.no (by decide) (.expectingSeen comma (.goOn rest))))
  | initializer sign _ value => exact fun vs => .tokenIs sign (.yes rfl (.use (value vs)))
  | noInitializer sign => exact fun vs => .token (.no sign (.value undefined))
  | choice opening _ closing _ other condition first =>
    exact fun vs => gets_choice dry opening condition closing first fun taken v fine =>
      .no other (.value fine)
  | choiceElse opening _ closing _ word _ condition first second =>
    exact fun vs => gets_choice dry opening condition closing first fun taken v fine =>
      .yes word (skips_elseBranch dry fine second vs)
  | loop word opening _ first _ second _ closing _ start condition step body =>
    exact skips_loop dry (skips_loopInScope dry word opening start first condition second step
      closing body)
  | noStart sign => exact fun vs => .tokenIs sign (.value undefined)
  | startBindings word _ names => exact fun vs => .tokenIs word (.isDry dry (.use (names vs)))
  | startExpression sign word _ whole =>
    refine fun vs => .token ?_
    split
    · next found => exact absurd found sign
    · next found => exact absurd found word
    · exact whole vs
  | absent sign => exact fun vs => .tokenIs sign (.yes rfl (.value undefined))
  | present sign _ whole => exact fun vs => .token (.no sign (whole vs))
  | noValue ending => exact fun vs => .token (.yes ending (.value undefined))
  | value more _ whole =>
    exact fun vs => .token (.no (Bool.eq_false_iff.mp more) (.call whole fun v fine =>
      .tail (.resolve fine (.value fine))))
  | scriptEnd | script => trivial

end Grammar

end ArenaScript
