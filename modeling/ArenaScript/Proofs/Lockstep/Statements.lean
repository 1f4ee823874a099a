import ArenaScript.Evaluate.Statement
import ArenaScript.Proofs.Lockstep.Calls
import ArenaScript.Proofs.Lockstep.Collection

/-!
# Statements in step

The routines of statements on engines that agree.  Each statement may start with
a collection, so nothing that is related before one is related afterwards,
unless it is held or the run is dry.

Main results:

- `Alike.block`, `Alike.bindings`, `Alike.rounds`: blocks, declarations and loops.
- `Alike.statement`: a statement, with the collections before it.
- `Alike.evaluate`: the evaluation of a text.
-/

namespace ArenaScript.Lockstep

open Engine Routine Grammar

variable {ι : Type} [Rules ι] {w : World ι} {s : Standing ι} {c : Current} {e : ι → Engine}

namespace Passed

variable {text : ByteArray} {mode : Mode} {phrase phrase' : Phrase} {k k' : Place} {c c₁ : Current}

/-- A phrase of expressions was passed. -/
theorem ofRead (read : Read text mode phrase k c)
    (whole : Derives text phrase k (c.spot.place text) →
      Derives text phrase' k' (c.spot.place text)) : Passed text mode phrase' k' c :=
  ⟨read.1 ▸ .refl _, fun _ => whole read.2⟩

theorem mono (passed : Passed text mode phrase k c)
    (whole : Derives text phrase k (c.spot.place text) →
      Derives text phrase' k' (c.spot.place text)) : Passed text mode phrase' k' c :=
  ⟨passed.leads, fun h => whole (passed.derives h)⟩

/-- One phrase after the other. -/
theorem trans {phrase₂ : Phrase} {k₀ : Place} {c₂ : Current} (first : Passed text mode phrase k c₁)
    (second : Passed text c₁.mode phrase' k' c₂)
    (whole : Derives text phrase k (c₁.spot.place text) →
      Derives text phrase' k' (c₂.spot.place text) →
      Derives text phrase₂ k₀ (c₂.spot.place text)) : Passed text mode phrase₂ k₀ c₂ where
  leads := first.leads.trans second.leads
  derives h := by
    have first' : mode.dry = true ∨ c₁.mode.returned = false :=
      h.imp_right second.leads.returned_eq_false
    have second' : c₁.mode.dry = true ∨ c₂.mode.returned = false :=
      h.imp_left fun dry => by rw [first.leads.eq_of_dry dry, dry]
    exact whole (first.derives first') (second.derives second')

end Passed

omit [Rules ι] in
/-- A value that is no error was none before it was resolved. -/
theorem Tag.sane_of_resolved {tag tag' : Tag} {v v' : ι → Value}
    (same : tag.kind ≠ .property → tag' = tag ∧ v' = v) (sane : tag'.isError = false) :
    tag.isError = false := by
  by_contra error
  have error : tag.isError = true := Bool.not_eq_false _ ▸ error
  have kind : tag.kind = .error := by rwa [Tag.isError, beq_iff_eq] at error
  rw [(same (by rw [kind]; decide)).1, error] at sane
  cases sane

omit [Rules ι] in
/-- A dry run stays dry. -/
theorem Standing.Open.after {mode mode' : Mode} (isOpen : s.Open mode) (leads : mode.Leads mode') :
    s.Open mode' :=
  isOpen.imp_left fun dry => by rw [leads.eq_of_dry dry, dry]

namespace Alike

/-! ## Blocks -/

variable (alike : Alike w s c e) {v : ι → Value}
include alike

/-- The statements of a block, without its scope. -/
theorem block [Nonempty ι] (inScope : Bool) (isOpen : inScope = false → s.Open c.mode) :
    Together LostNext (Goes w (.passing s c .block)) fun i => Routine.block inScope (e i) := by
  have sane : Value.undefined.isError = false := by decide
  simp only [Routine.block, Routine.steps]
  cases inScope with
  | false =>
    obtain ⟨e₁, use, alike₁⟩ := alike.use
    simp only [sane, use, Routine.steps]
    refine .afterCall (.blockRest (World.related_undefined w) Tag.isPlain_undefined
      (by exact fun _ => isOpen rfl)) alike₁ fun w₂ c₂ tag v e₂ alike₂ since₂ related given => ?_
    exact .give alike₂ rfl since₂ related (given.mono id fun _ read => read.2.mono fun rest =>
      .block rest)
  | true =>
    simp only [if_true]
    refine alike.inScope (.next _ _) rfl (.refl w c)
      fun w₁ c₁ age _ e₁ alike₁ spares mode spot since₁ => ?_
    obtain ⟨e₂, use, alike₂⟩ := alike₁.use
    simp only [use, Routine.steps]
    refine .afterCall (.blockRest (World.related_undefined w₁) Tag.isPlain_undefined
      fun _ => .inr spares) alike₂ fun w₃ c₃ tag v e₃ alike₃ since₃ related given => ?_
    obtain ⟨e₄, left, alike₄⟩ := alike₃.leaveScope
    simp only [left, Routine.steps]
    refine .give alike₄ rfl (since₁.trans since₃) related (given.mono id fun _ read => ?_)
    have passed := read.2
    simp only [mode, spot] at passed
    exact passed.mono fun rest => .block rest

theorem blockRest {tag : Tag} (related : w.Related tag v)
    (plain : tag.IsPlain) (isOpen : tag.isError = false → s.Open c.mode) :
    Together LostNext (Goes w (.plain s c.mode
        (PassedAfter tag s.ground.text c.mode .blockRest (c.spot.place s.ground.text))))
      fun i => Routine.blockRest (v i) (e i) := by
  obtain ⟨e₁, token, alike₁⟩ := alike.token
  have next := c.spot.next_place s.ground.text
  have place := c.spot.place_advance s.ground.text
  simp only [Routine.blockRest, Routine.steps, token, related.isError]
  generalize c.spot.advance s.ground.text = u at next place alike₁
  by_cases isOver : (decide (u.token = .eof) || decide (u.token = .rightBrace) || tag.isError) = true
  · simp only [isOver, if_true]
    refine .give alike₁ rfl (.refl w c) related ⟨plain, fun sane => ⟨sane, .refl _, fun _ => ?_⟩⟩
    rw [place]
    refine .blockEnd ?_
    simpa [sane, next] using isOver
  obtain ⟨⟨more, open'⟩, sane⟩ : (u.token ≠ .eof ∧ u.token ≠ .rightBrace) ∧ tag.isError = false := by
    simpa using isOver
  simp only [isOver, Routine.steps]
  have isOpen := isOpen sane
  refine .afterCall (.statement (by exact isOpen)) alike₁
    fun w₂ c₂ tag' v' e₂ alike₂ since₂ related' given' => ?_
  simp only [related'.isError, alike₂.lastToken]
  by_cases bare : (!tag'.isError && decide (u.token ≠ .leftBrace)
      && decide (u.token ≠ .keyword .ifKw) && decide (c₂.spot.token ≠ .semicolon)) = true
  · simp only [bare, if_true]
    exact alike₂.failing (.next _ _) .semicolonExpected rfl since₂
  · simp only [bare, Routine.steps]
    refine .goOn (.blockRest related' given'.1 fun sane' => isOpen.after (given'.2 sane').leads)
      alike₂ (fun _ same => same) since₂ fun _ _ given => given.mono id fun _ rest => ⟨sane, ?_⟩
    obtain ⟨sane', rest⟩ := rest
    have semicolon : u.token = .leftBrace ∨ u.token = .keyword .ifKw
        ∨ c₂.spot.token = .semicolon := by
      simp only [sane', Bool.not_false, Bool.true_and, Bool.and_eq_true, decide_eq_true_eq] at bare
      tauto
    have first := given'.2 sane'
    rw [place] at first
    rw [← next] at more open' semicolon
    exact first.trans rest fun first rest => .blockRest more open' first semicolon rest

/-- A block or a single statement. -/
theorem body (isOpen : s.Open c.mode) :
    Together LostValue (Out w (.passing s c .body)) fun i => Routine.body (e i) := by
  obtain ⟨e₁, token, alike₁⟩ := alike.token
  have next := c.spot.next_place s.ground.text
  simp only [Routine.body, Routine.steps, token]
  by_cases brace : (c.spot.advance s.ground.text).token = .leftBrace
  · simp only [brace, alike₁.isDry, Routine.steps]
    refine Together.within (.call alike₁ (.block _ fun _ => isOpen)) rfl (Since.refl w c)
      fun _ _ given => given.mono id fun _ passed => ?_
    rw [Spot.place_advance] at passed
    exact passed.mono fun whole => .bodyBlock (next.trans brace) whole
  · simp only [brace, if_false]
    refine .afterCall (.statement (by exact isOpen)) alike₁
      fun w₂ c₂ tag v e₂ alike₂ since₂ related given => ?_
    obtain ⟨t, r, resolved, rr, plain, same⟩ := alike₂.resolve related
    obtain ⟨e₃, unused, alike₃⟩ := alike₂.unuse
    simp only [resolved, unused, Routine.steps]
    refine .done alike₃ rfl since₂ rr ⟨plain given.1.isOperand, fun sane => ?_⟩
    have passed := given.2 (Tag.sane_of_resolved same sane)
    rw [Spot.place_advance] at passed
    exact ⟨passed.leads, fun h => .body (next ▸ brace) (passed.derives h) nofun⟩

/-- An expression as a plain value. -/
theorem plainExpression : Together LostValue (Out w (.listing s c .expression)) fun i =>
      (Routine.call .expression (e i)).bind fun r => .ofExcept (Engine.resolve r.1 r.2) := by
  refine .afterCall .expression alike fun w₁ c₁ tag v e₁ alike₁ since₁ related given => ?_
  obtain ⟨t, r, resolved, rr, plain, same⟩ := alike₁.resolve related
  simp only [resolved, Routine.steps]
  exact .done alike₁ rfl since₁ rr
    ⟨plain given.1, fun sane => given.2 (Tag.sane_of_resolved same sane)⟩

/-! ## Declarations -/

/-- Names are declared in the active scopes. -/
theorem declare [Nonempty ι] (name : ByteArray)
    (short : Strict ι → name.size + 8 < 2 ^ 32) {tag : Tag}
    (related : w.Related tag v) (operand : tag.IsOperand) (spares : s.Spares s.registers.scope) :
    Together LostValue (Placed w s c fun _ => True)
      fun i => .ofExcept (Routine.declare name (v i) (e i)) := by
  obtain ⟨found, run, link⟩ := alike.findProperty name alike.scope
  simp only [Routine.declare, Action.steps, run]
  rcases alike.property_cases link with none | ⟨some, -⟩
  · obtain ⟨t, r, resolved, rr, plain, -⟩ := alike.resolve related
    simp only [none, ne_eq, not_true_eq_false, if_false, resolved, Action.steps]
    refine (alike.newString name short).andThen ?_ fun i r lost => .inr ⟨r, ?_, lost⟩
    · intro w' c' t' key e' le alike' unmoved rk given
      simp only [rk.isError]
      by_cases error : t'.isError = true
      · simp only [error, if_true]
        exact .placed le alike' unmoved rk trivial
      · obtain rfl := given.resolve_right error
        simp only [error, Routine.steps]
        have target : w'.rel (.object s.registers.scope)
            fun i => (Value.ref .object (e i).scope).offset := by
          simp only [Value.offset_ref]
          exact le _ _ alike.scope
        obtain ⟨names, placed⟩ := alike'.newProperty target spares rk (rr.mono le) (plain operand)
        exact (placed.later le unmoved.mode (unmoved.spot (Bool.eq_false_iff.mpr error))).weaken
          fun _ _ => trivial
    · rw [if_pos lost.1]
  · simp only [some, ne_eq, not_false_eq_true, if_true]
    exact alike.failAll (.alreadyDeclared name) fun _ _ => trivial

/-- The value of a declared name. -/
theorem initializer :
    Together LostValue (Out w (.reading s c .initializer)) fun i => Routine.initializer (e i) := by
  obtain ⟨e₁, token, alike₁⟩ := alike.token
  have next := c.spot.next_place s.ground.text
  simp only [Routine.initializer, Routine.steps, token]
  by_cases sign : (c.spot.advance s.ground.text).token = .assign none
  · obtain ⟨e₂, use, alike₂⟩ := alike₁.use
    simp only [sign, use, Routine.steps]
    refine Together.within (.call alike₂ .expression) rfl (Since.refl w c) fun _ _ given =>
      given.mono id fun _ read => ⟨read.1, ?_⟩
    have value := read.2
    rw [← Spot.pass_place] at value
    exact .initializer (next.trans sign) value
  · simp only [sign, if_false]
    refine .done alike₁ rfl (.refl w c) (World.related_undefined w)
      ⟨Tag.isPlain_undefined.isOperand, fun _ => ⟨rfl, ?_⟩⟩
    rw [Spot.place_advance]
    exact .noInitializer (next ▸ sign)

theorem bindings [Nonempty ι] (execute : Bool)
    (spares : execute = true → s.Spares s.registers.scope) :
    Together LostNext (Goes w (.listing s c .bindings)) fun i => Routine.bindings execute (e i) := by
  obtain ⟨name, u, e₁, expect, alike₁, found₁⟩ := alike.expectAt .ident
  simp only [Routine.bindings, Routine.steps, expect]
  cases name with
  | false => exact alike₁.failing (.next _ _) .malformed rfl (.refl w c)
  | true =>
  obtain ⟨name, here⟩ := found₁ rfl
  have name := (Spot.next_place _ _).trans name
  simp only [Routine.steps, alike₁.tokenStart, alike₁.tokenLength]
  have inside : u.tokenStart + u.tokenLength ≤ s.ground.text.size := alike₁.cursor.inside.token
  refine .checked (.next _ _) alike₁.initializer rfl (Since.refl w c) ?_
  intro w₂ c₂ tag v e₂ alike₂ _ since₂ rv ⟨operand, read₂⟩ sane₂
  obtain ⟨mode₂, value⟩ := read₂ sane₂
  simp only [here, ← Spot.pass_place] at value
  -- the declaration, if it is executed
  have declared : Together LostValue (Placed w₂ s c₂ fun _ => True) fun i =>
      if execute = true then Progress.ofExcept (Routine.declare
        (s.ground.text.extract u.tokenStart (u.tokenStart + u.tokenLength)) (v i) (e₂ i))
      else .finished (Value.undefined, e₂ i) := by
    cases execute with
    | true => exact alike₂.declare _ (alike₂.part_short _ _) rv operand (spares rfl)
    | false => exact alike₂.placedOther (by decide) trivial
  simp only [alike₂.textAt inside, Routine.steps]
  refine .joinElse (a := fun i => (Value.undefined, e₂ i)) ?_
  refine .checkedThen (.next _ _) declared rfl since₂ ?_
  intro w₃ c₃ _ _ e₃ _ alike₃ unmoved since₃ _ _ sane₃
  have mode₃ : c₃.mode = c.mode := unmoved.mode.trans mode₂
  rw [← unmoved.spot sane₃] at value
  obtain ⟨e₄, token, alike₄⟩ := alike₃.token
  have next₃ := c₃.spot.next_place s.ground.text
  simp only [token, Routine.steps]
  by_cases isOver : (decide ((c₃.spot.advance s.ground.text).token = .semicolon)
      || decide ((c₃.spot.advance s.ground.text).token = .eof)) = true
  · simp only [isOver, if_true]
    refine .give alike₄ rfl since₃ (World.related_undefined w₃)
      ⟨Tag.isPlain_undefined, fun _ => ⟨mode₃, ?_⟩⟩
    rw [Spot.place_advance]
    refine .lastBinding name value ?_
    rw [next₃]
    simpa using isOver
  obtain ⟨comma, u', e₅, expect, alike₅, found₅⟩ := alike₄.expectAt .comma
  simp only [isOver, expect, Routine.steps]
  cases comma with
  | false => exact alike₅.failing (.next _ _) .malformed rfl since₃
  | true =>
    obtain ⟨comma, rfl⟩ := found₅ rfl
    simp only [Spot.advance_of_seen (Spot.consumed_advance _ _)] at comma alike₅
    refine .goOn (.bindings execute spares) alike₅ (fun _ same => same) since₃ fun _ _ given =>
      given.mono id fun _ read => ⟨read.1.trans mode₃, ?_⟩
    have rest := read.2
    rw [← Spot.pass_place] at rest
    exact .binding name value (next₃.trans comma) rest

theorem declaration (isOpen : s.Open c.mode) : Together LostValue (Out w (.plain s c.mode
        (Read s.ground.text c.mode .bindings (c.spot.use.place s.ground.text))))
      fun i => Routine.declaration (e i) := by
  obtain ⟨e₁, use, alike₁⟩ := alike.use
  simp only [Routine.declaration, Routine.steps, alike.isDry, use]
  exact .call alike₁ (.bindings _ fun wet => isOpen.spares ((Bool.not_eq_true' _).mp wet))

/-! ## Choices -/

/-- The second branch of a choice was passed.  What has returned before is not
undone. -/
structure PassedElse (text : ByteArray) (mode : Mode) (k : Place) (c₀ c : Current) : Prop where
  passed : Passed text mode .body k c
  returned : c₀.mode.returned = true → c.mode.returned = true

/-- The second branch of a choice.  If the first one was taken, its value stays
related, since the second one is only read. -/
theorem elseBranch {w₀ : World ι} {mode : Mode}
    (since : Since (mode.dry = true) w₀ w c) (taken : Bool) (leads : mode.Leads c.mode)
    (still : taken = false → c.mode = mode) {tag : Tag} (related : w.Related tag v)
    (plain : tag.IsPlain) (isOpen : taken = false → s.Open c.mode) :
    Together LostValue (Out w₀ (.plain s mode (PassedElse s.ground.text mode
        ((c.spot.use.place s.ground.text).pass s.ground.text) c)))
      fun i => Routine.elseBranch taken (!mode.dry) (v i) (e i) := by
  obtain ⟨e₁, use₁, alike₁⟩ := alike.use
  obtain ⟨e₂, token, alike₂⟩ := alike₁.token
  obtain ⟨e₃, use₃, alike₃⟩ := alike₂.use
  have pass := c.spot.use.pass_place s.ground.text
  simp only [Routine.elseBranch, Routine.steps, use₁, token, use₃]
  cases taken with
  | true =>
    obtain ⟨e₄, dried, alike₄⟩ := alike₃.goDry
    simp only [dried, Routine.steps]
    refine .checked (.value _ _) (alike₄.body (.inl rfl)) rfl (fun h => ⟨(since h).1, rfl⟩) ?_
    intro w₅ c₅ _ _ e₅ alike₅ before since₅ _ ⟨_, read⟩ sane₅
    have passed := read sane₅
    rw [← pass] at passed
    have mode₅ : c₅.mode = { c.mode with dry := true } := passed.leads.eq_of_dry rfl
    have le : w.Le w₅ := (before rfl).1
    simp only [alike₅.mode, Bool.true_and]
    by_cases leave : (!mode.dry && !c₅.mode.isSkipping) = true
    · obtain ⟨e₆, changed, alike₆⟩ := alike₅.changeMode (fun m => { m with dry := false })
        alike₅.free
      obtain ⟨awake, -⟩ : mode.dry = false ∧ c₅.mode.isSkipping = false := by simpa using leave
      simp only [leave, changed, Routine.steps]
      refine .done alike₆ rfl (fun h : mode.dry = true => ?_) (related.mono le)
        ⟨plain, fun _ => ⟨⟨?_, fun _ => passed.derives (.inl rfl)⟩, fun h => ?_⟩⟩
      · rw [awake] at h
        cases h
      · simp only [mode₅]
        refine ⟨leads.inLoop, leads.inCall, fun h => ?_, leads.returned, leads.outside⟩
        rw [leads.settled h, ← awake]
      · simp only [mode₅]
        exact h
    · simp only [leave, Routine.steps]
      refine .done alike₅ rfl since₅ (related.mono le)
        ⟨plain, fun _ => ⟨⟨?_, fun _ => passed.derives (.inl rfl)⟩, fun h => ?_⟩⟩
      · have skips : mode.dry = true ∨ c.mode.isSkipping = true := by
          have same : c₅.mode.isSkipping = c.mode.isSkipping := by rw [mode₅]; rfl
          rw [same] at leave
          cases dry : mode.dry <;> simp_all
        rw [mode₅]
        refine ⟨leads.inLoop, leads.inCall, fun h => ?_, leads.returned, leads.outside⟩
        have same := leads.settled h
        rw [same] at skips ⊢
        rcases skips with dry | skips
        · rw [← dry]
        · rcases h with dry | ⟨-, -, calm⟩
          · rw [← dry]
          · rw [calm] at skips
            cases skips
      · rw [mode₅]
        exact h
  | false =>
    have same := still rfl
    simp only [Routine.steps, Bool.false_and]
    refine .checked (.value _ _) (alike₃.body (isOpen rfl)) rfl since ?_
    intro w₄ c₄ tag' v' e₄ alike₄ _ since₄ related' given' _
    refine .done alike₄ rfl since₄ related' (given'.mono id fun _ passed => ?_)
    rw [← pass, same] at passed
    exact ⟨passed, fun h => passed.leads.returned (same ▸ h)⟩

/-- A choice.  The branch that is not taken is only read. -/
theorem choice (isOpen : s.Open c.mode) :
    Together LostValue (Out w (.passing s c .choice)) fun i => Routine.choice (e i) := by
  obtain ⟨e₁, use₁, alike₁⟩ := alike.use
  obtain ⟨paren, u, e₂, expect, alike₂, found₂⟩ := alike₁.expectAt .leftParen
  simp only [Routine.choice, Routine.steps, use₁, expect]
  cases paren with
  | false => exact alike₂.failing (.value _ _) .malformed rfl (.refl w c)
  | true =>
  obtain ⟨opening, rfl⟩ := found₂ rfl
  have opening := (Spot.next_place _ _).trans opening
  simp only [Routine.steps]
  refine .afterCall .expression alike₂ fun w₃ c₃ t r e₃ alike₃ since₃ rr given₃ => ?_
  obtain ⟨tag, v, resolved, rv, plain, same⟩ := alike₃.resolve rr
  simp only [resolved, Routine.steps, rv.isError]
  by_cases error : tag.isError = true
  · simp only [error, if_true]
    exact .done alike₃ rfl since₃ rv (.plain_of_isError error)
  obtain ⟨mode₃, condition⟩ :=
    given₃.2 (Tag.sane_of_resolved same (Bool.eq_false_iff.mpr error))
  rw [← Spot.pass_place] at condition
  obtain ⟨paren, u₄, e₄, expect, alike₄, found₄⟩ := alike₃.expectAt .rightParen
  simp only [error, expect, Routine.steps]
  cases paren with
  | false => exact alike₄.failing (.value _ _) .malformed rfl since₃
  | true =>
  obtain ⟨closing, rfl⟩ := found₄ rfl
  have closing := (Spot.next_place _ _).trans closing
  obtain ⟨taken, truthy⟩ := alike₄.isTruthy rv
  simp only [truthy, Routine.steps, alike₄.isDry, mode₃]
  -- the phrase ends with its first branch, or with the second one
  have stop : ∀ {u : Spot} {c' : Current}, Derives s.ground.text .body
        ((c₃.spot.place s.ground.text).pass s.ground.text) (u.place s.ground.text) →
      (u.use.advance s.ground.text).token ≠ .keyword .elseKw → c'.spot = u.unuse →
      Derives s.ground.text .choice (c.spot.place s.ground.text) (c'.spot.place s.ground.text) := by
    intro u c' first other here
    rw [here, Spot.place_unuse]
    exact .choice opening condition closing first (by rwa [← Spot.place_use, Spot.next_place])
  have goOn : ∀ {u : Spot} {c' : Current}, Derives s.ground.text .body
        ((c₃.spot.place s.ground.text).pass s.ground.text) (u.place s.ground.text) →
      (u.use.advance s.ground.text).token = .keyword .elseKw →
      Derives s.ground.text .body ((u.unuse.use.place s.ground.text).pass s.ground.text)
        (c'.spot.place s.ground.text) →
      Derives s.ground.text .choice (c.spot.place s.ground.text) (c'.spot.place s.ground.text) := by
    intro u c' first other second
    exact .choiceElse opening condition closing first
      (by rwa [← Spot.place_use, Spot.next_place]) second
  cases taken with
  | true =>
    simp only [Routine.steps]
    refine .checked (.value _ _) (alike₄.body (mode₃ ▸ isOpen)) rfl since₃ ?_
    intro w₅ c₅ tag' v' e₅ alike₅ _ since₅ related' ⟨plain', read⟩ sane
    have first := read sane
    simp only [mode₃, ← Spot.pass_place] at first
    obtain ⟨e₆, lookahead, alike₆⟩ := alike₅.lookahead
    simp only [Bool.not_true, Bool.and_false, if_true, lookahead,
      Routine.steps]
    by_cases other : (c₅.spot.use.advance s.ground.text).token = .keyword .elseKw
    · simp only [other, if_true]
      refine (alike₆.elseBranch since₅ true first.leads nofun related' plain' nofun).within rfl
        (fun h => ⟨.refl w, h⟩) fun c' _ given => given.mono id fun _ both => ?_
      refine ⟨both.passed.leads, fun h => goOn (first.derives ?_) other (both.passed.derives h)⟩
      refine h.imp_right fun calm => Bool.eq_false_iff.mpr fun returned => ?_
      rw [both.returned returned] at calm
      cases calm
    · simp only [other, if_false]
      exact .done alike₆ rfl since₅ related'
        ⟨plain', fun _ => ⟨first.leads, fun h => stop (first.derives h) other rfl⟩⟩
  | false =>
    obtain ⟨e₅, dried, alike₅⟩ := alike₄.goDry
    simp only [dried, Routine.steps]
    refine .checked (.value _ _) (alike₅.body (.inl rfl)) rfl (fun h => ⟨(since₃ h).1, rfl⟩) ?_
    intro w₆ c₆ _ _ e₆ alike₆ _ since₆ _ ⟨_, read⟩ sane
    have first := read sane
    simp only [mode₃, ← Spot.pass_place] at first
    have mode₆ : c₆.mode = { c.mode with dry := true } := first.leads.eq_of_dry rfl
    have first := first.derives (.inl rfl)
    -- the branch that was read is left behind
    refine .joinElse (a := fun i => ((), e₆ i)) ?_
    obtain ⟨e₇, woken, alike₇⟩ : ∃ e₇ : ι → Engine, (∀ i,
        (if (!c.mode.dry && !false) = true then
          Progress.ofExcept (Engine.changeMode (fun m => { m with dry := false }) (e₆ i))
        else .finished ((), e₆ i)) = .finished ((), e₇ i))
        ∧ Alike w₆ s { c₆ with mode := c.mode } e₇ := by
      cases dry : c.mode.dry with
      | false =>
        obtain ⟨e₇, changed, alike₇⟩ :=
          alike₆.changeMode (fun m => { m with dry := false }) alike₆.free
        have same : { c₆.mode with dry := false } = c.mode := by rw [mode₆, ← dry]
        refine ⟨e₇, fun i => ?_, same ▸ alike₇⟩
        rw [if_pos (show (!false && !false) = true from rfl), changed]
        rfl
      | true =>
        have same : c₆.mode = c.mode := by rw [mode₆, ← dry]
        exact ⟨e₆, fun i => if_neg nofun, same ▸ alike₆⟩
    have since₇ : Since (c.mode.dry = true) w w₆ { c₆ with mode := c.mode } :=
      fun h => ⟨(since₆ h).1, h⟩
    obtain ⟨e₈, lookahead, alike₈⟩ := alike₇.lookahead
    simp only [woken, lookahead, Routine.steps]
    have undefined := World.related_undefined w₆
    by_cases other : (c₆.spot.use.advance s.ground.text).token = .keyword .elseKw
    · simp only [other, if_true]
      refine (alike₈.elseBranch since₇ false (.refl _) (fun _ => rfl) undefined
        Tag.isPlain_undefined fun _ => isOpen).within rfl (fun h => ⟨.refl w, h⟩)
        fun c' _ given => given.mono id fun _ both => ?_
      exact ⟨both.passed.leads, fun h => goOn first other (both.passed.derives h)⟩
    · simp only [other, if_false]
      exact .done alike₈ rfl since₇ undefined
        ⟨Tag.isPlain_undefined, fun _ => ⟨.refl _, fun _ => stop first other rfl⟩⟩

/-! ## Loops -/

/-- An expression, unless a token stands in its place. -/
theorem optional (t : Token) :
    Together LostValue (Out w (.reading s c (.optional t))) fun i => Routine.optional t (e i) := by
  obtain ⟨e₁, token, alike₁⟩ := alike.token
  have next := c.spot.next_place s.ground.text
  simp only [Routine.optional, Routine.steps, token]
  by_cases there : (c.spot.advance s.ground.text).token = t
  · simp only [there, if_true]
    refine .done alike₁ rfl (.refl w c) (World.related_undefined w)
      ⟨Tag.isPlain_undefined.isOperand, fun _ => ⟨rfl, ?_⟩⟩
    rw [Spot.place_advance]
    exact .absent (next.trans there)
  · simp only [there, if_false]
    refine Together.within (.call alike₁ .expression) rfl (Since.refl w c) fun _ _ given =>
      given.mono id fun _ read => ⟨read.1, ?_⟩
    have whole := read.2
    rw [Spot.place_advance] at whole
    exact .present (next ▸ there) whole

/-- The first part of a loop. -/
theorem loopStart (isOpen : s.Open c.mode) :
    Together LostValue (Out w (.reading s c .loopStart)) fun i => Routine.loopStart (e i) := by
  obtain ⟨e₁, token, alike₁⟩ := alike.token
  have next := c.spot.next_place s.ground.text
  simp only [Routine.loopStart, Routine.steps, token]
  have other : (c.spot.place s.ground.text).next s.ground.text ≠ .semicolon →
      (c.spot.place s.ground.text).next s.ground.text ≠ .keyword .letKw →
      Together LostValue (Out w (.reading s c .loopStart))
        fun i => Routine.call .expression (e₁ i) := fun sign word => by
    refine Together.within (.call alike₁ .expression) rfl (Since.refl w c) fun _ _ given =>
      given.mono id fun _ read => ⟨read.1, ?_⟩
    have whole := read.2
    rw [Spot.place_advance] at whole
    exact .startExpression sign word whole
  generalize (c.spot.advance s.ground.text).token = t at next
  rw [next] at other
  cases t
  case semicolon =>
    refine .done alike₁ rfl (.refl w c) (World.related_undefined w)
      ⟨Tag.isPlain_undefined.isOperand, fun _ => ⟨rfl, ?_⟩⟩
    rw [Spot.place_advance]
    exact .noStart next
  case keyword word =>
    cases word
    case letKw =>
      refine (alike₁.declaration isOpen).within rfl (Since.refl w c) fun _ _ given =>
        given.mono Tag.IsPlain.isOperand fun _ read => ⟨read.1, ?_⟩
      have names := read.2
      rw [← Spot.pass_place] at names
      exact .startBindings next names
    all_goals exact other (by simp) (by simp)
  all_goals exact other (by simp) (by simp)

/-- Another position, before a token. -/
theorem seek {n : Nat} (inside : n ≤ s.ground.text.size) :
    ∃ e', (∀ i, Engine.changeCursor (·.seek n) (e i) = .ok ((), e' i))
      ∧ Alike w s { c with spot := { c.spot with pos := n, consumed := true } } e' :=
  ⟨_, fun _ => rfl,
    alike.changeCursor (·.seek n) ⟨inside, alike.cursor.inside.token, alike.cursor.inside.number⟩
      fun _ => rfl⟩

/-- A loop is left: the place is behind the body, unless a return was executed. -/
theorem leaveLoop {marks : LoopMarks} (inside : marks.after ≤ s.ground.text.size) :
    ∃ (u : Spot) (e' : ι → Engine), (∀ i, Routine.leaveLoop marks (e i) = .ok (.undefined, e' i))
      ∧ Alike w s { c with spot := u } e'
      ∧ u.pos = if c.mode.returned then c.spot.pos else marks.after := by
  by_cases returned : c.mode.returned = true
  · refine ⟨c.spot, e, fun i => ?_, alike, by rw [if_pos returned]⟩
    have known : (e i).mode.returned = true := by rw [alike.mode i, returned]
    simp only [Routine.leaveLoop, bind, StateT.bind, Except.bind, get, getThe, MonadStateOf.get,
      StateT.get, pure, Except.pure, known, Bool.not_true, Bool.false_eq_true, if_false]
    rfl
  · refine ⟨_, _, fun i => ?_, alike.moveTo inside, by rw [if_neg returned]⟩
    have known : (e i).mode.returned = false := by
      rw [alike.mode i]
      exact Bool.eq_false_iff.mpr returned
    simp only [Routine.leaveLoop, bind, StateT.bind, Except.bind, get, getThe, MonadStateOf.get,
      StateT.get, pure, Except.pure, known, Bool.not_false, if_true]
    rfl

/-- How the condition of a loop ends. -/
def Decided (s : Standing ι) (mode : Mode) (r : ι → (Value × Bool) × Engine) : Prop :=
  ∃ (w : World ι) (c : Current) (tag : Tag) (v : ι → Value) (holds : Bool) (e : ι → Engine),
    (∀ i, r i = ((v i, holds), e i)) ∧ Alike w s c e ∧ w.Related tag v
      ∧ Given Tag.IsPlain (fun c => c.mode = mode) c tag

theorem loopCondition :
    Together (fun _ => False) (Decided s c.mode) fun i => Routine.loopCondition (e i) := by
  obtain ⟨e₁, token, alike₁⟩ := alike.token
  simp only [Routine.loopCondition, Routine.steps, token]
  by_cases none : (c.spot.advance s.ground.text).token = .semicolon
  · simp only [none, if_true]
    exact .finished _ (fun _ => rfl) ⟨w, _, _, _, true, e₁, fun _ => rfl, alike₁,
      World.related_undefined w, Tag.isPlain_undefined, fun _ => rfl⟩
  simp only [none, if_false]
  refine .afterCall .expression alike₁ fun w₂ c₂ tag v e₂ alike₂ _ related given => ?_
  obtain ⟨t, r, resolved, rr, plain, same⟩ := alike₂.resolve related
  obtain ⟨truth, truthy⟩ := alike₂.isTruthy rr
  simp only [resolved, rr.isError, truthy, Routine.steps]
  have given : Given Tag.IsPlain (fun c' => c'.mode = c.mode) c₂ t :=
    ⟨plain given.1, fun sane => (given.2 (Tag.sane_of_resolved same sane)).1⟩
  by_cases error : t.isError = true
  · simp only [error, if_true]
    exact .finished _ (fun _ => rfl) ⟨w₂, c₂, t, r, false, e₂, fun _ => rfl, alike₂, rr, given⟩
  · simp only [error, Routine.steps]
    exact .finished _ (fun _ => rfl) ⟨w₂, c₂, t, r, truth, e₂, fun _ => rfl, alike₂, rr, given⟩

/-- One round after the other.  A dry run goes through none. -/
theorem rounds (mode : Mode) (marks : LoopMarks) (dry : mode.dry = true → c.mode.dry = true)
    (free : mode.inCall = true → s.registers.result = none)
    (inside : marks.condition ≤ s.ground.text.size ∧ marks.step ≤ s.ground.text.size
      ∧ marks.body ≤ s.ground.text.size ∧ marks.after ≤ s.ground.text.size)
    (returned : c.mode.returned = mode.returned)
    (behind : mode.dry = true → c.spot.pos = marks.after) (isOpen : s.Open mode) :
    Together LostNext (Goes w (.plain s mode (Circled mode marks.after)))
      fun i => Routine.rounds mode marks (e i) := by
  simp only [Routine.rounds, Routine.steps]
  by_cases idle : mode.dry = true
  · obtain ⟨u, e₁, left, alike₁, pos⟩ := alike.leaveLoop inside.2.2.2
    simp only [idle, left, Routine.steps]
    refine .give alike₁ rfl (fun h => ⟨.refl w, dry h⟩) (World.related_undefined w)
      ⟨Tag.isPlain_undefined, fun _ => ⟨fun _ => returned, fun h => returned.trans h,
        fun _ => returned, fun _ => ?_⟩⟩
    rw [behind idle, ite_self] at pos
    exact pos
  have since : ∀ w' c', Since (mode.dry = true) w w' c' := fun _ _ h => absurd h idle
  -- a loop ends behind its body
  have leave : ∀ {w' : World ι} {c' : Current} {e' : ι → Engine}, Alike w' s c' e' →
      (mode.returned = true → c'.mode.returned = true) →
      (mode.inCall = false → c'.mode.returned = mode.returned) →
      Together LostNext (Goes w (.plain s mode (Circled mode marks.after)))
        fun i => (Progress.ofExcept (Routine.leaveLoop marks (e' i))).bind
          fun r => .finished (.value r.1, r.2) := by
    intro w' c' e' alike' stays outside
    obtain ⟨u, e'', left, alike'', pos⟩ := alike'.leaveLoop inside.2.2.2
    simp only [left, Routine.steps]
    refine .give alike'' rfl (since _ _) (World.related_undefined w') ⟨Tag.isPlain_undefined,
      fun _ => ⟨fun h => absurd h idle, stays, outside, fun h => ?_⟩⟩
    rw [if_neg (Bool.eq_false_iff.mp (h.resolve_left idle))] at pos
    exact pos
  obtain ⟨e₁, restored, alike₁⟩ := alike.restoreMode mode free
  obtain ⟨e₂, sought, alike₂⟩ := alike₁.seek inside.1
  simp only [idle, restored, sought, Routine.steps]
  refine alike₂.loopCondition.bind (fun r decided => ?_) fun _ _ lost => lost.elim
  obtain ⟨w₃, c₃, tag, v, holds, e₃, eq, alike₃, related, plain, still⟩ := decided
  obtain rfl : r = fun i => ((v i, holds), e₃ i) := funext eq
  simp only [related.isError]
  by_cases error : tag.isError = true
  · simp only [error, if_true]
    exact .give alike₃ rfl (since _ _) related (.plain_of_isError error)
  have mode₃ : c₃.mode = mode := still (Bool.eq_false_iff.mpr error)
  cases holds with
  | false =>
    simp only [error, Routine.steps, Bool.not_false, if_true]
    exact leave alike₃ (fun h => mode₃ ▸ h) fun _ => by rw [mode₃]
  | true =>
  obtain ⟨e₄, sought, alike₄⟩ := alike₃.seek inside.2.2.1
  obtain ⟨e₅, changed, alike₅⟩ := alike₄.changeMode (fun m => { m with inLoop := true }) alike₄.free
  simp only [error, sought, changed, Routine.steps]
  refine .checked (.next _ _) (alike₅.body (.inr (isOpen.resolve_left idle))) rfl
    (fun h => absurd h idle) ?_
  intro w₆ c₆ _ _ e₆ alike₆ _ _ _ ⟨_, read⟩ sane
  have leads := (read sane).leads
  simp only [mode₃] at leads
  simp only [alike₆.mode]
  by_cases isOver : (c₆.mode.broken || c₆.mode.returned) = true
  · simp only [isOver, if_true]
    exact leave alike₆ leads.returned leads.outside
  obtain ⟨e₇, restored, alike₇⟩ := alike₆.restoreMode mode free
  obtain ⟨e₈, sought, alike₈⟩ := alike₇.seek inside.2.1
  simp only [isOver, restored, sought, Routine.steps]
  refine .checked (.next _ _) (alike₈.optional .rightParen) rfl (fun h => absurd h idle) ?_
  intro w₉ c₉ _ _ e₉ alike₉ _ _ _ ⟨_, read⟩ sane
  have mode₉ : c₉.mode = mode := (read sane).1
  exact .goOn (.rounds mode marks (fun h => absurd h idle) free inside (by rw [mode₉])
    (fun h => absurd h idle) isOpen) alike₉ (fun _ same => same) (fun h => absurd h idle)
    fun _ _ given => given

/-- A loop was passed up to its end.  Unless a return was executed, the place is
behind its body. -/
structure Looped (text : ByteArray) (mode : Mode) (k : Place) (c : Current) : Prop where
  dry : mode.dry = true → c.mode.returned = mode.returned
  outside : mode.inCall = false → c.mode.returned = mode.returned
  derives : mode.dry = true ∨ c.mode.returned = false →
    Derives text .loop k (.closed c.spot.pos)

/-- The parts of a loop after the first one. -/
theorem loopParts {w₀ : World ι} {mode : Mode} {k : Place}
    (since : Since (mode.dry = true) w₀ w c) (same : c.mode = mode)
    (free : mode.inCall = true → s.registers.result = none) (isOpen : s.Open mode)
    (whole : ∀ {k₂ k₃ k₄ : Place},
      Derives s.ground.text (.optional .semicolon) (c.spot.place s.ground.text) k₂ →
      k₂.next s.ground.text = .semicolon →
      Derives s.ground.text (.optional .rightParen) (k₂.pass s.ground.text) k₃ →
      k₃.next s.ground.text = .rightParen →
      Derives s.ground.text .body (k₃.pass s.ground.text) k₄ →
      Derives s.ground.text .loop k (.closed k₄.pos)) :
    Together LostValue (Out w₀ (.plain s mode (Looped s.ground.text mode k)))
      fun i => Routine.loopParts mode (e i) := by
  obtain ⟨e₁, dried, alike₁⟩ := alike.goDry
  simp only [Routine.loopParts, Routine.steps, dried, alike₁.pos]
  have since₁ : mode.dry = true → w₀.Le w ∧ (true = true) := fun h => ⟨(since h).1, rfl⟩
  have first := alike₁.cursor.inside.pos
  refine .checked (.value _ _) (alike₁.optional .semicolon) rfl since₁ ?_
  intro w₂ c₂ _ _ e₂ alike₂ _ since₂ _ ⟨_, read₂⟩ sane₂
  obtain ⟨mode₂, condition⟩ := read₂ sane₂
  obtain ⟨semicolon, u₃, e₃, expect, alike₃, found₃⟩ := alike₂.expectAt .semicolon
  simp only [expect, Routine.steps]
  cases semicolon with
  | false => exact alike₃.failing (.value _ _) .malformed rfl since₂
  | true =>
  obtain ⟨semicolon, rfl⟩ := found₃ rfl
  simp only [Routine.steps, alike₃.pos]
  have second := alike₃.cursor.inside.pos
  refine .checked (.value _ _) (alike₃.optional .rightParen) rfl since₂ ?_
  intro w₄ c₄ _ _ e₄ alike₄ _ since₄ _ ⟨_, read₄⟩ sane₄
  obtain ⟨mode₄, step⟩ := read₄ sane₄
  rw [← Spot.pass_place] at step
  obtain ⟨paren, u₅, e₅, expect, alike₅, found₅⟩ := alike₄.expectAt .rightParen
  simp only [expect, Routine.steps]
  cases paren with
  | false => exact alike₅.failing (.value _ _) .malformed rfl since₄
  | true =>
  obtain ⟨paren, rfl⟩ := found₅ rfl
  simp only [Routine.steps, alike₅.pos]
  have third := alike₅.cursor.inside.pos
  refine .checked (.value _ _) (alike₅.body (.inl (by rw [mode₄, mode₂]))) rfl since₄ ?_
  intro w₆ c₆ _ _ e₆ alike₆ _ since₆ _ ⟨_, read₆⟩ sane₆
  have body := read₆ sane₆
  simp only [mode₄, mode₂, ← Spot.pass_place] at body
  have mode₆ : c₆.mode = { c.mode with dry := true } := body.leads.eq_of_dry rfl
  have whole := whole condition ((Spot.next_place _ _).trans semicolon) step
    ((Spot.next_place _ _).trans paren) (body.derives (.inl rfl))
  simp only [alike₆.pos]
  have last := alike₆.cursor.inside.pos
  have rounds : Ready w₆ s c₆ _ (.plain s mode _) := .rounds mode
    ⟨c.spot.pos, _, _, c₆.spot.pos⟩ (fun h => (since₆ h).2) free ⟨first, second, third, last⟩
    (by rw [mode₆, same]) (fun _ => rfl) isOpen
  refine Together.within (.call alike₆ rounds) rfl (fun h => ⟨(since₆ h).1, h⟩) fun c' _ given =>
    given.mono id fun _ circled => ⟨circled.dry, circled.outside, fun h => ?_⟩
  rw [circled.pos h]
  exact whole

/-- A loop inside its scope. -/
theorem loopInScope (isOpen : s.Open c.mode) : Together LostValue (Out w (.plain s c.mode
        (Looped s.ground.text c.mode (c.spot.place s.ground.text))))
      fun i => Routine.loopInScope c.mode (e i) := by
  obtain ⟨keyword, u₁, e₁, expect₁, alike₁, found₁⟩ := alike.expectAt (.keyword .forKw)
  simp only [Routine.loopInScope, Routine.steps, expect₁]
  cases keyword with
  | false => exact alike₁.failing (.value _ _) .malformed rfl (.refl w c)
  | true =>
  obtain ⟨word, rfl⟩ := found₁ rfl
  have word := (Spot.next_place _ _).trans word
  obtain ⟨paren, u₂, e₂, expect₂, alike₂, found₂⟩ := alike₁.expectAt .leftParen
  simp only [Routine.steps, expect₂]
  cases paren with
  | false => exact alike₂.failing (.value _ _) .malformed rfl (.refl w c)
  | true =>
  obtain ⟨opening, rfl⟩ := found₂ rfl
  have opening := (Spot.next_place _ _).trans opening
  rw [← Spot.pass_place] at opening
  simp only [Routine.steps]
  refine .checked (.value _ _) (alike₂.loopStart isOpen) rfl (Since.refl w c) ?_
  intro w₃ c₃ _ _ e₃ alike₃ _ since₃ _ ⟨_, read₃⟩ sane₃
  obtain ⟨mode₃, start⟩ := read₃ sane₃
  rw [← Spot.pass_place, ← Spot.pass_place] at start
  obtain ⟨semicolon, u₄, e₄, expect₄, alike₄, found₄⟩ := alike₃.expectAt .semicolon
  simp only [Routine.steps, expect₄]
  cases semicolon with
  | false => exact alike₄.failing (.value _ _) .malformed rfl since₃
  | true =>
    obtain ⟨first, rfl⟩ := found₄ rfl
    have first := (Spot.next_place _ _).trans first
    simp only [Routine.steps]
    refine alike₄.loopParts since₃ mode₃ alike.free isOpen
      fun condition second step closing body => ?_
    rw [← Spot.pass_place] at condition
    exact .loop word opening start first condition second step closing body

end Alike

end ArenaScript.Lockstep

namespace ArenaScript.Routine

open Engine

/-- The end of a loop, after its scope is left. -/
def closeLoop (mode : Mode) (v : Value) : Action Value := do
  changeMode fun m => { mode with returned := mode.returned || m.returned }
  if !v.isError then changeCursor fun c => { c with token := .semicolon, consumed := false }
  return v

/-- A loop by its scope, its parts and its end. -/
theorem loop_eq (e : Engine) :
    loop e = if e.mode.dry = true then
        (loopInScope e.mode e).bind fun r => .ofExcept (closeLoop e.mode r.1 r.2)
      else (Progress.ofExcept (Engine.enterScope e)).bind fun r =>
        if r.1.isError = true then .finished r
        else (loopInScope e.mode r.2).bind fun r => (Progress.ofExcept (Engine.leaveScope r.2)).bind
          fun u => .ofExcept (closeLoop e.mode r.1 u.2) := by
  have sane : Value.undefined.isError = false := by decide
  simp only [loop, closeLoop, Routine.steps, Action.steps]
  by_cases dry : e.mode.dry = true
  · simp only [dry, if_true, sane, Bool.not_true, Routine.steps]
  · simp only [dry, Routine.steps, Bool.not_false, if_true]

theorem closeLoop_apply (mode : Mode) (v : Value) (e : Engine) :
    closeLoop mode v e = .ok (v, { e with
      mode := { mode with returned := mode.returned || e.mode.returned }
      cursor := if v.isError then e.cursor
        else { e.cursor with token := .semicolon, consumed := false } }) := by
  simp only [closeLoop, Action.runs]
  cases v.isError <;> rfl

/-- A scope is left without a failure, or the engine halts. -/
theorem leaveScope_cases (e : Engine) :
    (∃ h, Engine.leaveScope e = .error h) ∨
      ∃ e', Engine.leaveScope e = .ok ((), e') ∧ e'.log = e.log := by
  obtain ⟨e₁, reported, log⟩ : ∃ e₁, report (.scopeLeft e.scope) e = .ok ((), e₁) ∧ e₁.log = e.log :=
    ⟨_, rfl, by dsimp only; split <;> rfl⟩
  simp only [Engine.leaveScope, Action.runs, reported, readArena]
  cases e₁.arena.parent e.scope with
  | error h => exact .inl ⟨h, rfl⟩
  | ok a => exact .inr ⟨_, rfl, log⟩

end ArenaScript.Routine

namespace ArenaScript.Lockstep

open Engine Routine Grammar

variable {ι : Type} [Rules ι] {w : World ι} {s : Standing ι} {c : Current} {e : ι → Engine}

namespace Alike

variable (alike : Alike w s c e)
include alike

theorem closeLoop {w₀ : World ι} {mode : Mode} {k : Place} (since : Since (mode.dry = true) w₀ w c)
    (free : mode.inCall = true → s.registers.result = none) {tag : Tag} {v : ι → Value}
    (related : w.Related tag v) (given : Given Tag.IsPlain (Looped s.ground.text mode k) c tag) :
    Together LostValue (Out w₀ (.plain s mode (Passed s.ground.text mode .loop k)))
      fun i => .ofExcept (Routine.closeLoop mode (v i) (e i)) := by
  have alike₁ := alike.withMode { mode with returned := mode.returned || c.mode.returned } free
  simp only [closeLoop_apply, Routine.steps, alike.mode, related.isError]
  have since₁ : Since (mode.dry = true) w₀ w
      { c with mode := { mode with returned := mode.returned || c.mode.returned } } :=
    since.withMode id
  by_cases error : tag.isError = true
  · simp only [error, if_true]
    exact .done alike₁ rfl since₁ related (.plain_of_isError error)
  · simp only [error, Bool.false_eq_true, if_false]
    refine .done (alike₁.changeCursor (fun k => { k with token := .semicolon, consumed := false })
      (u := { c.spot with token := .semicolon, consumed := false })
      ⟨alike.cursor.inside.pos, alike.cursor.inside.token, alike.cursor.inside.number⟩
      fun _ => rfl) rfl since₁ related (given.mono id fun _ looped => ⟨?_, fun h => ?_⟩)
    · have same : c.mode.returned = mode.returned →
          { mode with returned := mode.returned || c.mode.returned } = mode := fun h => by
        rw [h, Bool.or_self]
      refine ⟨rfl, rfl, ?_, fun h => by simp only [h, Bool.true_or], fun h => ?_⟩
      · rintro (dry | ⟨-, outside, -⟩)
        · exact same (looped.dry dry)
        · exact same (looped.outside outside)
      · simp only [looped.outside h, Bool.or_self]
    · have calm : mode.dry = true ∨ c.mode.returned = false :=
        h.imp_right fun both => (Bool.or_eq_false_iff.mp both).2
      exact looped.derives calm

theorem loop : Together LostValue (Out w (.passing s c .loop)) fun i => Routine.loop (e i) := by
  simp only [loop_eq, alike.mode]
  cases dry : c.mode.dry with
  | true =>
    simp only [if_true]
    refine (alike.loopInScope (.inl dry)).after
      (fun w₁ c₁ tag v e₁ alike₁ since₁ related given => ?_) ?_
    · exact alike₁.closeLoop since₁ alike.free related given
    · intro i r lost
      rw [closeLoop_apply]
      exact .inr ⟨_, rfl, lost⟩
  | false =>
    simp only [Routine.steps]
    refine alike.inScope (.value _ _) rfl (.refl w c)
      fun w₁ c₁ age _ e₁ alike₁ spares mode spot since₁ => ?_
    have inside := alike₁.loopInScope (.inr spares)
    rw [mode, spot] at inside
    refine inside.after (fun w₂ c₂ tag v e₂ alike₂ since₂ related given => ?_) ?_
    · obtain ⟨e₃, left, alike₃⟩ := alike₂.leaveScope
      simp only [left, Routine.steps]
      exact alike₃.closeLoop (fun h => absurd h (Bool.eq_false_iff.mp dry)) alike.free related given
    · intro i r lost
      rcases leaveScope_cases r.2 with ⟨h, left⟩ | ⟨e', left, log⟩
      · exact .inl ⟨h, by rw [left]; rfl⟩
      · simp only [left, closeLoop_apply, Routine.steps]
        exact .inr ⟨_, rfl, lost.1, log ▸ lost.2⟩

/-! ## Jumps -/

/-- A break or continue statement, which has nothing but its keyword. -/
theorem jump {mark : Mode → Mode}
    (marks : ∀ m, (mark m).inCall = m.inCall ∧ (mark m).inLoop = m.inLoop
      ∧ (mark m).returned = m.returned) :
    Together LostValue (Out w (.plain s c.mode fun c' =>
        c.mode.Leads c'.mode ∧ c'.spot = c.spot.use)) fun i => Routine.jump mark (e i) := by
  simp only [Routine.jump, Routine.steps, alike.mode]
  have undefined := World.related_undefined w
  cases dry : c.mode.dry with
  | true =>
    obtain ⟨e₁, use, alike₁⟩ := alike.use
    simp only [use, Routine.steps]
    exact .done alike₁ rfl (fun _ => ⟨.refl w, dry⟩) undefined
      ⟨Tag.isPlain_undefined, fun _ => ⟨.refl _, rfl⟩⟩
  | false =>
  have since : ∀ w' c', Since (c.mode.dry = true) w w' c' :=
    fun _ _ h => absurd h (Bool.eq_false_iff.mp dry)
  cases inLoop : c.mode.inLoop with
  | false =>
    simp only [Bool.not_false, Bool.and_self, if_true]
    exact alike.failure .notInLoop rfl (since _ _)
  | true =>
    obtain ⟨inCall, inLoop', returned⟩ := marks c.mode
    obtain ⟨e₁, changed, alike₁⟩ := alike.changeMode (fun m => { mark m with dry := true })
      fun h => alike.free (inCall.symm.trans h)
    obtain ⟨e₂, use, alike₂⟩ := alike₁.use
    simp only [changed, use, Routine.steps]
    refine .done alike₂ rfl (since _ _) undefined ⟨Tag.isPlain_undefined, fun _ => ⟨?_, rfl⟩⟩
    refine ⟨inLoop', inCall, ?_, returned.trans, fun _ => returned⟩
    rintro (h | ⟨h, -⟩)
    · rw [dry] at h
      cases h
    · rw [inLoop] at h
      cases h

/-- The value of a return statement. -/
theorem returnValue :
    Together LostValue (Out w (.listing s c .returnValue)) fun i => Routine.returnValue (e i) := by
  obtain ⟨e₁, token, alike₁⟩ := alike.token
  have next := congrArg endsStatement (c.spot.next_place s.ground.text)
  simp only [Routine.returnValue, Routine.steps, token]
  by_cases none : endsStatement (c.spot.advance s.ground.text).token = true
  · simp only [none, if_true]
    refine .done alike₁ rfl (.refl w c) (World.related_undefined w)
      ⟨Tag.isPlain_undefined, fun _ => ⟨rfl, ?_⟩⟩
    rw [Spot.place_advance]
    exact .noValue (next.trans none)
  · simp only [none, Routine.steps]
    refine alike₁.plainExpression.within rfl (Since.refl w c) fun _ _ given =>
      given.mono id fun _ read => ⟨read.1, ?_⟩
    have whole := read.2
    rw [Spot.place_advance] at whole
    exact .value (next.trans (Bool.eq_false_iff.mpr none)) whole

/-- A return statement.  The result is left to it while a function runs. -/
theorem returnStatement : Together LostValue (Out w (.plain s c.mode
        (Passed s.ground.text c.mode .returnValue (c.spot.use.place s.ground.text))))
      fun i => Routine.returnStatement (e i) := by
  obtain ⟨e₁, use, alike₁⟩ := alike.use
  simp only [Routine.returnStatement, Routine.steps, alike.mode, use]
  by_cases outside : (!c.mode.dry && !c.mode.inCall) = true
  · simp only [outside, if_true]
    exact alike₁.failure .notInFunction rfl (.refl w c)
  simp only [outside, Routine.steps]
  refine .checked (.value _ _) alike₁.returnValue rfl (Since.refl w c) ?_
  intro w₂ c₂ tag v e₂ alike₂ _ since₂ related ⟨plain, read⟩ sane
  obtain ⟨mode₂, value⟩ := read sane
  have mode₂ : c₂.mode = c.mode := mode₂
  cases dry : c.mode.dry with
  | true =>
    simp only [Routine.steps]
    refine .done alike₂ rfl (fun _ => since₂ dry) related ⟨plain, fun _ => ⟨?_, fun _ => value⟩⟩
    rw [mode₂]
    exact .refl _
  | false =>
    have inCall : c.mode.inCall = true := by simpa [dry] using outside
    have free : s.registers.result = none := alike.free inCall
    have same : { s with registers := { s.registers with result := none } } = s := by rw [← free]
    have alike₃ := alike₂.withResult none related plain nofun fun _ => rfl
    rw [same] at alike₃
    have alike₄ := (alike₃.changeCursor (fun k => { k with pos := k.length })
      (u := { c₂.spot with pos := s.ground.text.size })
      ⟨Nat.le_refl _, alike₂.cursor.inside.token, alike₂.cursor.inside.number⟩ fun _ => rfl).withMode
      { c₂.mode with returned := true, dry := true } fun _ => free
    simp only [Routine.steps, alike₂.mode]
    refine .done alike₄ rfl (fun h => absurd h (Bool.eq_false_iff.mp dry)) related
      ⟨plain, fun _ => ⟨?_, fun h => ?_⟩⟩
    · simp only [mode₂]
      refine ⟨rfl, rfl, ?_, fun _ => rfl, fun h => ?_⟩
      · rintro (h | ⟨-, h, -⟩)
        · rw [dry] at h
          cases h
        · rw [inCall] at h
          cases h
      · rw [inCall] at h
        cases h
    · rcases h with h | h
      · rw [dry] at h
        cases h
      · cases h

/-! ## Statements -/

theorem openStatement (isOpen : s.Open c.mode) :
    Together LostValue (Out w (.passing s c .opened)) fun i => Routine.openStatement (e i) := by
  obtain ⟨e₁, token, alike₁⟩ := alike.token
  have next := c.spot.next_place s.ground.text
  have place := c.spot.place_advance s.ground.text
  have pass := c.spot.pass_place s.ground.text
  simp only [Routine.openStatement, Routine.steps, token]
  generalize c.spot.advance s.ground.text = u at next place pass alike₁
  have other : opensExpression u.token = true →
      Together LostValue (Out w (.passing s c .opened)) fun i =>
        (Routine.call .expression (e₁ i)).bind fun r => .ofExcept (Engine.resolve r.1 r.2) := by
    intro opens
    refine alike₁.plainExpression.within rfl (Since.refl w c) fun _ _ given =>
      given.mono id fun _ read => ?_
    rw [place] at read
    exact .ofRead read fun whole => .expressionStatement (next ▸ opens) whole
  have jump : ∀ {mark : Mode → Mode}, isJump u.token = true →
      (∀ m, (mark m).inCall = m.inCall ∧ (mark m).inLoop = m.inLoop
        ∧ (mark m).returned = m.returned) →
      Together LostValue (Out w (.passing s c .opened)) fun i => Routine.jump mark (e₁ i) := by
    intro mark word marks
    refine (alike₁.jump marks).within rfl (Since.refl w c) fun _ _ given =>
      given.mono id fun _ jumped => ⟨jumped.1, fun _ => ?_⟩
    rw [jumped.2, ← pass]
    exact .jump (next ▸ word)
  generalize found : u.token = t at next other jump
  cases t
  case leftBrace =>
    simp only [Routine.steps, alike₁.isDry]
    refine Together.within (.call alike₁ (.block _ fun _ => isOpen)) rfl (Since.refl w c)
      fun _ _ given => given.mono id fun _ passed => ?_
    rw [place] at passed
    exact passed.mono fun whole => .blockStatement next whole
  case keyword word =>
    cases word
    case continueKw => exact jump rfl fun _ => ⟨rfl, rfl, rfl⟩
    case breakKw => exact jump rfl fun _ => ⟨rfl, rfl, rfl⟩
    case letKw =>
      refine (alike₁.declaration isOpen).within rfl (Since.refl w c) fun _ _ given =>
        given.mono id fun _ read => ?_
      rw [← pass] at read
      exact .ofRead read fun names => .declaration next names
    case ifKw =>
      refine (alike₁.choice isOpen).within rfl (Since.refl w c) fun _ _ given =>
        given.mono id fun _ passed => ?_
      rw [place] at passed
      exact passed.mono fun whole => .choiceStatement next whole
    case forKw =>
      refine alike₁.loop.within rfl (Since.refl w c) fun _ _ given =>
        given.mono id fun _ passed => ?_
      rw [place] at passed
      exact passed.mono fun whole => .loopStatement next whole
    case returnKw =>
      refine alike₁.returnStatement.within rfl (Since.refl w c) fun _ _ given =>
        given.mono id fun _ passed => ?_
      rw [← pass] at passed
      exact passed.mono fun value => .returnStatement next value
    all_goals
      simp only [Routine.steps, alike₁.tokenText]
      split
      · exact alike₁.failure _ rfl (.refl w c)
      · exact other (by simp_all [opensExpression])
  all_goals exact other rfl

theorem statement (isOpen : s.Open c.mode) (may : ∀ i, (e i).Due → MayCollect ι (e i)) :
    Together LostNext (Goes w (.passing s c .statement)) fun i => Routine.statement (e i) := by
  obtain ⟨w₁, e₁, collected, alike₁, le⟩ := alike.collectIfDue may
  simp only [Routine.statement, Routine.steps, collected]
  refine .checked (.next _ _) (alike₁.openStatement isOpen) rfl (fun dry => ⟨le dry, dry⟩) ?_
  intro w₂ c₂ tag v e₂ alike₂ _ since₂ related ⟨plain, read⟩ sane
  have passed := read sane
  obtain ⟨e₃, token, alike₃⟩ := alike₂.token
  have next := congrArg endsStatement (c₂.spot.next_place s.ground.text)
  simp only [token, Routine.steps]
  cases ended : endsStatement (c₂.spot.advance s.ground.text).token with
  | false => exact alike₃.failing (.next _ _) .semicolonExpected rfl since₂
  | true =>
    obtain ⟨e₄, use, alike₄⟩ := alike₃.use
    simp only [use, Routine.steps]
    refine .give alike₄ rfl since₂ related ⟨plain, fun _ => ⟨passed.leads, fun h => ?_⟩⟩
    rw [← Spot.pass_place]
    exact .statement (passed.derives h) (next.trans ended)

/-- The statements of a text. -/
theorem script {tag : Tag} {v : ι → Value} (related : w.Related tag v)
    (plain : tag.IsPlain) (isOpen : tag.isError = false → s.Open c.mode) :
    Together LostNext (Goes w (.active s
        (PassedAfter tag s.ground.text c.mode .script (c.spot.place s.ground.text))))
      fun i => Routine.script (v i) (e i) := by
  obtain ⟨e₁, token, alike₁⟩ := alike.token
  have next := c.spot.next_place s.ground.text
  have place := c.spot.place_advance s.ground.text
  simp only [Routine.script, Routine.steps, token, related.isError]
  generalize c.spot.advance s.ground.text = u at next place alike₁
  by_cases isOver : (decide (u.token = .eof) || tag.isError) = true
  · simp only [isOver, if_true]
    refine .give alike₁ rfl (.never _ _ _) related
      ⟨plain, fun sane => ⟨sane, .refl _, fun _ => ?_⟩⟩
    rw [place]
    refine .scriptEnd ?_
    simpa [sane, next] using isOver
  · obtain ⟨more, sane⟩ : u.token ≠ .eof ∧ tag.isError = false := by simpa using isOver
    simp only [isOver, Routine.steps]
    have isOpen := isOpen sane
    refine .afterCall (.statement (by exact isOpen)) alike₁
      fun w₂ c₂ tag' v' e₂ alike₂ _ related' given' => ?_
    refine .goOn (.script related' given'.1 fun sane' => isOpen.after (given'.2 sane').leads) alike₂
      (fun _ same => same) False.elim fun _ _ given => given.mono id fun _ rest => ⟨sane, ?_⟩
    have first := given'.2 rest.1
    rw [place] at first
    rw [← next] at more
    exact first.trans rest.2 fun first rest => .script more first rest

end Alike

end ArenaScript.Lockstep

/-! ## Evaluations -/

namespace ArenaScript.Routine

open Engine

/-- The engine on which the statements of a text start. -/
def enterText (text : ByteArray) (e : Engine) : Engine :=
  { e with
    suspended := e.cursor :: e.suspended
    cursor := .ofText text
    mode := {}
    evaluations := e.evaluations + 1 }

/-- The end of the evaluation of a text. -/
def leaveText (mode : Mode) (v : Value) : Action Value := do
  modify fun e => { e with evaluations := e.evaluations - 1 }
  resume
  restoreMode mode
  return v

/-- The evaluation of a text by its statements and its end. -/
theorem evaluate_eq (text : ByteArray) (e : Engine) :
    evaluate text e = (call (.script .undefined) (enterText text e)).bind fun r =>
      (Progress.ofExcept (leaveText e.mode r.1 r.2)).bind fun r => .finished (.value r.1, r.2) := by
  simp only [evaluate, leaveText, Routine.steps, Action.steps]
  rfl

theorem leaveText_apply {e : Engine} {k : Cursor} {ks : List Cursor} (eq : e.suspended = k :: ks)
    (mode : Mode) (v : Value) :
    leaveText mode v e = .ok (v, { e with
      evaluations := e.evaluations - 1
      cursor := k
      suspended := ks
      mode := mode }) := by
  simp only [leaveText, Action.runs, resume, eq]
  rfl

end ArenaScript.Routine

namespace ArenaScript.Lockstep

open Engine Routine Grammar

variable {ι : Type} [Rules ι] {w : World ι} {s : Standing ι} {c : Current} {e : ι → Engine}

/-- While a text is evaluated, the place before it is set aside. -/
def Standing.inText (s : Standing ι) (t : Spot) (text : ByteArray) : Standing ι :=
  { s with
    ground := ⟨text, .host text 0⟩
    suspended := (s.ground, t) :: s.suspended
    evaluations := s.evaluations + 1 }

/-- How an evaluation ends.  Inside a function the result is not part of what
stands, but an evaluation leaves it as it was. -/
def Evaluated (s : Standing ι) (c : Current) (result : Tag) (r : ι → Next × Engine) : Prop :=
  ∃ (w : World ι) (c' : Current) (tag : Tag) (v : ι → Value) (e : ι → Engine),
    (∀ i, r i = (.value (v i), e i)) ∧ Alike w s c' e ∧ c'.mode = c.mode ∧ c'.spot = c.spot
      ∧ w.Related result (fun i => (e i).result) ∧ w.Related tag v ∧ tag.IsPlain

namespace Alike

/-- The start of an evaluation. -/
theorem enterText (alike : Alike w s c e) (text : ByteArray)
    (small : Strict ι → text.size < 2 ^ 24) :
    Alike w (s.inText c.spot text) { c with mode := {}, spot := .start }
      fun i => Routine.enterText text (e i) := by
  have reads : w.Reads (fun i => (e i).roots) ⟨text, .host text 0⟩ .start
      fun _ => Cursor.ofText text :=
    ⟨fun _ => rfl, ⟨fun _ => rfl, Source.shows_ofBytes text, small⟩, Spot.inside_start _⟩
  have alike₁ := ((alike.suspend.read reads).withMode {} nofun).withEvaluations (s.evaluations + 1)
  have same : ∀ i, Routine.enterText text (e i) = _ := fun i => by
    rw [Routine.enterText, alike.evaluations i]
  simp only [same]
  exact alike₁

/-- The end of an evaluation: the place, the mode and the number of evaluations
come back. -/
theorem leaveText {t : Spot} {text : ByteArray} (alike : Alike w (s.inText t text) c e) {mode : Mode}
    (free : mode.inCall = true → s.registers.result = none) (v : ι → Value) :
    ∃ e', (∀ i, Routine.leaveText mode (v i) (e i) = .ok (v i, e' i))
      ∧ Alike w s { c with mode := mode, spot := t } e' ∧ ∀ i, (e' i).result = (e i).result := by
  obtain ⟨k, ks, eq, alike₁⟩ := Alike.resume (s := { s with
    ground := ⟨text, .host text 0⟩, evaluations := s.evaluations + 1 }) alike
  have alike₂ := (alike₁.withMode mode free).withEvaluations s.evaluations
  refine ⟨_, fun i => ?_, alike₂, fun _ => rfl⟩
  have evaluations : (e i).evaluations = s.evaluations + 1 := alike.evaluations i
  rw [leaveText_apply (eq i), evaluations, Nat.add_sub_cancel]

/-- An evaluation leaves the mode, the place and the result as they were. -/
theorem evaluateText (alike : Alike w s c e) (text : ByteArray)
    (small : Strict ι → text.size < 2 ^ 24) (spares : s.Spares s.registers.scope) :
    ∃ result, w.Related result (fun i => (e i).result)
      ∧ Together LostNext (Evaluated s c result) fun i => Routine.evaluate text (e i) := by
  obtain ⟨result, here, bare, known⟩ := alike.result
  refine ⟨result, here, ?_⟩
  -- no function is under way inside the text, so its statements keep the result
  let s₁ : Standing ι := { s with registers := { s.registers with result := some result } }
  have entered : Alike w (s₁.inText c.spot text) { c with mode := {}, spot := .start }
      fun i => Routine.enterText text (e i) :=
    { alike.enterText text small with
      result := ⟨result, here, bare, fun _ eq => Option.some.inj eq⟩, free := nofun }
  simp only [evaluate_eq]
  refine .afterCall (.script (World.related_undefined w) Tag.isPlain_undefined
    (by exact fun _ => .inr spares)) entered fun w₁ c₁ tag v e₁ alike₁ _ related given => ?_
  obtain ⟨tag₁, there, bare₁, same⟩ := alike₁.result
  obtain rfl : tag₁ = result := same result rfl
  have alike₂ : Alike w₁ (s.inText c.spot text) c₁ e₁ :=
    { alike₁ with
      result := ⟨tag₁, there, bare₁, known⟩, free := fun inCall => nomatch alike₁.free inCall }
  obtain ⟨e₂, left, alike₃, result⟩ := alike₂.leaveText alike.free v
  simp only [alike.mode, left, Routine.steps]
  refine .finished _ (fun _ => rfl)
    ⟨w₁, _, tag, v, e₂, fun _ => rfl, alike₃, rfl, rfl, ?_, related, given.1⟩
  simpa only [result] using there

theorem evaluate (alike : Alike w s c e) (text : ByteArray)
    (small : Strict ι → text.size < 2 ^ 24) (spares : s.Spares s.registers.scope) :
    Together LostNext (Goes w (.anywhere s)) fun i => Routine.evaluate text (e i) := by
  obtain ⟨result, -, going⟩ := alike.evaluateText text small spares
  refine going.mono fun r evaluated => ?_
  obtain ⟨w', c', tag, v, e', eq, alike', -, -, -, related, plain⟩ := evaluated
  exact .inl ⟨fun i => (v i, e' i), ⟨w', s, c', tag, v, e', fun _ => rfl, alike', rfl,
    .never _ _ _, related, plain, fun _ => trivial⟩, eq⟩

end Alike

end ArenaScript.Lockstep
