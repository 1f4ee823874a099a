import ArenaScript.Evaluate.Literal
import ArenaScript.Proofs.Lockstep.Operators

/-!
# Literals in step

The routines of literals, names and groups on engines that agree.

Main results:

- `Alike.stringLiteral`, `Alike.objectLiteral`, `Alike.functionLiteral`: the literals.
- `Alike.primary`, `Alike.group`: primary expressions.
- `Alike.members`, `Alike.parameters`: the productions of lists in literals.
-/

namespace ArenaScript.Lockstep

open Engine Routine Grammar

variable {ι : Type} [Rules ι] {w : World ι} {s : Standing ι} {c : Current} {e : ι → Engine}

/-- Tags of string literals: in a dry run there is no string. -/
def Tag.IsText (dry : Bool) (tag : Tag) : Prop :=
  tag.isError = true ∨ (dry = true ∧ tag = .other .zero) ∨ ∃ age text, tag = .string age text

theorem Tag.IsText.isPlain {dry : Bool} {tag : Tag} (text : tag.IsText dry) : tag.IsPlain := by
  rcases text with error | ⟨-, rfl⟩ | ⟨age, text, rfl⟩
  · exact isPlain_of_isError error
  · exact isPlain_zero
  · exact isPlain_string age text

theorem Tag.names_of_isError (n : Nat) (tag : Tag) (error : tag.isError = true) : tag.Names n :=
  .inl (isPlain_of_isError error).isOperand

/-- Routines that give operands or names. -/
abbrev Role.named (s : Standing ι) (c : Current) (phrase : Phrase) : Role ι :=
  keeping (c.mode.dry = true) (Given (Tag.Names s.ground.text.size)
    (Read s.ground.text c.mode phrase (c.spot.place s.ground.text))) s
    fun _ tag error => .failed (Tag.names_of_isError s.ground.text.size tag error) error

/-- The literal of the current token can be decoded. -/
def Spot.Decodes (t : Spot) (text : ByteArray) : Prop :=
  (Source.ofBytes (text.extract t.tokenStart (t.tokenStart + t.tokenLength))).unescape.2 = true

/-- Tags of string literals, which are no errors only if the literal is good. -/
def Tag.IsDecoded (dry : Bool) (t : Spot) (text : ByteArray) (tag : Tag) : Prop :=
  tag.IsText dry ∧ (tag.isError = false → t.Decodes text)

theorem Tag.isDecoded_of_isError {dry : Bool} {t : Spot} {text : ByteArray} (tag : Tag)
    (error : tag.isError = true) : tag.IsDecoded dry t text :=
  ⟨.inl error, fun sane => absurd error (Bool.eq_false_iff.mp sane)⟩

/-- Tags of the names of members, which are no errors only if the current token is
a name. -/
def Tag.IsKey (dry : Bool) (t : Spot) (text : ByteArray) (tag : Tag) : Prop :=
  tag.IsText dry ∧ (tag.isError = false →
    Grammar.isKey t.token = true ∧ (t.place text).sound = true)

theorem Tag.isKey_of_isError {dry : Bool} {t : Spot} {text : ByteArray} (tag : Tag)
    (error : tag.isError = true) : tag.IsKey dry t text :=
  ⟨.inl error, fun sane => absurd error (Bool.eq_false_iff.mp sane)⟩

namespace Alike

/-! ## Strings -/

variable (alike : Alike w s c e)
include alike

theorem source (i : ι) :
    Engine.source (e i) = .ok ((e i).cursor.source (e i).arena.bytes, e i) := by
  rw [Engine.source, if_pos (alike.isValid i)]

/-- The escapes of the current token are the same for all. -/
theorem unescape (i : ι) : Source.unescape ⟨((e i).cursor.source (e i).arena.bytes).bytes,
        ((e i).cursor.source (e i).arena.bytes).start + (e i).cursor.tokenStart,
        (e i).cursor.tokenLength⟩
      = (Source.ofBytes (s.ground.text.extract c.spot.tokenStart
          (c.spot.tokenStart + c.spot.tokenLength))).unescape := by
  rw [alike.tokenStart, alike.tokenLength]
  exact ((alike.shows i).part alike.cursor.inside.token).same.unescape

/-- Strings decoded above the entities. -/
theorem placeString : Together LostValue (Placed w s c (Tag.IsDecoded false c.spot s.ground.text))
      fun i => .ofExcept (Routine.placeString (e i)) := by
  simp only [Routine.placeString, Action.steps, alike.source, alike.unescape]
  simp only [alike.tokenLength]
  have inside := alike.cursor.inside.token
  have size : (s.ground.text.extract c.spot.tokenStart
      (c.spot.tokenStart + c.spot.tokenLength)).size = c.spot.tokenLength := by
    rw [ByteArray.size_extract]
    omega
  have bound := (Source.ofBytes (s.ground.text.extract c.spot.tokenStart
    (c.spot.tokenStart + c.spot.tokenLength))).size_unescape_le.trans_eq size
  generalize found : (Source.ofBytes _).unescape = decoded at bound
  obtain ⟨text, ok⟩ := decoded
  simp only at bound ⊢
  rcases all_or_none fun i => (e i).arena.limit.toNat
      < (e i).arena.used.toNat + 4 + c.spot.tokenLength with room | full | ⟨several, i, full⟩
  · choose arena run holds block used body using fun i => @Arena.Holds.write_above _ _ _ text
      (alike.fits.holds i) ((e i).arena.used.toNat + 4) (by omega) (by have := room i; omega)
    have changed : ∀ i, changeArena (·.write ((e i).arena.used.toNat + 4) text) (e i)
        = .ok ((), { e i with arena := arena i }) := fun i => by
      simp only [changeArena, run i]
    simp only [room, if_false, changed, Action.steps]
    have alike' := alike.withArena (.refl w) (alike.fits.congr holds block) rfl
      (fun i => (block i).limit_eq) fun _ _ => id
    by_cases good : ok = true
    · simp only [good, if_true, place_closeString]
      have placed : Together LostValue (Placed w s c (Tag.string w.made text).OrError) _ :=
        alike'.adopt (fun _ o rel => ⟨o, rel, fun _ => rfl⟩)
          (alike'.fits.newStringInPlace (fun i => by
            have here := room i
            have limit := (alike.fits.holds i).limit_le_size
            have size := (block i).size_eq
            simp only
            omega) fun i => by simp only [used i]; exact body i) fun _ _ => trivial
      refine placed.weaken fun t given => ⟨?_, fun _ => by rw [Spot.Decodes, found, good]⟩
      rcases given with rfl | error
      · exact .inr (.inr ⟨_, text, rfl⟩)
      · exact .inl error
    · simp only [good, Routine.steps]
      exact alike'.failAll .badLiteral Tag.isDecoded_of_isError
  · simp only [full, if_true]
    exact alike.failAll .outOfMemory Tag.isDecoded_of_isError
  · refine alike.lostFull several i ?_
    simp only [full, if_true]

theorem stringLiteral :
    Together LostValue (Placed w s c (Tag.IsDecoded c.mode.dry c.spot s.ground.text))
      fun i => .ofExcept (Routine.stringLiteral (e i)) := by
  simp only [Routine.stringLiteral, Action.steps, alike.isDry, alike.source, Source.measure_eq,
    alike.unescape]
  by_cases dry : c.mode.dry = true
  · simp only [dry, if_true]
    by_cases good : c.spot.Decodes s.ground.text
    · have decoded := good
      rw [Spot.Decodes] at decoded
      simp only [decoded, if_true]
      exact alike.placedOther (by decide) ⟨.inr (.inl ⟨rfl, rfl⟩), fun _ => good⟩
    · rw [Spot.Decodes] at good
      simp only [good, Routine.steps]
      exact alike.failAll .badLiteral Tag.isDecoded_of_isError
  · simp only [dry, Routine.steps]
    refine alike.placeString.weaken fun tag text => ⟨?_, text.2⟩
    rcases text.1 with error | ⟨nothing, -⟩ | string
    · exact .inl error
    · cases nothing
    · exact .inr (.inr string)

/-! ## Objects -/

theorem memberKey [Nonempty ι] (seen : c.spot.consumed = false) :
    Together LostValue (Placed w s c (Tag.IsKey c.mode.dry c.spot s.ground.text))
      fun i => .ofExcept (Routine.memberKey (e i)) := by
  obtain ⟨e₁, token, alike₁⟩ := alike.token
  rw [Spot.advance_of_seen seen] at token alike₁
  have inside := alike₁.cursor.inside.token
  simp only [Routine.memberKey, Action.steps, token]
  generalize found : c.spot.token = t
  cases t
  case ident =>
    have key : isKey c.spot.token = true ∧ (c.spot.place s.ground.text).sound = true := by
      rw [found]
      exact ⟨rfl, Spot.sound_place inside (by rw [found]; rintro ⟨⟩)⟩
    simp only [Action.steps, alike₁.isDry, alike₁.tokenText]
    by_cases dry : c.mode.dry = true
    · simp only [dry, if_true]
      exact alike₁.placedOther (by decide) ⟨.inr (.inl ⟨rfl, rfl⟩), fun _ => key⟩
    · simp only [dry, Routine.steps]
      refine (alike₁.newString _ (alike₁.part_short _ _)).weaken fun tag given => ⟨?_, fun _ => key⟩
      rcases given with rfl | error
      · exact .inr (.inr ⟨_, _, rfl⟩)
      · exact .inl error
  case string =>
    refine alike₁.stringLiteral.weaken fun tag text => ⟨text.1, fun sane => ?_⟩
    rw [found]
    exact ⟨rfl, Spot.sound_place inside fun _ => text.2 sane⟩
  all_goals exact alike₁.failAll .malformed Tag.isKey_of_isError

/-- New members of related objects. -/
theorem addMember [Nonempty ι] {object key v : ι → Value}
    {tag tag' tag'' : Tag} (held : w.Related tag object) (name : w.Related tag' key)
    (related : w.Related tag'' v) (operand : tag''.IsOperand)
    (ready : c.mode.dry = true ∨ (∃ ages, tag = .object ages ∧ s.Spares ages)
      ∧ ∃ age text, tag' = .string age text) :
    Together LostValue (Placed w s c fun _ => True)
      fun i => .ofExcept (Routine.addMember (object i) (key i) (v i) (e i)) := by
  obtain ⟨t, r, resolved, rr, plain, -⟩ := alike.resolve related
  simp only [Routine.addMember, Action.steps, alike.isDry, resolved]
  by_cases dry : c.mode.dry = true
  · simp only [dry, if_true]
    exact alike.placedOther (by decide) trivial
  · obtain ⟨⟨ages, rfl, spares⟩, age, text, rfl⟩ := ready.resolve_left dry
    obtain ⟨names, placed⟩ :=
      alike.newProperty (World.Refers.offset held) spares name rr (plain operand)
    simp only [dry, Routine.steps]
    exact placed.weaken fun _ _ => trivial

/-- The rest of an object literal. -/
theorem members [Nonempty ι] {tag : Tag} {ts : List Tag} (roots : s.roots = tag :: ts)
    (object : c.mode.dry = true ∨ ∃ ages, tag = .object ages ∧ s.Spares ages) :
    Together LostNext (Goes w (.listing s c .members)) fun i => Routine.members (e i) := by
  obtain ⟨e₁, token, alike₁⟩ := alike.token
  have place := c.spot.place_advance s.ground.text
  have next := c.spot.next_place s.ground.text
  simp only [Routine.members, Routine.steps, token]
  by_cases brace : (c.spot.advance s.ground.text).token = .rightBrace
  · simp only [brace, if_true]
    refine .give alike₁ rfl (.refl w c) (World.related_undefined w)
      ⟨Tag.isPlain_undefined, fun _ => ⟨rfl, ?_⟩⟩
    rw [place]
    exact .membersEnd (next.trans brace)
  simp only [brace, if_false]
  refine .checked (.next _ _) ((alike₁.memberKey (Spot.consumed_advance _ _)).out
    Tag.isKey_of_isError) rfl (Since.refl w c) ?_
  intro w₂ c₂ name key e₂ alike₂ _ since₂ rk ⟨text, still⟩ sane
  obtain ⟨mode₂, spot₂⟩ := still sane
  have named := text.2 sane
  obtain ⟨e₃, use, alike₃⟩ := alike₂.use
  obtain ⟨colon, u, e₄, expect, alike₄, found⟩ := alike₃.expectAt .colon
  simp only [use, expect, Routine.steps]
  cases colon with
  | false => exact alike₄.failing (.next _ _) .malformed rfl since₂
  | true =>
    obtain ⟨colon, rfl⟩ := found rfl
    simp only [spot₂] at colon alike₄
    obtain ⟨e₅, hold, alike₅⟩ := alike₄.holdAll rk
    simp only [hold, Routine.steps]
    refine alike₅.callHeld alike₄.grounded .expression ?_
    intro w₆ c₆ key t v _ e₆ alike₆ since₆ rk rv ⟨operand, read₆⟩
    have since₆ := since₂.trans since₆
    simp only [rv.isError]
    by_cases error : t.isError = true
    · simp only [error, if_true]
      exact .give alike₆ rfl since₆ rv (.plain_of_isError error)
    obtain ⟨mode₆, value⟩ := read₆ (Bool.eq_false_iff.mpr error)
    obtain ⟨target, held, ro⟩ := alike₆.heldAt (show s.roots[0]? = some tag by rw [roots]; rfl)
    simp only [error, held, Routine.steps]
    have ready : c₆.mode.dry = true
        ∨ (∃ ages, tag = .object ages ∧ s.Spares ages) ∧ ∃ age text, name = .string age text := by
      rcases object with dry | object
      · exact .inl (since₆ dry).2
      · rcases text.1 with error | ⟨dry, -⟩ | string
        · rw [sane] at error
          cases error
        · exact .inl (since₆ dry).2
        · exact .inr ⟨object, string⟩
    refine .checked (.next _ _) ((alike₆.addMember ro rk rv operand ready).out fun _ _ => trivial)
      rfl since₆ ?_
    intro w₇ c₇ t' r e₇ alike₇ _ since₇ _ ⟨_, still₇⟩ sane₇
    obtain ⟨mode₇, spot₇⟩ := still₇ sane₇
    have mode : c₇.mode = c.mode := mode₇.trans (mode₆.trans mode₂)
    -- the phrase up to the value of the member
    have key : isKey ((c.spot.place s.ground.text).next s.ground.text) = true
        ∧ ((c.spot.place s.ground.text).advance s.ground.text).sound = true := by
      rw [next, ← place]
      exact named
    have colon : ((c.spot.place s.ground.text).pass s.ground.text).next s.ground.text = .colon := by
      rw [Spot.pass_place, Spot.next_place]
      exact colon
    rw [← spot₇, ← Spot.pass_place, ← Spot.pass_place] at value
    obtain ⟨e₈, token, alike₈⟩ := alike₇.token
    have next₇ := c₇.spot.next_place s.ground.text
    simp only [token, Routine.steps]
    by_cases brace : (c₇.spot.advance s.ground.text).token = .rightBrace
    · simp only [brace, if_true]
      refine .give alike₈ rfl since₇ (World.related_undefined w₇)
        ⟨Tag.isPlain_undefined, fun _ => ⟨mode, ?_⟩⟩
      rw [Spot.place_advance]
      exact .lastMember key.1 key.2 colon value (next₇.trans brace)
    obtain ⟨comma, u', e₉, expect, alike₉, found⟩ := alike₈.expectAt .comma
    simp only [brace, expect, Routine.steps]
    cases comma with
    | false => exact alike₉.failing (.next _ _) .malformed rfl since₇
    | true =>
      obtain ⟨comma, rfl⟩ := found rfl
      simp only [Spot.advance_of_seen (Spot.consumed_advance _ _)] at comma alike₉
      refine .goOn (.members roots ?_) alike₉ (fun _ same => same) since₇ fun _ _ given =>
        given.mono id fun _ rest => ⟨rest.1.trans mode, ?_⟩
      · exact object.imp_left fun dry => (since₇ dry).2
      · have rest := rest.2
        rw [← Spot.pass_place] at rest
        exact .member key.1 key.2 colon value (next₇.trans comma) rest

/-- An object literal after its opening brace. -/
theorem objectLiteral [Nonempty ι] :
    Together LostValue (Out w (.listing s c .object)) fun i => Routine.objectLiteral (e i) := by
  simp only [Routine.objectLiteral, Routine.steps, alike.isDry]
  -- the new object, or nothing in a dry run
  have object : Together LostValue
      (Placed w s c fun tag => tag.isError = true
        ∨ tag.IsPlain ∧ (c.mode.dry = true ∨ ∃ ages, tag = .object ages ∧ s.Spares ages))
      fun i => if c.mode.dry = true then Progress.finished (Value.zero, e i)
        else .ofExcept (Engine.newObject 0 (e i)) := by
    by_cases dry : c.mode.dry = true
    · simp only [dry, if_true]
      exact alike.placedOther (by decide) (.inr ⟨Tag.isPlain_zero, .inl trivial⟩)
    · simp only [dry]
      refine (alike.newObject alike.fits.matched.origin).weaken ?_
      rintro tag (rfl | error)
      · exact .inr ⟨⟨nofun, nofun⟩, .inr ⟨_, rfl, alike.spares_new _⟩⟩
      · exact .inl error
  refine .joinThen (a := fun i => (Value.zero, e i)) ?_
  refine .checked (.value _ _) (object.out fun _ => .inl) rfl (Since.refl w c) ?_
  intro w₁ c₁ tag object e₁ alike₁ _ since₁ ro ⟨given, still⟩ sane
  obtain ⟨mode₁, spot₁⟩ := still sane
  obtain ⟨plain, there⟩ := given.resolve_left (Bool.eq_false_iff.mp sane)
  obtain ⟨e₂, hold, alike₂⟩ := alike₁.holdAll ro
  simp only [hold, Routine.steps]
  refine alike₂.callHeld alike₁.grounded (.members rfl (there.imp_left fun dry => (since₁ dry).2)) ?_
  intro w₃ c₃ object t v _ e₃ alike₃ since₃ ro rv ⟨plain', read⟩
  have since₃ := since₁.trans since₃
  simp only [rv.isError]
  by_cases error : t.isError = true
  · simp only [error, if_true]
    exact .done alike₃ rfl since₃ rv (.plain_of_isError error)
  obtain ⟨mode₃, all⟩ := read (Bool.eq_false_iff.mpr error)
  rw [spot₁] at all
  obtain ⟨brace, u, e₄, expect, alike₄, found⟩ := alike₃.expectAt .rightBrace
  simp only [error, expect, Routine.steps]
  cases brace with
  | false => exact alike₄.failure .malformed rfl since₃
  | true =>
    obtain ⟨brace, rfl⟩ := found rfl
    refine .done alike₄ rfl since₃ ro ⟨plain, fun _ => ⟨mode₃.trans mode₁, ?_⟩⟩
    rw [← Spot.pass_place]
    exact .object all ((Spot.next_place _ _).trans brace)

/-! ## Functions -/

/-- The rest of a parameter list. -/
theorem parameters (afterComma : Bool) :
    Together LostNext (Goes w (.listing s c (.parameters afterComma)))
      fun i => Routine.parameters afterComma (e i) := by
  obtain ⟨e₁, token, alike₁⟩ := alike.token
  have next := c.spot.next_place s.ground.text
  have stop : Derives s.ground.text (.parameters afterComma) (c.spot.place s.ground.text)
        ((c.spot.place s.ground.text).advance s.ground.text) →
      Together LostNext (Goes w (.listing s c (.parameters afterComma)))
        fun i => .finished (.value .undefined, e₁ i) := fun derives => by
    refine .give alike₁ rfl (.refl w c) (World.related_undefined w)
      ⟨Tag.isPlain_undefined, fun _ => ⟨rfl, ?_⟩⟩
    rw [Spot.place_advance]
    exact derives
  obtain ⟨name, u, e₂, expect, alike₂, found⟩ := alike₁.expectAt .ident
  simp only [Routine.parameters, Routine.steps, token, expect]
  by_cases eof : (c.spot.advance s.ground.text).token = .eof
  · simp only [eof, if_true]
    exact stop (.parametersCut (next.trans eof))
  by_cases paren : (!afterComma && decide ((c.spot.advance s.ground.text).token = .rightParen)) =
    true
  · simp only [eof, paren, if_true, if_false]
    simp only [Bool.and_eq_true, Bool.not_eq_true', decide_eq_true_eq] at paren
    obtain ⟨rfl, paren⟩ := paren
    exact stop (.noParameters (next.trans paren))
  simp only [eof, paren, Routine.steps]
  cases name with
  | false => exact alike₂.failing (.next _ _) .malformed rfl (.refl w c)
  | true =>
    obtain ⟨name, rfl⟩ := found rfl
    simp only [Spot.advance_of_seen (Spot.consumed_advance _ _)] at name alike₂
    obtain ⟨e₃, token, alike₃⟩ := alike₂.token
    have pass := c.spot.pass_place s.ground.text
    have next₂ := (c.spot.advance s.ground.text).use.next_place s.ground.text
    rw [← pass] at next₂
    simp only [token, Routine.steps]
    by_cases paren : ((c.spot.advance s.ground.text).use.advance s.ground.text).token = .rightParen
    · simp only [paren, if_true]
      refine .give alike₃ rfl (.refl w c) (World.related_undefined w)
        ⟨Tag.isPlain_undefined, fun _ => ⟨rfl, ?_⟩⟩
      rw [Spot.place_advance, ← pass]
      exact .lastParameter (next.trans name) (next₂.trans paren)
    obtain ⟨comma, u', e₄, expect, alike₄, found⟩ := alike₃.expectAt .comma
    simp only [paren, expect, Routine.steps]
    cases comma with
    | false => exact alike₄.failing (.next _ _) .malformed rfl (.refl w c)
    | true =>
      obtain ⟨comma, rfl⟩ := found rfl
      simp only [Spot.advance_of_seen (Spot.consumed_advance _ _)] at comma alike₄
      refine .goOn (.parameters true) alike₄ (fun _ same => same) (Since.refl w c) fun _ _ given =>
        given.mono id fun _ rest => ⟨rest.1, ?_⟩
      have rest := rest.2
      rw [← Spot.pass_place, ← pass] at rest
      exact .parameter (next.trans name) (next₂.trans comma) rest

/-- The body of a function literal, which is only checked. -/
theorem checkBody : Together LostValue (Out w (.plain s c.mode (Read s.ground.text c.mode .block
      (c.spot.place s.ground.text).unuse))) fun i => Routine.checkBody (e i) := by
  obtain ⟨e₁, unuse, alike₁⟩ := alike.unuse
  obtain ⟨e₂, dry, alike₂⟩ := alike₁.changeMode (fun m => { m with dry := true }) alike.free
  simp only [Routine.checkBody, Routine.steps, unuse, dry, alike.mode]
  refine .afterCall (.block false fun _ => .inl rfl) alike₂ fun w₃ c₃ tag v e₃ alike₃ since₃ related
    given => ?_
  obtain ⟨e₄, restored, alike₄⟩ := alike₃.changeMode (fun _ => c.mode) alike.free
  simp only [restored, Routine.steps]
  exact .done alike₄ rfl (fun dry => ⟨(since₃ rfl).1, dry⟩) related
    (given.mono id fun _ passed => ⟨rfl, passed.derives (.inl rfl)⟩)

/-- The text of a function literal becomes a string. -/
theorem newFunction (text : ByteArray)
    (short : Strict ι → text.size + 8 < 2 ^ 32) (callable : Strict ι → Source.Callable text) :
    Together LostValue (Placed w s c Tag.IsPlain)
      fun i => (Progress.ofExcept (Engine.newString text (e i))).bind fun r =>
        .finished (if r.1.isError = true then r.1 else .ref .function r.1.offset, r.2) := by
  refine (alike.newString text short).andThen ?_ fun i r lost => .inr ⟨_, rfl, ?_, lost.2⟩
  · intro w' c' tag v e' le alike' unmoved related given
    simp only [related.isError]
    by_cases error : tag.isError = true
    · simp only [error, if_true]
      exact .placed le alike' unmoved related (Tag.isPlain_of_isError error)
    · obtain rfl := given.resolve_right error
      simp only [error, Bool.false_eq_true, if_false]
      have function : w'.Related (.function w.made text) fun i => .ref .function (v i).offset :=
        ⟨⟨_, World.Refers.offset related, fun _ => rfl⟩, callable⟩
      exact .placed le alike' ⟨unmoved.mode, fun _ => unmoved.spot rfl⟩ function ⟨nofun, nofun⟩
  · simp only [lost.1, if_true]

/-- A function literal after its keyword. -/
theorem functionLiteral [Nonempty ι] (used : c.spot.consumed = true) :
    Together LostValue (Out w (.listing s c .function)) fun i => Routine.functionLiteral (e i) := by
  obtain ⟨paren, u, e₁, expect₁, alike₁, found₁⟩ := alike.expectAt .leftParen
  simp only [Routine.functionLiteral, Routine.steps, expect₁]
  cases paren with
  | false => exact alike₁.failing (.value _ _) .malformed rfl (.refl w c)
  | true =>
  have inside : u.pos ≤ s.ground.text.size := alike₁.cursor.inside.pos
  obtain ⟨opens, here₁⟩ := found₁ rfl
  simp only [Routine.steps, alike₁.pos]
  refine .checked (.value _ _) (.call alike₁ (.parameters false)) rfl (Since.refl w c) ?_
  intro w₂ c₂ _ _ e₂ alike₂ _ since₂ _ read₂ sane
  obtain ⟨mode₂, names⟩ := read₂.2 sane
  obtain ⟨paren, u₃, e₃, expect₃, alike₃, found₃⟩ := alike₂.expectAt .rightParen
  simp only [Routine.steps, expect₃]
  cases paren with
  | false => exact alike₃.failing (.value _ _) .malformed rfl since₂
  | true =>
  obtain ⟨close, rfl⟩ := found₃ rfl
  obtain ⟨brace, u₄, e₄, expect₄, alike₄, found₄⟩ := alike₃.expectAt .leftBrace
  simp only [Routine.steps, expect₄]
  cases brace with
  | false => exact alike₄.failing (.value _ _) .malformed rfl since₂
  | true =>
  obtain ⟨begins, here₄⟩ := found₄ rfl
  simp only [Routine.steps]
  refine .checked (.value _ _) alike₄.checkBody rfl since₂ ?_
  intro w₅ c₅ _ v₅ e₅ alike₅ _ since₅ _ read₅ sane₅
  obtain ⟨mode₅, block⟩ := read₅.2 sane₅
  obtain ⟨e₆, token, alike₆⟩ := alike₅.token
  simp only [Routine.steps, token]
  by_cases brace : (c₅.spot.advance s.ground.text).token = .rightBrace
  · obtain ⟨e₇, use, alike₇⟩ := alike₆.use
    -- the whole literal is a phrase
    have whole : Derives s.ground.text .function (c.spot.place s.ground.text)
        ((c₅.spot.advance s.ground.text).use.place s.ground.text) := by
      simp only [here₁, here₄, ← Spot.pass_place, Place.unuse_pass] at names block
      rw [← Spot.pass_place]
      refine .function ((Spot.next_place _ _).trans opens) names ((Spot.next_place _ _).trans close)
        ?_ block ((Spot.next_place _ _).trans brace)
      rw [Spot.pass_place, Spot.next_place]
      exact begins
    have mode : c₅.mode = c.mode := mode₅.trans mode₂
    simp only [brace, ne_eq, not_true_eq_false, use, Routine.steps, alike₇.isDry, alike₇.pos]
    by_cases dry : c₅.mode.dry = true
    · simp only [dry, if_true]
      exact .done alike₇ rfl since₅ (World.related_other w₅ (x := .zero) (by decide))
        ⟨Tag.isPlain_zero, fun _ => ⟨mode, whole⟩⟩
    · have inside' : (c₅.spot.advance s.ground.text).use.pos ≤ s.ground.text.size :=
        alike₇.cursor.inside.pos
      have text := alike₇.textAt (x := u.pos - 1)
        (n := (c₅.spot.advance s.ground.text).use.pos - (u.pos - 1)) (by omega)
      simp only [dry, text, Routine.steps]
      refine ((alike₇.newFunction _ (alike₇.part_short _ _) fun _ => ?_).out
        fun _ => Tag.isPlain_of_isError).within rfl since₅ fun c' _ given =>
          given.mono id fun _ still => ⟨still.1.trans mode, ?_⟩
      · obtain ⟨order, callable⟩ := whole.callable used inside'
        rw [Spot.pass_place, ← here₁] at order callable
        have order : u.pos ≤ (c₅.spot.advance s.ground.text).use.pos := order
        rwa [show u.pos - 1 + ((c₅.spot.advance s.ground.text).use.pos - (u.pos - 1))
          = (c₅.spot.advance s.ground.text).use.pos by omega]
      · rw [still.2]
        exact whole
  · simp only [brace, ne_eq, not_false_eq_true, if_true]
    exact alike₆.failing (.value _ _) .malformed rfl since₅

/-! ## Primary expressions -/

/-- The nesting is too deep for all or for none. -/
theorem tooDeep (i : ι) :
    Routine.tooDeep (e i) = (decide (0 < c.maxDepth) && decide (c.maxDepth < s.depth)) := by
  rw [Routine.tooDeep, alike.maxDepth, alike.depth]

/-- A literal or a name. -/
theorem primary [Nonempty ι] :
    Together LostValue (Out w (.named s c .primary)) fun i => Routine.primary (e i) := by
  obtain ⟨e₁, token, alike₁⟩ := alike.token
  obtain ⟨e₂, noted, alike₂⟩ := alike₁.noteUse
  simp only [Routine.primary, Routine.steps, token, noted, alike₂.tooDeep]
  by_cases deep : (decide (0 < c.maxDepth) && decide (c.maxDepth < s.depth)) = true
  · simp only [deep, if_true]
    exact alike₂.failing (.value _ _) .stackOverflow rfl (.refl w c)
  obtain ⟨e₃, use, alike₃⟩ := alike₂.use
  simp only [deep, use, Routine.steps, alike₃.lastToken, alike₃.number, alike₃.tokenStart,
    alike₃.tokenLength]
  have since : Since (c.mode.dry = true) w w c := .refl w c
  have inside := alike₃.cursor.inside
  have used : (c.spot.advance s.ground.text).use.consumed = true := rfl
  have pass := c.spot.pass_place s.ground.text
  have place : ((c.spot.place s.ground.text).advance s.ground.text).sound
      = ((c.spot.advance s.ground.text).use.place s.ground.text).sound := by
    rw [← Spot.place_advance]
    rfl
  have next : (c.spot.place s.ground.text).next s.ground.text
      = (c.spot.advance s.ground.text).use.token := Spot.next_place _ _
  generalize (c.spot.advance s.ground.text).use = u at *
  -- a token that is a phrase by itself
  have atom : isAtom u.token = true → (u.token = .string → u.Decodes s.ground.text) →
      Read s.ground.text c.mode .primary (c.spot.place s.ground.text) { c with spot := u } := by
    intro atom decodes
    refine ⟨rfl, ?_⟩
    rw [← pass]
    exact .atom (next ▸ atom) (place ▸ Spot.sound_place inside.token decodes)
  have constant : ∀ {x : Value}, isAtom u.token = true → u.token ≠ .string → x.isEntity = false →
      x.kind ≠ .span → Together LostValue (Out w (.named s c .primary))
        fun i => .finished (x, e₃ i) :=
    fun whole other bare plain => .done alike₃ rfl since (World.related_other w bare)
      ⟨.inl (Tag.isPlain_other bare plain).isOperand, fun _ => atom whole fun h => absurd h other⟩
  have literal : ∀ {p : ι → Progress (Value × Engine)} {phrase : Phrase},
      (∀ k', Derives s.ground.text phrase (u.place s.ground.text) k' →
        Derives s.ground.text .primary (c.spot.place s.ground.text) k') →
      Together LostValue (Out w (.listing s { c with spot := u } phrase)) p →
      Together LostValue (Out w (.named s c .primary)) p :=
    fun rule together => together.within rfl since fun _ _ given =>
      given.mono (fun plain => .inl plain.isOperand) fun _ read => ⟨read.1, rule _ read.2⟩
  have other : ∀ f, Together LostValue (Out w (.named s c .primary))
      fun i => .ofExcept (Engine.fail f (e₃ i)) := fun f => alike₃.failure f rfl since
  generalize token : u.token = t
  rw [token] at next atom constant
  cases t
  case bad => exact other .malformed
  case number =>
    have kind := inside.number
    exact constant rfl (by simp) (by rw [Value.isEntity, kind]; rfl) (by rw [kind]; decide)
  case string =>
    refine (alike₃.stringLiteral.out Tag.isDecoded_of_isError).within rfl since fun _ _ given =>
      ⟨.inl given.1.1.isPlain.isOperand, fun sane => ?_⟩
    obtain ⟨mode, spot⟩ := given.2 sane
    obtain ⟨-, whole⟩ := atom rfl fun _ => given.1.2 sane
    rw [Read, mode, spot]
    exact ⟨rfl, whole⟩
  case leftBrace =>
    exact literal (fun _ rest => .objectLiteral next (pass ▸ rest)) alike₃.objectLiteral
  case ident =>
    have bare : (Value.span (UInt32.ofNat u.tokenStart) (UInt32.ofNat u.tokenLength)).isEntity
        = false := by
      rw [Value.isEntity, Value.span, Value.kind_box]
      rfl
    refine .done alike₃ rfl since (World.related_other w bare)
      ⟨.inr ⟨_, rfl, ?_⟩, fun _ => atom rfl (by simp)⟩
    have start := Value.spanStart_span_le u.tokenStart (UInt32.ofNat u.tokenLength)
    have length := Value.spanLength_span_le (UInt32.ofNat u.tokenStart) u.tokenLength
    have bound : u.tokenStart + u.tokenLength ≤ s.ground.text.size := inside.token
    omega
  case keyword word =>
    cases word
    case functionKw =>
      exact literal (fun _ rest => .functionLiteral next (pass ▸ rest)) (alike₃.functionLiteral used)
    case nullKw => exact constant rfl (by simp) (by decide) (by decide)
    case undefinedKw => exact constant rfl (by simp) (by decide) (by decide)
    case trueKw => exact constant rfl (by simp) (by decide) (by decide)
    case falseKw => exact constant rfl (by simp) (by decide) (by decide)
    all_goals exact other .badExpression
  all_goals exact other .badExpression

/-- A primary expression or an expression in parentheses. -/
theorem group [Nonempty ι] :
    Together LostValue (Out w (.named s c .group)) fun i => Routine.group (e i) := by
  obtain ⟨e₁, token₁, alike₁⟩ := alike.token
  have next := c.spot.next_place s.ground.text
  simp only [Routine.group, Routine.steps, token₁]
  by_cases paren : (c.spot.advance s.ground.text).token = .leftParen
  · obtain ⟨e₂, use₂, alike₂⟩ := alike₁.use
    simp only [paren, ne_eq, not_true_eq_false, use₂, Routine.steps]
    refine .checked (.value _ _) (.call alike₂ .expression) rfl (Since.refl w c) ?_
    intro w₃ c₃ tag v e₃ alike₃ _ since₃ related ⟨operand, read⟩ sane
    obtain ⟨mode, inner⟩ := read sane
    obtain ⟨e₄, token₄, alike₄⟩ := alike₃.token
    simp only [Routine.steps, token₄]
    by_cases close : (c₃.spot.advance s.ground.text).token = .rightParen
    · obtain ⟨e₅, use₅, alike₅⟩ := alike₄.use
      simp only [close, not_true_eq_false, use₅, Routine.steps]
      refine .done alike₅ rfl since₃ related ⟨.inl operand, fun _ => ⟨mode, ?_⟩⟩
      rw [← Spot.pass_place] at inner ⊢
      exact .parenthesized (next.trans paren) inner ((Spot.next_place _ _).trans close)
    · simp only [close, not_false_eq_true, if_true]
      exact alike₄.failure .parenExpected rfl since₃
  · simp only [paren, ne_eq, not_false_eq_true, if_true]
    refine alike₁.primary.within rfl (Since.refl w c) fun _ _ given =>
      given.mono id fun _ read => ⟨read.1, ?_⟩
    have only := read.2
    rw [Spot.place_advance] at only
    exact .group (next ▸ paren) only

end Alike

end ArenaScript.Lockstep
