import ArenaScript.Proofs.Grammar.Phrases
import ArenaScript.Proofs.Lockstep.Alike

/-!
# Places and modes

What is known of the place and the mode in which a production ends that has not
failed: the text from the place where it started is a phrase of the grammar.  A
statement may change the mode, by a jump or a return; after a return nothing is
known of the place, since nothing more is read.

Main definitions:

- `Spot.place`: the place of the grammar at a spot.
- `Mode.Leads`: how statements may change the mode.
- `Read`, `Passed`: how expressions and statements end.
-/

namespace ArenaScript

namespace Mode

/-- How statements may change the mode.  Outside of loops and functions, and in
a dry run, they leave it as it is. -/
structure Leads (m m' : Mode) : Prop where
  inLoop : m'.inLoop = m.inLoop
  inCall : m'.inCall = m.inCall
  settled : m.dry = true ∨ m.inLoop = false ∧ m.inCall = false ∧ m.isSkipping = false → m' = m
  returned : m.returned = true → m'.returned = true
  outside : m.inCall = false → m'.returned = m.returned

theorem Leads.refl (m : Mode) : m.Leads m := ⟨rfl, rfl, fun _ => rfl, id, fun _ => rfl⟩

theorem Leads.trans {m m₁ m₂ : Mode} (first : m.Leads m₁) (second : m₁.Leads m₂) : m.Leads m₂ where
  inLoop := second.inLoop.trans first.inLoop
  inCall := second.inCall.trans first.inCall
  settled h := by
    have eq := first.settled h
    rw [← eq] at h
    exact (second.settled h).trans eq
  returned h := second.returned (first.returned h)
  outside h := (second.outside (first.inCall.trans h)).trans (first.outside h)

/-- A dry run leaves the mode as it is. -/
theorem Leads.eq_of_dry {m m' : Mode} (leads : m.Leads m') (dry : m.dry = true) : m' = m :=
  leads.settled (.inl dry)

/-- What has not returned in the end has not returned on the way. -/
theorem Leads.returned_eq_false {m m' : Mode} (leads : m.Leads m') (h : m'.returned = false) :
    m.returned = false := by
  cases r : m.returned with
  | false => rfl
  | true => rw [leads.returned r] at h; cases h

end Mode

namespace Lockstep

open Grammar

/-! ## Places -/

namespace Spot

@[simp] theorem consumed_advance (t : Spot) (text : ByteArray) :
    (t.advance text).consumed = false := by
  unfold advance
  split
  · rfl
  · exact Bool.eq_false_iff.mpr ‹_›

theorem advance_of_seen {t : Spot} (seen : t.consumed = false) (text : ByteArray) :
    t.advance text = t := by
  simp [advance, seen]

/-- The place of the grammar at a spot of a text. -/
def place (t : Spot) (text : ByteArray) : Place where
  pos := t.pos
  token := t.token
  consumed := t.consumed
  sound := isSound text t.token t.tokenStart t.tokenLength

@[simp] theorem place_advance (t : Spot) (text : ByteArray) :
    (t.advance text).place text = (t.place text).advance text := by
  unfold advance Place.advance
  by_cases used : t.consumed = true
  · rw [if_pos used, if_pos (show (t.place text).consumed = true from used)]
    rfl
  · rw [if_neg used, if_neg (show ¬ (t.place text).consumed = true from used)]

@[simp] theorem place_use (t : Spot) (text : ByteArray) :
    t.use.place text = (t.place text).use := rfl

@[simp] theorem place_unuse (t : Spot) (text : ByteArray) :
    t.unuse.place text = (t.place text).unuse := rfl

theorem next_place (t : Spot) (text : ByteArray) :
    (t.place text).next text = (t.advance text).token := by
  rw [Place.next, ← place_advance]
  rfl

theorem pass_place (t : Spot) (text : ByteArray) :
    (t.place text).pass text = (t.advance text).use.place text := by
  rw [Place.pass, ← place_advance]
  rfl

/-- The literal of a string token can be decoded. -/
theorem sound_place {t : Spot} {text : ByteArray} (inside : t.tokenStart + t.tokenLength ≤ text.size)
    (decodes : t.token = .string →
      (Source.ofBytes (text.extract t.tokenStart (t.tokenStart + t.tokenLength))).unescape.2
        = true) : (t.place text).sound = true := by
  by_cases string : t.token = .string
  · have same := ((Source.shows_ofBytes text).part inside).same.unescape
    simp only [place, isSound, string, ne_eq, not_true_eq_false, decide_false, Bool.false_or]
    rw [← decodes string, ← same]
    simp only [Source.ofBytes, Nat.zero_add]
  · simp [place, isSound, string]

end Spot

/-! ## Ends of productions -/

/-- A phrase was read in a mode, which is as it was. -/
def Read (text : ByteArray) (mode : Mode) (phrase : Phrase) (k : Place) (c : Current) : Prop :=
  c.mode = mode ∧ Derives text phrase k (c.spot.place text)

/-- A phrase was read behind a value that is no error. -/
def ReadAfter (tag : Tag) (text : ByteArray) (mode : Mode) (phrase : Phrase) (k : Place)
    (c : Current) : Prop :=
  tag.isError = false ∧ Read text mode phrase k c

/-- A phrase of statements was passed.  Unless a return was executed, it was
read to its end. -/
structure Passed (text : ByteArray) (mode : Mode) (phrase : Phrase) (k : Place) (c : Current) :
    Prop where
  leads : mode.Leads c.mode
  derives : mode.dry = true ∨ c.mode.returned = false →
    Derives text phrase k (c.spot.place text)

/-- A phrase of statements was passed behind a value that is no error. -/
def PassedAfter (tag : Tag) (text : ByteArray) (mode : Mode) (phrase : Phrase) (k : Place)
    (c : Current) : Prop :=
  tag.isError = false ∧ Passed text mode phrase k c

/-- The rounds of a loop were passed.  Unless a return was executed, the place is
behind the body. -/
structure Circled (mode : Mode) (after : Nat) (c : Current) : Prop where
  dry : mode.dry = true → c.mode.returned = mode.returned
  returned : mode.returned = true → c.mode.returned = true
  outside : mode.inCall = false → c.mode.returned = mode.returned
  pos : mode.dry = true ∨ c.mode.returned = false → c.spot.pos = after

end Lockstep

end ArenaScript
