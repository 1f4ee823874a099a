import ArenaScript.Proofs.Engine.Entities
import ArenaScript.Proofs.Lockstep.Actions

/-!
# Values and names in step

New entities, the values of properties, and the names of scopes, for engines
that agree.

Main results:

- `Alike.place`: new entities, with the loss of an engine that is full.
- `Alike.newString`, `Alike.newObject`, `Alike.newProperty`: the three kinds.
- `Alike.resolve`, `Alike.isTruthy`, `Alike.lookup`, `Alike.assign`: values and names.
- `Alike.enterScope`, `Alike.leaveScope`: scopes.
-/

namespace ArenaScript.Lockstep

open Engine

variable {ι : Type} [Rules ι] {w : World ι} {s : Standing ι} {c : Current} {e : ι → Engine}

/-- A tag, or that of an error. -/
def Tag.OrError (tag : Tag) (t : Tag) : Prop := t = tag ∨ t.isError = true

namespace Alike

variable {v : ι → Value} {tag : Tag} {age : Nat} {text : ByteArray} {w₀ : World ι} {role : Role ι}
  {ages : List Nat}

/-! ## Failing -/

theorem related_failureOf (w : World ι) (c : Current) (f : Failure) :
    w.Related (.other (failureOf c f)) fun _ => failureOf c f := by
  refine World.related_other w ?_
  rw [Value.isEntity, kind_failureOf]
  rfl

theorem isError_failureOf (c : Current) (f : Failure) :
    (Tag.other (failureOf c f)).isError = true := by
  rw [Tag.isError, Tag.kind, kind_failureOf]
  rfl

variable (alike : Alike w s c e)
include alike

/-- All engines fail. -/
theorem failAll (f : Failure) {gives : Tag → Prop}
    (error : ∀ tag : Tag, tag.isError = true → gives tag) :
    Together LostValue (Placed w s c gives) fun i => .ofExcept (Engine.fail f (e i)) := by
  obtain ⟨e', failed, alike'⟩ := alike.fail f
  simp only [failed, Routine.steps]
  exact .placed (.refl w) alike' (.failed rfl (isError_failureOf c f)) (related_failureOf w c f)
    (error _ (isError_failureOf c f))

/-- A failure ends a routine. -/
theorem failing {α : Type} {L : α → Prop} {P : (ι → α) → Prop} {ending : Value × Engine → α}
    (way : Ending w₀ role L P ending) (f : Failure) (ends : role.ends s)
    (since : Since role.stays w₀ w c) :
    Together L P fun i => (Progress.ofExcept (Engine.fail f (e i))).bind
      fun r => .finished (ending r) := by
  obtain ⟨e', failed, alike'⟩ := alike.fail f
  simp only [failed, Routine.steps]
  exact .finish way alike' ends since (related_failureOf w c f)
    (role.fails _ _ (isError_failureOf c f))

/-- A failure is the value of a routine. -/
theorem failure (f : Failure) (ends : role.ends s) (since : Since role.stays w₀ w c) :
    Together LostValue (Out w₀ role) fun i => .ofExcept (Engine.fail f (e i)) := by
  obtain ⟨e', failed, alike'⟩ := alike.fail f
  simp only [failed, Routine.steps]
  exact .done alike' ends since (related_failureOf w c f) (role.fails _ _ (isError_failureOf c f))

/-! ## New entities -/

/-- One of several engines is full. -/
theorem lostFull (several : ¬ Subsingleton ι) (i : ι)
    {P : (ι → Value × Engine) → Prop} {p : ι → Progress (Value × Engine)}
    (full : p i = .ofExcept (Engine.fail .outOfMemory (e i))) : Together LostValue P p := by
  obtain ⟨e', failed, alike'⟩ := alike.fail .outOfMemory
  refine .lost several i (failureOf c .outOfMemory, e' i) ?_ ⟨?_, c.log, alike'.log i⟩
  · rw [full, failed]
    rfl
  · rw [Value.isError, kind_failureOf]
    rfl

omit [Rules ι] alike in
/-- A condition that holds of all, of none, or of some of several. -/
theorem all_or_none (full : ι → Prop) :
    (∀ i, ¬ full i) ∨ (∀ i, full i) ∨ ¬ Subsingleton ι ∧ ∃ i, full i := by
  by_cases some : ∃ i, full i
  · by_cases all : ∀ i, full i
    · exact .inr (.inl all)
    · obtain ⟨i, here⟩ := some
      obtain ⟨j, there⟩ := not_forall.mp all
      refine .inr (.inr ⟨fun one => there ?_, i, here⟩)
      rwa [Subsingleton.elim j i]
  · exact .inl (not_exists.mp some)

/-- New entities in all engines: all have room, or all fail, or one of several
is lost. -/
theorem adopt {kind : Kind} {sh : Shape} {spared : List Nat → Prop}
    {new : ι → Arena → Except Halt (Option (UInt32 × Arena))}
    (refers : ∀ (w' : World ι) (o : ι → UInt32), w'.rel sh o →
      w'.Related tag fun i => .ref kind (o i))
    (allocates : w.Allocates (fun i => (e i).arena) sh spared new)
    (all : ∀ f ∈ s.frozen, spared f.1) :
    Together LostValue (Placed w s c tag.OrError)
      fun i => .ofExcept (Engine.adopt kind (new i) (e i)) := by
  obtain ⟨ends, grows⟩ := allocates
  choose r attempt using ends
  rcases all_or_none fun i => r i = none with room | full | ⟨several, i, full⟩
  · choose x made using fun i => Option.ne_none_iff_exists'.mp (room i)
    obtain ⟨w', le, fits, rel, scratch, limit, frozen⟩ := grows (fun i => (x i).1)
      (fun i => (x i).2) fun i => by rw [attempt, made]
    have placed : ∀ i, Engine.adopt kind (new i) (e i)
        = .ok (.ref kind (x i).1, { e i with arena := (x i).2 }) := fun i => by
      simp only [Engine.adopt, attempt, made]
    simp only [placed, Routine.steps]
    exact .placed le (alike.withArena le fits scratch limit fun f mem => frozen f.1 f.2 (all f mem))
      (.refl c tag) (refers w' _ rel) (.inl rfl)
  · have failed : ∀ i, Engine.adopt kind (new i) (e i) = Engine.fail .outOfMemory (e i) :=
      fun i => by simp only [Engine.adopt, attempt, full i]
    simp only [failed]
    exact alike.failAll .outOfMemory fun _ error => .inr error
  · refine alike.lostFull several i ?_
    simp only [Engine.adopt, attempt, full]

/-- A string of the arena is far from the largest one there could be. -/
theorem string_small [Nonempty ι] {a : ι → UInt32}
    (rel : w.rel (.string age text) a) : text.size < 2 ^ 30 := by
  have i := Classical.arbitrary ι
  have found := (alike.fits.good i).at?_eq (alike.fits.matched.content rel i)
  have inside := (World.shows_string (alike.fits.holds i) found).inside
  have size := alike.fits.size_le i
  simp only at inside
  omega

/-- So is a part of the text under strict rules. -/
theorem part_short [Nonempty ι] (x n : Nat) (strict : Strict ι) :
    (s.ground.text.extract x n).size + 8 < 2 ^ 32 := by
  have small := alike.cursor.small alike.fits strict
  rw [ByteArray.size_extract]
  omega

theorem newString (text : ByteArray) (short : Strict ι → text.size + 8 < 2 ^ 32) :
    Together LostValue (Placed w s c (Tag.string w.made text).OrError)
      fun i => .ofExcept (Engine.newString text (e i)) := by
  by_cases small : text.size < 2 ^ 31
  · simp only [Engine.newString_eq]
    exact alike.adopt (fun _ o rel => ⟨o, rel, fun _ => rfl⟩) (alike.fits.newString small)
      fun _ _ => trivial
  · -- no arena is that large
    have large : ∀ i, (e i).arena.bytes.size < text.size := fun i => by
      have size := alike.fits.size_le i
      omega
    by_cases fault : ∃ i, (e i).arena.newString? text = .error .fault
    · obtain ⟨i, fault⟩ := fault
      refine .halted (fun strict => ?_) i .fault ?_
      · have none := Arena.newString?_eq_none (large i) (alike.fits.holds i).limit_le_size
          (short strict)
        cases none.symm.trans fault
      · simp only [Engine.newString_eq, Engine.adopt, fault, Routine.steps]
    · have full : ∀ i, Engine.newString text (e i) = Engine.fail .outOfMemory (e i) := fun i => by
        have none := (Arena.newString?_large (large i)).resolve_right fun h => fault ⟨i, h⟩
        simp only [Engine.newString_eq, Engine.adopt, none]
      simp only [full]
      exact alike.failAll .outOfMemory fun _ error => .inr error

theorem newObject {parent : ι → UInt32} (rel : w.rel (.object ages) parent) :
    Together LostValue (Placed w s c (Tag.object (w.made :: ages)).OrError)
      fun i => .ofExcept (Engine.newObject (parent i) (e i)) := by
  simp only [Engine.newObject_eq]
  exact alike.adopt (fun _ o rel => ⟨o, rel, fun _ => rfl⟩) (alike.fits.newObject rel)
    fun _ _ => trivial

/-- What is frozen was there before new objects. -/
theorem spares_new (ages : List Nat) : s.Spares (w.made :: ages) := by
  intro f mem same
  have old := (alike.frozen f mem).1
  rw [same] at old
  exact Nat.lt_irrefl _ old

/-- New properties of objects that are not frozen. -/
theorem newProperty [Nonempty ι] {object key : ι → Value}
    (target : w.rel (.object ages) fun i => (object i).offset) (spares : s.Spares ages)
    (string : w.Related (.string age text) key) (related : w.Related tag v) (plain : tag.IsPlain) :
    ∃ names, Together LostValue (Placed w s c (Tag.property ((w.made, text) :: names)).OrError)
      fun i => .ofExcept (Engine.newProperty (object i) (key i) (v i) (e i)) := by
  obtain ⟨names, allocates⟩ :=
    alike.fits.newProperty target (World.Refers.offset string) related plain
  simp only [Engine.newProperty_eq]
  exact ⟨names, alike.adopt (fun _ o rel => ⟨o, rel, fun _ => rfl⟩) allocates spares⟩

/-! ## Values held during a production -/

omit alike in
/-- A production while a value is held, which is taken back afterwards. -/
theorem callHeld [Nonempty ι] {α : Type} {L : α → Prop} {P : (ι → α) → Prop} {stays : Prop}
    {gives : Current → Tag → Prop}
    {fails : ∀ (c : Current) (tag : Tag), tag.isError = true → gives c tag} {tag : Tag}
    {q : ι → Production} {f : ι → Value × Engine → Value × Engine → Progress α}
    (alike : Alike w { s with roots := tag :: s.roots } c e) (grounded : s.Grounded s.roots.length)
    (ready : Ready w { s with roots := tag :: s.roots } c q
      (.keeping stays gives { s with roots := tag :: s.roots } fails))
    (next : ∀ (w' : World ι) (c' : Current) (v : ι → Value) (t : Tag) (r : ι → Value)
      (e₁ e' : ι → Engine), Alike w' s c' e' → Since stays w w' c' → w'.Related tag v →
      w'.Related t r → gives c' t → Together L P fun i => f i (r i, e₁ i) (v i, e' i)) :
    Together L P fun i => (Routine.call (q i) (e i)).bind fun r =>
      (Progress.ofExcept (Engine.unhold r.2)).bind fun u => f i r u := by
  refine .afterCall ready alike fun w' c' t r e₁ alike₁ since related given => ?_
  obtain ⟨v, e', unheld, held, alike'⟩ := alike₁.unholdAll grounded
  simp only [unheld, Routine.steps]
  exact next w' c' v t r e₁ e' alike' since held related given

/-! ## Reading values -/

theorem resolve (related : w.Related tag v) :
    ∃ (tag' : Tag) (v' : ι → Value), (∀ i, Engine.resolve (v i) (e i) = .ok (v' i, e i))
      ∧ w.Related tag' v' ∧ (tag.IsOperand → tag'.IsPlain)
      ∧ (tag.kind ≠ .property → tag' = tag ∧ v' = v) := by
  obtain ⟨tag', v', run, rest⟩ := alike.fits.resolve related
  refine ⟨tag', v', fun i => ?_, rest⟩
  simp only [Engine.resolve, readArena, run i]

theorem stringBytes (rel : w.rel (.string age text) fun i => (v i).offset)
    (i : ι) : Engine.stringBytes (v i) (e i) = .ok (text, e i) := by
  simp only [Engine.stringBytes, readArena, alike.fits.stringBytes rel i]

theorem stringLength (rel : w.rel (.string age text) fun i => (v i).offset)
    (i : ι) : Engine.stringLength (v i) (e i) = .ok (UInt32.ofNat text.size, e i) := by
  simp only [Engine.stringLength, readArena, alike.fits.stringLength rel i]

theorem findProperty [Nonempty ι] (name : ByteArray) {a : ι → UInt32}
    (rel : w.rel (.object ages) a) :
    ∃ r, (∀ i, Engine.findProperty (a i) name (e i) = .ok (r i, e i)) ∧ w.Link r := by
  obtain ⟨r, run, link⟩ := alike.fits.findProperty name rel
  refine ⟨r, fun i => ?_, link⟩
  simp only [Engine.findProperty, readArena, run i]

/-- A value counts as true for all engines or for none. -/
theorem isTruthy (related : w.Related tag v) :
    ∃ b, ∀ i, Engine.isTruthy (v i) (e i) = .ok (b, e i) := by
  cases tag with
  | object ages =>
    exact ⟨true, fun i => by simp only [Engine.isTruthy, related.kind i, Tag.kind]; rfl⟩
  | property age =>
    exact ⟨false, fun i => by simp only [Engine.isTruthy, related.kind i, Tag.kind]; rfl⟩
  | function age text =>
    exact ⟨true, fun i => by simp only [Engine.isTruthy, related.kind i, Tag.kind]; rfl⟩
  | string age text =>
    have length := alike.stringLength (World.Refers.offset related)
    refine ⟨0 < UInt32.ofNat text.size, fun i => ?_⟩
    simp only [Engine.isTruthy, related.kind i, Tag.kind, bind, StateT.bind, Except.bind, length i]
    rfl
  | other x =>
    obtain ⟨bare, eq⟩ := related
    rw [Value.isEntity] at bare
    simp only [eq, Engine.isTruthy]
    cases kind : x.kind with
    | object => simp [kind, Kind.isEntity] at bare
    | property => simp [kind, Kind.isEntity] at bare
    | string => simp [kind, Kind.isEntity] at bare
    | function => simp [kind, Kind.isEntity] at bare
    | boolean => exact ⟨_, fun _ => rfl⟩
    | number => exact ⟨_, fun _ => rfl⟩
    | _ => exact ⟨false, fun _ => rfl⟩

/-! ## Names -/

/-- References to properties found by a search, or none in all engines. -/
theorem property_cases {r : ι → UInt32} (link : w.Link r) : (∀ i, r i = 0) ∨ (∀ i, r i ≠ 0)
      ∧ ∃ names, w.Related (.property names) fun i => .ref .property (r i) := by
  rcases alike.fits.matched.link_cases link with none | ⟨⟨names, rel⟩, some⟩
  · exact .inl none
  · exact .inr ⟨some, names, r, rel, fun _ => rfl⟩

/-- A name is found by all or by none. -/
theorem lookup [Nonempty ι] (name : ByteArray) : Together LostValue (Placed w s c Tag.IsOperand)
      fun i => .ofExcept (Engine.lookup name (e i)) := by
  simp only [Engine.lookup, Action.steps, alike.isDry]
  by_cases dry : c.mode.dry = true
  · simp only [dry, if_true]
    refine .placed (.refl w) alike (.refl c _) (World.related_other w (x := .zero) (by decide)) ?_
    rw [Tag.IsOperand]
    decide
  · have bound := alike.fits.lt_bound alike.scope
    obtain ⟨r, run, link⟩ := alike.fits.findInScopes name alike.scope bound
    have found : ∀ i, readArena (fun a => a.findInScopes name a.chainBound (e i).scope) (e i)
        = .ok (r i, e i) := fun i => by
      simp only [readArena, alike.fits.chainBound i, run i]
    simp only [dry, Routine.steps, found, Action.steps]
    rcases alike.property_cases link with none | ⟨some, names, related⟩
    · simp only [none, if_true]
      exact alike.failAll (.notFound name) fun _ error => (Tag.isPlain_of_isError error).2
    · simp only [some, if_false]
      exact .placed (.refl w) alike (.refl c _) related (by simp [Tag.IsOperand, Tag.kind])

/-- Related properties take on related plain values. -/
theorem assign [Nonempty ι] {target : ι → Value} {names : Names}
    (property : w.Related (.property names) target) (related : w.Related tag v)
    (plain : tag.IsPlain) :
    Together LostValue (Placed w s c (· = .property names))
      fun i => .ofExcept (Engine.assign (target i) (v i) (e i)) := by
  obtain ⟨w', arena, run, le, fits, scratch, limit, frozen⟩ :=
    alike.fits.assign (World.Refers.offset property) related plain
  have changed : ∀ i, changeArena (·.assign (target i).offset (v i)) (e i)
      = .ok ((), { e i with arena := arena i }) := fun i => by
    simp only [changeArena, run i]
  simp only [Engine.assign, Action.steps, changed]
  exact .placed le (alike.withArena le fits scratch limit fun f _ => frozen f.1 f.2) (.refl c _)
    (property.mono le) rfl

/-! ## Scopes -/

/-- How new scopes are entered: they are the active ones and none of them is
frozen, or all engines fail. -/
def Entered (w₀ : World ι) (s : Standing ι) (c₀ : Current) (r : ι → Value × Engine) : Prop :=
  ∃ (w : World ι) (c : Current) (tag : Tag) (v : ι → Value) (e : ι → Engine),
    (∀ i, r i = (v i, e i)) ∧ w₀.Le w ∧ Unmoved c₀ c tag ∧ w.Related tag v
      ∧ (tag.isError = true ∧ Alike w s c e
        ∨ ∃ age, tag = .object (age :: s.registers.scope) ∧ Alike w (s.inScope age) c e
          ∧ s.Spares (age :: s.registers.scope))

/-- Enters new scopes. -/
theorem enterScope :
    Together LostValue (Entered w s c) fun i => .ofExcept (Engine.enterScope (e i)) := by
  simp only [Engine.enterScope, Action.steps]
  refine (alike.newObject alike.scope).andThen ?_ fun i r lost => .inr ⟨r, ?_, lost⟩
  · intro w' c' tag v e' le alike' unmoved related gives
    simp only [related.isError]
    by_cases error : tag.isError = true
    · simp only [error, if_true]
      exact .finished _ (fun _ => rfl)
        ⟨w', c', tag, v, e', fun _ => rfl, le, unmoved, related, .inl ⟨error, alike'⟩⟩
    · obtain rfl := gives.resolve_right error
      obtain ⟨e'', reported, alike''⟩ := (alike'.withScope (World.Refers.offset related)).report
        fun i => .scopeEntered (v i).offset
      simp only [error, Routine.steps, Action.steps, reported]
      exact .finished _ (fun _ => rfl) ⟨w', c', _, v, e'', fun _ => rfl, le, unmoved, related,
        .inr ⟨w.made, rfl, alike'', alike.spares_new _⟩⟩
  · simp only [lost.1, if_true]

/-- Enters new scopes, and what follows there. -/
theorem inScope {α : Type} {L : α → Prop} {P : (ι → α) → Prop} {ending : Value × Engine → α}
    {f : ι → Value × Engine → Progress α} (way : Ending w₀ role L P ending)
    (ends : role.ends s) (since : Since role.stays w₀ w c)
    (next : ∀ (w' : World ι) (c' : Current) (age : Nat) (v : ι → Value) (e' : ι → Engine),
      Alike w' (s.inScope age) c' e' → s.Spares (age :: s.registers.scope) →
        c'.mode = c.mode → c'.spot = c.spot → Since role.stays w₀ w' c' →
        Together L P fun i => f i (v i, e' i)) :
    Together L P fun i => (Progress.ofExcept (Engine.enterScope (e i))).bind fun r =>
      if r.1.isError = true then .finished (ending r) else f i r := by
  refine alike.enterScope.bind (fun r entered => ?_) fun i r lost => ?_
  · obtain ⟨w', c', tag, v, e', eq, le, unmoved, related, outcome⟩ := entered
    obtain rfl : r = fun i => (v i, e' i) := funext eq
    have since' : Since role.stays w₀ w' c' := fun h => by
      rw [unmoved.mode]
      exact ⟨(since h).1.trans le, (since h).2⟩
    simp only [related.isError]
    rcases outcome with ⟨error, alike'⟩ | ⟨age, rfl, alike', spares⟩
    · simp only [error, if_true]
      exact .finish way alike' ends since' related (role.fails c' tag error)
    · have sane : (Tag.object (age :: s.registers.scope)).isError = false := rfl
      simp only [sane, Routine.steps]
      exact next w' c' age v e' alike' spares unmoved.mode (unmoved.spot sane) since'
  · right
    refine ⟨ending r, ?_, way.lost r lost⟩
    rw [if_pos lost.1]

omit alike in
/-- Goes back to the scopes around the active ones. -/
theorem leaveScope (alike : Alike w (s.inScope age) c e) :
    ∃ e', (∀ i, Engine.leaveScope (e i) = .ok ((), e' i)) ∧ Alike w s c e' := by
  obtain ⟨e', reported, alike'⟩ := alike.report fun i => .scopeLeft (e i).scope
  obtain ⟨up, parents, rel, -⟩ := alike'.fits.parent alike.scope
  refine ⟨_, fun i => ?_, alike'.withScope rel⟩
  simp only [Engine.leaveScope, bind, StateT.bind, Except.bind, get, getThe, MonadStateOf.get,
    StateT.get, pure, Except.pure, reported, readArena, parents]
  rfl

end Alike

end ArenaScript.Lockstep
