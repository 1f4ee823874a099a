import Mathlib.Logic.Relation
import ArenaScript.Proofs.Arena.Allocation
import ArenaScript.Proofs.Collector.Descent
import ArenaScript.Proofs.Source.Parameters

/-!
# Related heaps

Several engines run side by side, one for each index.  Their heaps differ in
where entities stand and in what garbage there is; what they have in common is
a relation between tuples of offsets, one offset for each engine.  Related
offsets hold entities of one shape whose links are related again.  The shape
says which entity it is: entities are counted as they are made, and an entity
keeps its age wherever it goes.

With one engine the relation says that the heap is well formed.  With two it
says that what can be seen from the registers is the same up to renaming.

Nothing is asked of the texts of functions that a host makes up, so calls may
run into their ends.  Under strict rules all such texts can be called, and an
engine on its own does not halt.  Only an engine on its own may have natives.

Main definitions:

- `World`: the heaps, the scratch words and the relation.
- `Rules`: whether the rules are strict, whether there may be natives, and from which
  world on entities are followed.
- `World.Related`: values that agree up to the relation.
- `World.Matched`: related offsets hold entities with related links.
- `World.Followed`: the steps that have led to a world.

Main results:

- `World.Matched.grow`: a new entity in every heap.
- `World.Matched.replace`: a change of related entities in every heap.
-/

namespace ArenaScript.Lockstep

variable {ι : Type}

/-! ## Shapes and tags -/

/-- The ages and the keys of the properties of a list. -/
abbrev Names := List (Nat × ByteArray)

/-- The names from the first one with a key on. -/
def Names.startingAt (names : Names) (key : ByteArray) : Names :=
  names.dropWhile fun name => name.2 ≠ key

theorem Names.startingAt_of_eq {name : Nat × ByteArray} {rest : Names} {key : ByteArray}
    (eq : name.2 = key) : Names.startingAt (name :: rest) key = name :: rest := by
  simp [Names.startingAt, eq]

theorem Names.startingAt_of_ne {name : Nat × ByteArray} {rest : Names} {key : ByteArray}
    (ne : name.2 ≠ key) : Names.startingAt (name :: rest) key = Names.startingAt rest key := by
  simp [Names.startingAt, ne]

/-- What related entities have in common.  An object is told by its own age and
the ages of the objects around it; the global scope has none.  A property is told
by the list from it on, which stays as it is while the property is there. -/
inductive Shape where
  | object (ages : List Nat)
  | property (names : Names)
  | string (age : Nat) (text : ByteArray)

/-- The number of entities made before; that of the global scope is 0. -/
def Shape.age : Shape → Nat
  | object ages => ages.headD 0
  | property names => (names.headD (0, .empty)).1
  | string age _ => age

/-- What related values have in common: the kind and the shape of what they
refer to, or the whole value if it refers to nothing. -/
inductive Tag where
  | object (ages : List Nat)
  | property (names : Names)
  | string (age : Nat) (text : ByteArray)
  | function (age : Nat) (text : ByteArray)
  | other (v : Value)

namespace Tag

/-- The kind of the values with a tag. -/
def kind : Tag → Kind
  | object _ => .object
  | property _ => .property
  | string _ _ => .string
  | function _ _ => .function
  | other v => v.kind

/-- The values with a tag are errors. -/
def isError (tag : Tag) : Bool := tag.kind == .error

/-- The values with a tag can be stored. -/
def IsPlain (tag : Tag) : Prop := tag.kind ≠ .property ∧ tag.kind ≠ .span

/-- The values with a tag can be operands. -/
def IsOperand (tag : Tag) : Prop := tag.kind ≠ .span

theorem IsPlain.isOperand {tag : Tag} (plain : tag.IsPlain) : tag.IsOperand := plain.2

end Tag

/-! ## Worlds -/

/-- Heaps and scratch words of engines over blocks of one size, with a relation
between their entities. -/
structure World (ι : Type) where
  /-- The bytes of each block. -/
  size : Nat
  /-- The heaps. -/
  heap : ι → Heap
  /-- The scratch words. -/
  scratch : ι → List Value
  /-- The number of entities made so far. -/
  made : Nat
  /-- Offsets, one in each heap, whose entities correspond. -/
  rel : Shape → (ι → UInt32) → Prop

/-! ## Rules -/

/-- The rules that hosts keep to.  They are strict only for an engine on its own,
and only such an engine may have natives.  Entities may be followed from a world on;
then only some engines may collect. -/
class Rules (ι : Type) where
  strict : Prop
  hosted : Prop
  lone : strict ∨ hosted → Subsingleton ι
  start : Option (World ι) := none
  mayCollect : Engine → Prop := fun _ => True

/-- Nothing is strict and nothing is followed unless it is said. -/
instance (priority := low) Rules.lax : Rules ι where
  strict := False
  hosted := Subsingleton ι
  lone := fun h => h.resolve_left id

/-- The same rules, with entities followed from a world on. -/
abbrev Rules.following (rules : Rules ι) (w : World ι) (mayCollect : Engine → Prop) : Rules ι :=
  { rules with start := some w, mayCollect := mayCollect }

/-- The rules are strict. -/
def Strict (ι : Type) [rules : Rules ι] : Prop := rules.strict

theorem Strict.lone [rules : Rules ι] (strict : Strict ι) : Subsingleton ι :=
  rules.lone (.inl strict)

/-- There may be natives. -/
def Hosted (ι : Type) [rules : Rules ι] : Prop := rules.hosted

theorem Hosted.lone [rules : Rules ι] (hosted : Hosted ι) : Subsingleton ι :=
  rules.lone (.inr hosted)

/-- An engine may collect. -/
def MayCollect (ι : Type) [rules : Rules ι] (e : Engine) : Prop := rules.mayCollect e

/-- No entities are followed, and all engines may collect. -/
structure Unfollowed (ι : Type) [rules : Rules ι] : Prop where
  start : rules.start = none
  may : ∀ e, MayCollect ι e

namespace World

variable {w w' : World ι} {v : ι → Value} {sh : Shape} {a o : ι → UInt32} {names : Names}
  {ages : List Nat}

/-- A second world relates all that a first one relates. -/
def Le (w w' : World ι) : Prop := ∀ sh a, w.rel sh a → w'.rel sh a

theorem Le.refl (w : World ι) : w.Le w := fun _ _ h => h

theorem Le.trans {w'' : World ι} (first : w.Le w') (second : w'.Le w'') : w.Le w'' :=
  fun sh a h => second sh a (first sh a h)

/-- Links to lists of properties with the same ages and keys. -/
def Lists (w : World ι) : Names → (ι → UInt32) → Prop
  | [], a => ∀ i, a i = 0
  | name :: rest, a => w.rel (.property (name :: rest)) a

/-- Links that all end a list or all lead to a property. -/
def Link (w : World ι) (a : ι → UInt32) : Prop :=
  (∀ i, a i = 0) ∨ ∃ names, w.rel (.property names) a

/-- References of one kind to related entities. -/
def Refers (w : World ι) (kind : Kind) (sh : Shape) (v : ι → Value) : Prop :=
  ∃ a, w.rel sh a ∧ ∀ i, v i = .ref kind (a i)

theorem Lists.mono (le : w.Le w') (lists : w.Lists names a) : w'.Lists names a := by
  cases names with
  | nil => exact lists
  | cons _ _ => exact le _ a lists

theorem Link.mono (le : w.Le w') (link : w.Link a) : w'.Link a :=
  link.imp_right fun ⟨names, rel⟩ => ⟨names, le _ a rel⟩

theorem Lists.link (lists : w.Lists names a) : w.Link a := by
  cases names with
  | nil => exact .inl lists
  | cons _ _ => exact .inr ⟨_, lists⟩

theorem Refers.mono (le : w.Le w') {kind : Kind} (refers : w.Refers kind sh v) :
    w'.Refers kind sh v := by
  obtain ⟨a, rel, eq⟩ := refers
  exact ⟨a, le _ a rel, eq⟩

theorem Refers.kind {kind : Kind} (refers : w.Refers kind sh v) (i : ι) : (v i).kind = kind := by
  obtain ⟨a, -, eq⟩ := refers
  rw [eq, Value.kind_ref]

/-- The offsets of references to related entities are related. -/
theorem Refers.offset {kind : Kind} (refers : w.Refers kind sh v) :
    w.rel sh fun i => (v i).offset := by
  obtain ⟨a, rel, eq⟩ := refers
  simpa only [eq, Value.offset_ref] using rel

variable [Rules ι]

/-- Values that agree up to the relation. -/
def Related (w : World ι) : Tag → (ι → Value) → Prop
  | .object ages, v => w.Refers .object (.object ages) v
  | .property names, v => w.Refers .property (.property names) v
  | .string age text, v => w.Refers .string (.string age text) v
  | .function age text, v =>
    w.Refers .function (.string age text) v ∧ (Strict ι → Source.Callable text)
  | .other x, v => x.isEntity = false ∧ ∀ i, v i = x

/-- What stands at related offsets. -/
def Content (w : World ι) : Shape → (ι → UInt32) → Prop
  | .object ages, a => ∃ first parent : ι → UInt32,
      (∀ i, (w.heap i).entity? (a i).toNat = some (.object (first i) (parent i)))
        ∧ w.Link first ∧ w.rel (.object ages.tail) parent
  | .property names, a => ∃ (next key : ι → UInt32) (value : ι → Value) (age : Nat)
      (text : ByteArray) (tag : Tag),
      (∀ i, (w.heap i).entity? (a i).toNat = some (.property (next i) (key i) (value i)))
        ∧ names.head?.map Prod.snd = some text ∧ w.Lists names.tail next
        ∧ w.rel (.string age text) key ∧ w.Related tag value ∧ tag.IsPlain
  | .string _ text, a => ∀ i, (w.heap i).entity? (a i).toNat = some (.string text)

/-- Related offsets hold entities with related links, and no offset is related
in two ways. -/
structure Matched (w : World ι) : Prop where
  /-- The global scopes correspond. -/
  origin : w.rel (.object []) fun _ => 0
  /-- One offset of a tuple fixes the shape and the other offsets. -/
  unique : ∀ {sh sh' : Shape} {a b : ι → UInt32} (i : ι), w.rel sh a → w.rel sh' b →
    a i = b i → sh = sh' ∧ a = b
  /-- Entities stand in the order of their making. -/
  order : ∀ {sh sh' : Shape} {a b : ι → UInt32} (i : ι), w.rel sh a → w.rel sh' b →
    (a i < b i ↔ sh.age < sh'.age)
  /-- All entities have been counted. -/
  counted : ∀ {sh : Shape} {a : ι → UInt32}, w.rel sh a → sh.age < w.made
  /-- A heap on its own has no entities besides the related ones. -/
  full : Subsingleton ι → ∀ (i : ι) (o : UInt32) (en : Entity),
    (w.heap i).entity? o.toNat = some en → ∃ sh a, w.rel sh a ∧ a i = o
  /-- Related offsets hold what their shape says. -/
  content : ∀ {sh : Shape} {a : ι → UInt32}, w.rel sh a → w.Content sh a

/-! ## Related values -/

variable {tag : Tag}

theorem Related.mono (le : w.Le w') (related : w.Related tag v) : w'.Related tag v := by
  cases tag with
  | object ages => exact Refers.mono le related
  | property names => exact Refers.mono le related
  | string age text => exact Refers.mono le related
  | function age text => exact ⟨Refers.mono le related.1, related.2⟩
  | other x => exact related

/-- Related values have the kind of their tag. -/
theorem Related.kind (related : w.Related tag v) (i : ι) : (v i).kind = tag.kind := by
  cases tag with
  | object ages => exact Refers.kind related i
  | property names => exact Refers.kind related i
  | string age text => exact Refers.kind related i
  | function age text => exact Refers.kind related.1 i
  | other x => rw [related.2 i]; rfl

/-- Related values are errors together. -/
theorem Related.isError (related : w.Related tag v) (i : ι) : (v i).isError = tag.isError := by
  rw [Value.isError, related.kind i, Tag.isError]

/-- Only references to properties have the kind of properties. -/
theorem Related.eq_property (related : w.Related tag v) (kind : tag.kind = .property) :
    ∃ names, tag = .property names := by
  cases tag with
  | property names => exact ⟨names, rfl⟩
  | other x =>
    have bare := related.1
    rw [Tag.kind] at kind
    rw [Value.isEntity, kind] at bare
    cases bare
  | _ => cases kind

/-- Values that refer to nothing are related if they are equal. -/
theorem related_other (w : World ι) {x : Value} (bare : x.isEntity = false) :
    w.Related (.other x) fun _ => x :=
  ⟨bare, fun _ => rfl⟩

/-- Tags of a kind that refers to nothing belong to equal values. -/
theorem Related.eq_of_not_entity (related : w.Related tag v) (bare : tag.kind.isEntity = false) :
    ∃ x, x.isEntity = false ∧ ∀ i, v i = x := by
  cases tag with
  | other x => exact ⟨x, related⟩
  | _ => cases bare

variable (matched : w.Matched)
include matched

/-- Related values refer to entities of their kinds. -/
theorem Related.types (related : w.Related tag v) (i : ι) : (w.heap i).Types (v i) := by
  have kind := related.kind i
  cases tag with
  | object ages =>
    obtain ⟨a, rel, eq⟩ := related
    obtain ⟨first, parent, there, -⟩ := matched.content rel
    rw [eq]
    refine ⟨fun _ => by rw [Value.kind_ref, Value.offset_ref], ?_⟩
    simp only [Value.kind_ref, Value.offset_ref]
    exact ⟨_, _, there i⟩
  | property names =>
    obtain ⟨a, rel, eq⟩ := related
    obtain ⟨next, key, value, _, text, tag, there, -⟩ := matched.content rel
    rw [eq]
    refine ⟨fun _ => by rw [Value.kind_ref, Value.offset_ref], ?_⟩
    simp only [Value.kind_ref, Value.offset_ref]
    exact ⟨_, _, _, there i⟩
  | string age text =>
    obtain ⟨a, rel, eq⟩ := related
    rw [eq]
    refine ⟨fun _ => by rw [Value.kind_ref, Value.offset_ref], ?_⟩
    simp only [Value.kind_ref, Value.offset_ref]
    exact ⟨_, matched.content rel i⟩
  | function age text =>
    obtain ⟨⟨a, rel, eq⟩, -⟩ := related
    rw [eq]
    refine ⟨fun _ => by rw [Value.kind_ref, Value.offset_ref], ?_⟩
    simp only [Value.kind_ref, Value.offset_ref]
    exact ⟨_, matched.content rel i⟩
  | other x =>
    obtain ⟨bare, eq⟩ := related
    rw [eq]
    refine ⟨fun entity => absurd entity (by simp [bare]), ?_⟩
    rw [Value.isEntity] at bare
    cases kind : x.kind with
    | object => simp [kind, Kind.isEntity] at bare
    | property => simp [kind, Kind.isEntity] at bare
    | string => simp [kind, Kind.isEntity] at bare
    | function => simp [kind, Kind.isEntity] at bare
    | _ => trivial

omit matched in
theorem Related.isPlain (related : w.Related tag v) (plain : tag.IsPlain) (i : ι) :
    (v i).IsPlain := by
  rw [Value.IsPlain, related.kind i]
  exact plain

/-! ## Related entities -/

/-- A shape is told by the entity that stands at an offset. -/
theorem Matched.found (rel : w.rel sh a) (i : ι) :
    ∃ e, (w.heap i).entity? (a i).toNat = some e := by
  have content := matched.content rel
  cases sh with
  | object ages =>
    obtain ⟨first, parent, there, -⟩ := content
    exact ⟨_, there i⟩
  | property names =>
    obtain ⟨next, key, value, _, text, tag, there, -⟩ := content
    exact ⟨_, there i⟩
  | string age text => exact ⟨_, content i⟩

/-- No string or property is the global scope. -/
theorem Matched.ne_zero (rel : w.rel sh a) (other : sh ≠ .object []) (i : ι) : a i ≠ 0 := by
  intro zero
  exact other (matched.unique i rel matched.origin zero).1

/-- Related links end a list together. -/
theorem Matched.link_cases (link : w.Link a) :
    (∀ i, a i = 0) ∨ (∃ names, w.rel (.property names) a) ∧ ∀ i, a i ≠ 0 := by
  rcases link with none | ⟨names, rel⟩
  · exact .inl none
  · exact .inr ⟨⟨names, rel⟩, matched.ne_zero rel nofun⟩

/-- The names of a property start with its own. -/
theorem Matched.eq_cons (rel : w.rel (.property names) a) : ∃ name rest, names = name :: rest := by
  obtain ⟨_, _, _, _, _, _, -, head, -⟩ := matched.content rel
  cases names with
  | nil => cases head
  | cons name rest => exact ⟨name, rest, rfl⟩

/-- Links lead to lists of the same names. -/
theorem Matched.exists_lists (link : w.Link a) : ∃ names, w.Lists names a := by
  rcases link with none | ⟨names, rel⟩
  · exact ⟨[], none⟩
  · obtain ⟨name, rest, rfl⟩ := matched.eq_cons rel
    exact ⟨name :: rest, rel⟩

/-- An age fixes the offsets. -/
theorem Matched.eq_of_age {sh' : Shape} {b : ι → UInt32} (rel : w.rel sh a)
    (rel' : w.rel sh' b) (same : sh.age = sh'.age) : a = b := by
  funext i
  have less := matched.order i rel rel'
  have more := matched.order i rel' rel
  rw [same] at less more
  refine UInt32.le_antisymm ?_ ?_
  · rw [← UInt32.not_lt, more]
    exact Nat.lt_irrefl _
  · rw [← UInt32.not_lt, less]
    exact Nat.lt_irrefl _

omit matched in
/-- Entities that stay as they are keep their content in a larger world. -/
theorem Content.mono (le : w.Le w')
    (same : ∀ i, (w'.heap i).entity? (a i).toNat = (w.heap i).entity? (a i).toNat)
    (content : w.Content sh a) : w'.Content sh a := by
  cases sh with
  | object ages =>
    obtain ⟨first, parent, there, link, up⟩ := content
    exact ⟨first, parent, fun i => (same i).trans (there i), link.mono le, le _ _ up⟩
  | property names =>
    obtain ⟨next, key, value, _, text, tag, there, head, lists, string, related, plain⟩ := content
    exact ⟨next, key, value, _, text, tag, fun i => (same i).trans (there i), head, lists.mono le,
      le _ _ string, related.mono le, plain⟩
  | string age text => exact fun i => (same i).trans (content i)

/-! ## Frozen objects -/

/-- Objects of some ages have properties with some names.  They are not made any
more, and they may be gone. -/
def Freezes (w : World ι) (ages : List Nat) (names : Names) : Prop :=
  ages.headD 0 < w.made ∧ ∀ a, w.rel (.object ages) a → ∃ first parent : ι → UInt32,
    (∀ i, (w.heap i).entity? (a i).toNat = some (.object (first i) (parent i)))
      ∧ w.Lists names first

omit [Rules ι] matched in
/-- Objects that stay as they are stay frozen. -/
theorem Freezes.mono (freezes : w.Freezes ages names) (le : w.Le w') (made : w.made ≤ w'.made)
    (old : ∀ a, w'.rel (.object ages) a → w.rel (.object ages) a)
    (same : ∀ a, w.rel (.object ages) a → ∀ i,
      (w'.heap i).entity? (a i).toNat = (w.heap i).entity? (a i).toNat) :
    w'.Freezes ages names := by
  refine ⟨Nat.lt_of_lt_of_le freezes.1 made, fun a rel => ?_⟩
  obtain ⟨first, parent, there, lists⟩ := freezes.2 a (old a rel)
  exact ⟨first, parent, fun i => (same a (old a rel) i).trans (there i), lists.mono le⟩

/-! ## Changes of all heaps -/

/-- A world with other heaps. -/
def withHeap (w : World ι) (heap : ι → Heap) : World ι := { w with heap := heap }

/-- The world after moves in all heaps: new offsets are related if the old ones were
and are kept. -/
def moved (w : World ι) (heap : ι → Heap) (m : ι → UInt32 → UInt32) (kept : ι → UInt32 → Prop) :
    World ι where
  size := w.size
  heap := heap
  scratch := fun i => (w.scratch i).map (Value.move (m i))
  made := w.made
  rel := fun sh b => ∃ a, w.rel sh a ∧ (∀ i, kept i (a i)) ∧ b = fun i => m i (a i)

/-- A world with other scratch words. -/
def withScratch (w : World ι) (scratch : ι → List Value) : World ι := { w with scratch := scratch }

/-- A world in which one more tuple of offsets is related. -/
def relating (w : World ι) (sh : Shape) (a : ι → UInt32) : World ι :=
  { w with made := w.made + 1, rel := fun sh' b => w.rel sh' b ∨ sh' = sh ∧ b = a }

omit [Rules ι] matched in
theorem le_withHeap (w : World ι) (heap : ι → Heap) : w.Le (w.withHeap heap) := fun _ _ h => h

omit [Rules ι] matched in
theorem le_relating (w : World ι) (sh : Shape) (a : ι → UInt32) : w.Le (w.relating sh a) :=
  fun _ _ h => .inl h

/-- New entities at the ends of all heaps are related. -/
theorem Matched.grow {r : ι → Record}
    (place : ∀ i, (w.heap i).extent = (o i).toNat) (newest : sh.age = w.made)
    (content : ((w.withHeap fun i => w.heap i ++ [r i]).relating sh o).Content sh o) :
    ((w.withHeap fun i => w.heap i ++ [r i]).relating sh o).Matched := by
  -- an old offset lies below the end of its heap
  have below : ∀ {sh' : Shape} {b : ι → UInt32} (i : ι), w.rel sh' b → b i < o i := by
    intro sh' b i rel
    obtain ⟨e, found⟩ := matched.found rel i
    rw [Heap.entity?, Option.map_eq_some_iff] at found
    obtain ⟨r, found, -⟩ := found
    have bound := Heap.at?_le_extent found
    have positive := r.eight_le_size
    rw [place i] at bound
    rw [UInt32.lt_iff_toNat_lt]
    omega
  refine ⟨.inl matched.origin, ?_, ?_, ?_, ?_, ?_⟩
  · intro sh₁ sh₂ a b i left right same
    rcases left with left | ⟨rfl, rfl⟩
    · rcases right with right | ⟨rfl, rfl⟩
      · exact matched.unique i left right same
      · exact absurd same (UInt32.ne_of_lt (below i left))
    · rcases right with right | ⟨rfl, rfl⟩
      · exact absurd same.symm (UInt32.ne_of_lt (below i right))
      · exact ⟨rfl, rfl⟩
  · intro sh₁ sh₂ a b i left right
    rcases left with left | ⟨rfl, rfl⟩
    · rcases right with right | ⟨rfl, rfl⟩
      · exact matched.order i left right
      · exact iff_of_true (below i left) (newest ▸ matched.counted left)
    · rcases right with right | ⟨rfl, rfl⟩
      · refine iff_of_false (UInt32.lt_asymm (below i right)) (Nat.lt_asymm ?_)
        rw [newest]
        exact matched.counted right
      · exact iff_of_false (UInt32.lt_irrefl _) (Nat.lt_irrefl _)
  · intro sh' a rel
    rcases rel with rel | ⟨rfl, rfl⟩
    · exact Nat.lt_succ_of_lt (matched.counted rel)
    · rw [newest]
      exact Nat.lt_succ_self _
  · intro lone i p en found
    rcases Heap.entity?_append_cases found with found | ⟨last, -⟩
    · obtain ⟨sh', a, rel, here⟩ := matched.full lone i p en found
      exact ⟨sh', a, .inl rel, here⟩
    · exact ⟨sh, o, .inr ⟨rfl, rfl⟩, UInt32.toNat_inj.mp ((place i).symm.trans last.symm)⟩
  · intro sh' a rel
    rcases rel with rel | ⟨rfl, rfl⟩
    · refine (matched.content rel).mono ((le_withHeap w _).trans (le_relating _ _ _)) fun i => ?_
      obtain ⟨e, found⟩ := matched.found rel i
      rw [found]
      exact Heap.entity?_append_left found
    · exact content

/-- New entities are not among the frozen objects. -/
theorem Matched.freezes_grow {r : ι → Record} (newest : sh.age = w.made)
    (freezes : w.Freezes ages names) :
    ((w.withHeap fun i => w.heap i ++ [r i]).relating sh o).Freezes ages names := by
  refine freezes.mono (fun _ _ h => .inl h) (Nat.le_succ _) (fun a rel => ?_) fun a rel i => ?_
  · rcases rel with rel | ⟨rfl, rfl⟩
    · exact rel
    · exact absurd newest (Nat.ne_of_lt freezes.1)
  · obtain ⟨e, found⟩ := matched.found rel i
    rw [found]
    exact Heap.entity?_append_left found

/-- Related entities are replaced by others of their kind in all heaps. -/
theorem Matched.replace [Nonempty ι] {n : ι → Entity} (rel : w.rel sh o)
    (same : ∀ i e, (w.heap i).entity? (o i).toNat = some e → e.SameKind (n i))
    (content : (w.withHeap fun i => (w.heap i).update (o i).toNat ⟨n i, false⟩).Content sh o) :
    (w.withHeap fun i => (w.heap i).update (o i).toNat ⟨n i, false⟩).Matched := by
  have change := fun i => (matched.found rel i).imp fun e found => And.intro found
    (Heap.entity?_update found (same i e found))
  refine ⟨matched.origin, matched.unique, matched.order, matched.counted, ?_, ?_⟩
  · intro lone i p en found
    obtain ⟨e, there, update⟩ := change i
    by_cases here : p.toNat = (o i).toNat
    · exact ⟨sh, o, rel, UInt32.toNat_inj.mp here.symm⟩
    · exact matched.full lone i p en ((update p.toNat).trans (if_neg here) ▸ found)
  intro sh' a rel'
  by_cases here : a = o
  · subst here
    obtain ⟨rfl, -⟩ := matched.unique (Classical.arbitrary ι) rel rel' rfl
    exact content
  · refine (matched.content rel').mono (le_withHeap w _) fun i => ?_
    obtain ⟨e, -, update⟩ := change i
    have away : (a i).toNat ≠ (o i).toNat := by
      intro meet
      exact here (matched.unique i rel' rel (UInt32.toNat_inj.mp meet)).2
    exact (update _).trans (if_neg away)

/-- Frozen objects are not among entities that are replaced. -/
theorem Matched.freezes_replace {n : ι → Entity} (rel : w.rel sh o)
    (same : ∀ i e, (w.heap i).entity? (o i).toNat = some e → e.SameKind (n i))
    (other : sh ≠ .object ages) (freezes : w.Freezes ages names) :
    (w.withHeap fun i => (w.heap i).update (o i).toNat ⟨n i, false⟩).Freezes ages names := by
  refine freezes.mono (le_withHeap w _) (Nat.le_refl _) (fun _ h => h) fun a rel' i => ?_
  obtain ⟨e, found⟩ := matched.found rel i
  have away : (a i).toNat ≠ (o i).toNat := by
    intro meet
    exact other (matched.unique i rel rel' (UInt32.toNat_inj.mp meet).symm).1
  exact (Heap.entity?_update found (same i e found) _).trans (if_neg away)

/-! ## From world to world -/

/-- No entity moves from a world to another one: what is related stays related, and
only what is made later is related besides. -/
structure Alters (w w' : World ι) : Prop where
  le : w.Le w'
  made : w.made ≤ w'.made
  old : ∀ sh a, sh.age < w.made → w'.rel sh a → w.rel sh a
  heap : ∀ i, (w.heap i).Alters (w'.heap i)

omit [Rules ι] matched in
theorem alters_withHeap {heap : ι → Heap} (each : ∀ i, (w.heap i).Alters (heap i)) :
    w.Alters (w.withHeap heap) :=
  ⟨w.le_withHeap heap, Nat.le_refl _, fun _ _ _ rel => rel, each⟩

omit [Rules ι] matched in
theorem alters_withScratch (w : World ι) (scratch : ι → List Value) :
    w.Alters (w.withScratch scratch) :=
  ⟨fun _ _ rel => rel, Nat.le_refl _, fun _ _ _ rel => rel, fun i => .refl (w.heap i)⟩

omit [Rules ι] matched in
theorem alters_grow (r : ι → Record) (o : ι → UInt32) (newest : sh.age = w.made) :
    w.Alters ((w.withHeap fun i => w.heap i ++ [r i]).relating sh o) where
  le := fun _ _ rel => .inl rel
  made := Nat.le_succ _
  old := by
    rintro sh' a young (rel | ⟨rfl, rfl⟩)
    · exact rel
    · exact absurd newest (Nat.ne_of_lt young)
  heap := fun i => .append (w.heap i) (r i)

/-- A heap after a collection of an engine that may collect, or as it is, with the map
of the offsets and those that are kept. -/
inductive Sweeps (may : Engine → Prop) (h : Heap) (scratch : List Value) :
    Heap → (UInt32 → UInt32) → (UInt32 → Prop) → Prop
  | none : Sweeps may h scratch h id fun o => ∃ en, h.entity? o.toNat = some en
  | one {e e' : Engine} {h' : Heap} {m : UInt32 → UInt32} {k : Cursor → Cursor}
      (allowed : may e) (sound : e.Sound h scratch) (run : e.collectNow = .ok ((), e'))
      (done : e.Collected h scratch e' h' m k) : Sweeps may h scratch h' m (e.Live h scratch)

/-- One step from a world to another one. -/
inductive Step : World ι → World ι → Prop
  | alters {w w' : World ι} (alters : w.Alters w') : Step w w'
  | sweeps {w : World ι} {heap : ι → Heap} {m : ι → UInt32 → UInt32} {kept : ι → UInt32 → Prop}
      (each : ∀ i, Sweeps (MayCollect ι) (w.heap i) (w.scratch i) (heap i) (m i) (kept i)) :
      Step w (w.moved heap m kept)

/-- A number of steps lead from the world where entities are followed from on. -/
def Followed (w : World ι) : Prop :=
  ∀ w₀, Rules.start = some w₀ → Relation.ReflTransGen Step w₀ w

omit matched in
theorem followed_of_unfollowed (unfollowed : Unfollowed ι) (w : World ι) : w.Followed := by
  intro w₀ start
  rw [unfollowed.start] at start
  cases start

omit matched in
theorem Followed.alters (followed : w.Followed) (alters : w.Alters w') : w'.Followed :=
  fun w₀ start => (followed w₀ start).tail (.alters alters)

end World

end ArenaScript.Lockstep
