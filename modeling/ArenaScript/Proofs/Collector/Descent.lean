import Mathlib.Data.List.Forall2
import ArenaScript.Proofs.Collector.Collection

/-!
# Where entities come to stand

Between collections no entity moves: new ones come to the end of a heap, a property
takes on another value, and an object another first property, the next one of which
is the one before.  A collection moves what is live and drops the rest.  So where an
entity stands after a number of such steps is a matter of the collections alone.

Main definitions:

- `Heap.Alters`: a change of a heap that leaves all entities where they are.
- `Heap.Descends`: such changes and collections one after the other, with the offsets
  that entities had and have.
- `Heap.Links`: the properties of a list.

Main results:

- `Heap.Descends.eq_of_none`: without collections nothing moves.
- `Heap.Descends.unique`, `Heap.Descends.lt`: entities stay apart, in their order.
- `Heap.Descends.object`, `Heap.Descends.property`, `Heap.Descends.string`: objects
  keep their parents, properties their keys and successors, strings their texts.
- `Heap.Descends.links`: lists of properties grow at their heads only.
-/

namespace ArenaScript

namespace Heap

/-! ## Changes in place -/

/-- Every entity stays where it is: an object keeps its parent and its list of
properties, perhaps behind a new first one; a property keeps its key and its
successor, a string its text. -/
structure Alters (h h' : Heap) : Prop where
  object : ∀ o first parent, h.entity? o = some (.object first parent) →
    ∃ first', h'.entity? o = some (.object first' parent) ∧ (first' = first ∨
      ∃ key value, h'.entity? first'.toNat = some (.property first key value))
  property : ∀ o next key value, h.entity? o = some (.property next key value) →
    ∃ value', h'.entity? o = some (.property next key value')
  string : ∀ o text, h.entity? o = some (.string text) → h'.entity? o = some (.string text)

namespace Alters

variable {h : Heap}

/-- What is there is there afterwards. -/
theorem of_kept {h' : Heap} (kept : ∀ o en, h.entity? o = some en → h'.entity? o = some en) :
    h.Alters h' where
  object := fun o first _ found => ⟨first, kept o _ found, .inl rfl⟩
  property := fun o _ _ value found => ⟨value, kept o _ found⟩
  string := fun o _ found => kept o _ found

theorem refl (h : Heap) : h.Alters h := of_kept fun _ _ found => found

/-- A new entity comes to the end. -/
theorem append (h : Heap) (r : Record) : h.Alters (h ++ [r]) :=
  of_kept fun _ _ found => entity?_append_left found

/-- A property takes on another value. -/
theorem assign {o : Nat} {next key : UInt32} {value : Value}
    (found : h.entity? o = some (.property next key value)) (value' : Value) :
    h.Alters (h.update o ⟨.property next key value', false⟩) := by
  have there := entity?_update (n := .property next key value') found trivial
  refine ⟨fun k first _ here => ⟨first, ?_, .inl rfl⟩, fun k _ _ _ here => ?_, fun k _ here => ?_⟩
  · rw [there, if_neg (fun same => by rw [same, found] at here; cases here), here]
  · rw [there]
    split
    · next same =>
      rw [same, found] at here
      cases here
      exact ⟨_, rfl⟩
    · exact ⟨_, here⟩
  · rw [there, if_neg (fun same => by rw [same, found] at here; cases here), here]

/-- An object takes on another first property, in front of the one before. -/
theorem link {o : Nat} {first parent p key : UInt32} {value : Value}
    (found : h.entity? o = some (.object first parent))
    (new : h.entity? p.toNat = some (.property first key value)) :
    h.Alters (h.update o ⟨.object p parent, false⟩) := by
  have there := entity?_update (n := .object p parent) found trivial
  have other : ∀ {k : Nat} {en : Entity}, h.entity? k = some en →
      (∀ first parent, en ≠ .object first parent) →
      (h.update o ⟨.object p parent, false⟩).entity? k = some en := by
    intro k en here differs
    rw [there, if_neg (fun same => ?_), here]
    rw [same, found] at here
    exact differs _ _ (Option.some.inj here).symm
  refine ⟨fun k first' _ here => ?_, fun k _ _ value' here => ⟨value', ?_⟩, fun k _ here => ?_⟩
  · rw [there]
    split
    · next same =>
      rw [same, found] at here
      cases here
      exact ⟨p, rfl, .inr ⟨key, value, other new nofun⟩⟩
    · exact ⟨first', here, .inl rfl⟩
  · exact other here nofun
  · exact other here nofun

end Alters

/-! ## Collections in between -/

/-- A heap comes from another one by changes in place and by collections of engines of
some kind.  An entity that is kept all along has come from one offset to another. -/
inductive Descends (collects : Engine → Prop) (h : Heap) :
    Heap → (UInt32 → UInt32 → Prop) → Prop
  | start : Descends collects h h fun o o' => o' = o
  | alter {h₁ h₂ : Heap} {path : UInt32 → UInt32 → Prop} (before : Descends collects h h₁ path)
      (alters : h₁.Alters h₂) : Descends collects h h₂ path
  | collect {h₁ h₂ : Heap} {path : UInt32 → UInt32 → Prop} {e e' : Engine} {scratch : List Value}
      {m : UInt32 → UInt32} {k : Cursor → Cursor} (before : Descends collects h h₁ path)
      (may : collects e) (sound : e.Sound h₁ scratch) (run : e.collectNow = .ok ((), e'))
      (done : e.Collected h₁ scratch e' h₂ m k) :
      Descends collects h h₂ fun o o' => ∃ p, path o p ∧ e.Live h₁ scratch p ∧ o' = m p

/-- The properties of a list, from an offset on. -/
inductive Links (h : Heap) : UInt32 → List UInt32 → Prop
  | nil : Links h 0 []
  | cons {o next key : UInt32} {value : Value} {rest : List UInt32}
      (found : h.entity? o.toNat = some (.property next key value)) (links : Links h next rest) :
      Links h o (o :: rest)

/-- A list stays as it is by a change in place. -/
theorem Links.alter {h h' : Heap} (alters : h.Alters h') {o : UInt32} {list : List UInt32}
    (links : h.Links o list) : h'.Links o list := by
  induction links with
  | nil => exact .nil
  | cons found _ ih =>
    obtain ⟨value, there⟩ := alters.property _ _ _ _ found
    exact .cons there ih

/-- A list whose first property is live is kept by a collection, all of it. -/
theorem Links.collect {h h' : Heap} {e e' : Engine} {scratch : List Value} {m : UInt32 → UInt32}
    {k : Cursor → Cursor} (done : e.Collected h scratch e' h' m k) {o : UInt32}
    {list : List UInt32} (links : h.Links o list) (live : o = 0 ∨ e.Live h scratch o) :
    h'.Links (m o) (list.map m) ∧ ∀ p ∈ list, e.Live h scratch p := by
  induction links with
  | nil =>
    rw [done.zero]
    exact ⟨.nil, nofun⟩
  | @cons o next key value rest found _ ih =>
    have live : e.Live h scratch o := live.elim (fun zero => zero ▸ done.origin) id
    have followed : next = 0 ∨ e.Live h scratch next := by
      by_cases last : next = 0
      · exact .inl last
      · refine .inr (.link live found (List.mem_append_right _ ?_))
        rw [Entity.linkTo, if_neg last]
        exact List.mem_singleton_self _
    obtain ⟨links', all⟩ := ih followed
    exact ⟨.cons (done.places o _ live found) links', List.forall_mem_cons.mpr ⟨live, all⟩⟩

/-- Offsets that correspond to live ones. -/
theorem forall₂_and_right {α β : Type} {R : α → β → Prop} {P : β → Prop} {xs : List α} {ys : List β}
    (related : List.Forall₂ R xs ys) (all : ∀ y ∈ ys, P y) :
    List.Forall₂ (fun x y => R x y ∧ P y) xs ys :=
  ((List.forall₂_and_left ys xs).mpr ⟨all, related.flip⟩).flip.imp fun _ _ both => both.symm

namespace Descends

variable {collects : Engine → Prop} {h h' : Heap} {path : UInt32 → UInt32 → Prop}
  {o o' p p' : UInt32}

/-- Without collections nothing moves. -/
theorem eq_of_none (descends : h.Descends collects h' path) (none : ∀ e, ¬ collects e)
    (here : path o o') : o' = o := by
  induction descends generalizing o' with
  | start => exact here
  | alter _ _ ih => exact ih here
  | collect _ may => exact absurd may (none _)

/-- The global scope stays where it is. -/
theorem zero (descends : h.Descends collects h' path) : path 0 0 := by
  induction descends with
  | start => rfl
  | alter _ _ ih => exact ih
  | collect _ _ _ _ done ih => exact ⟨0, ih, done.origin, done.zero.symm⟩

theorem unique (descends : h.Descends collects h' path) (here : path o o') (there : path o p') :
    o' = p' := by
  induction descends generalizing o' p' with
  | start => exact here.trans there.symm
  | alter _ _ ih => exact ih here there
  | collect _ _ _ _ _ ih =>
    obtain ⟨q, here, -, rfl⟩ := here
    obtain ⟨q', there, -, rfl⟩ := there
    rw [ih here there]

/-- Entities keep their order. -/
theorem lt (descends : h.Descends collects h' path) (here : path o o') (there : path p p')
    (less : o < p) : o' < p' := by
  induction descends generalizing o' p' with
  | start =>
    obtain rfl := here
    obtain rfl := there
    exact less
  | alter _ _ ih => exact ih here there
  | collect _ _ _ _ done ih =>
    obtain ⟨q, here, live, rfl⟩ := here
    obtain ⟨q', there, live', rfl⟩ := there
    exact done.increasing q q' live live' (ih here there)

/-- A string keeps its text. -/
theorem string (descends : h.Descends collects h' path) (here : path o o') {text : ByteArray}
    (found : h.entity? o.toNat = some (.string text)) :
    h'.entity? o'.toNat = some (.string text) := by
  induction descends generalizing o' with
  | start => exact here ▸ found
  | alter _ alters ih => exact alters.string _ _ (ih here)
  | collect _ _ _ _ done ih =>
    obtain ⟨q, here, live, rfl⟩ := here
    exact done.places q _ live (ih here)

/-- An object stays one, and its parent goes where it goes. -/
theorem object (descends : h.Descends collects h' path) (here : path o o') {first parent : UInt32}
    (found : h.entity? o.toNat = some (.object first parent)) :
    ∃ first' parent', h'.entity? o'.toNat = some (.object first' parent') ∧ path parent parent' := by
  induction descends generalizing o' with
  | start => exact ⟨first, parent, here ▸ found, rfl⟩
  | alter _ alters ih =>
    obtain ⟨first₁, parent₁, there, above⟩ := ih here
    obtain ⟨first₂, there, -⟩ := alters.object _ _ _ there
    exact ⟨first₂, parent₁, there, above⟩
  | collect _ _ _ _ done ih =>
    obtain ⟨q, here, live, rfl⟩ := here
    obtain ⟨first₁, parent₁, there, above⟩ := ih here
    exact ⟨_, _, done.places q _ live there, parent₁, above,
      .link live there (List.mem_cons_self ..), rfl⟩

/-- A property stays one, and its key and its successor go where it goes. -/
theorem property (descends : h.Descends collects h' path) (here : path o o') {next key : UInt32}
    {value : Value} (found : h.entity? o.toNat = some (.property next key value)) :
    ∃ next' key' value', h'.entity? o'.toNat = some (.property next' key' value')
      ∧ path key key' ∧ (next = 0 ∧ next' = 0 ∨ path next next') := by
  induction descends generalizing o' with
  | start => exact ⟨next, key, value, here ▸ found, rfl, .inr rfl⟩
  | alter _ alters ih =>
    obtain ⟨next₁, key₁, value₁, there, named, followed⟩ := ih here
    obtain ⟨value₂, there⟩ := alters.property _ _ _ _ there
    exact ⟨next₁, key₁, value₂, there, named, followed⟩
  | collect _ _ _ _ done ih =>
    obtain ⟨q, here, live, rfl⟩ := here
    obtain ⟨next₁, key₁, value₁, there, named, followed⟩ := ih here
    refine ⟨_, _, _, done.places q _ live there, ⟨key₁, named,
      .link live there (List.mem_cons_self ..), rfl⟩, ?_⟩
    by_cases last : next₁ = 0
    · subst last
      rcases followed with ⟨rfl, -⟩ | followed
      · exact .inl ⟨rfl, done.zero⟩
      · exact .inr ⟨0, followed, done.origin, rfl⟩
    · refine .inr ⟨next₁, followed.resolve_left fun both => last both.2, .link live there ?_, rfl⟩
      refine List.mem_append_right _ ?_
      rw [Entity.linkTo, if_neg last]
      exact List.mem_singleton_self _

/-- An entity that has gone somewhere is there. -/
theorem found (descends : h.Descends collects h' path) (here : path o o') {en : Entity}
    (found : h.entity? o.toNat = some en) : ∃ en', h'.entity? o'.toNat = some en' := by
  cases en with
  | object first parent =>
    obtain ⟨_, _, there, -⟩ := descends.object here found
    exact ⟨_, there⟩
  | property next key value =>
    obtain ⟨_, _, _, there, -⟩ := descends.property here found
    exact ⟨_, there⟩
  | string text => exact ⟨_, descends.string here found⟩

/-- The list of an object is kept, perhaps behind new properties. -/
theorem links (descends : h.Descends collects h' path) (here : path o o') {first parent : UInt32}
    (found : h.entity? o.toNat = some (.object first parent)) {list : List UInt32}
    (links : h.Links first list) :
    ∃ first' parent' new list', h'.entity? o'.toNat = some (.object first' parent')
      ∧ h'.Links first' (new ++ list') ∧ List.Forall₂ path list list' := by
  induction descends generalizing o' with
  | start =>
    exact ⟨first, parent, [], list, here ▸ found, links, List.forall₂_same.mpr fun _ _ => rfl⟩
  | alter _ alters ih =>
    obtain ⟨first₁, parent₁, new, list₁, there, links₁, kept⟩ := ih here
    obtain ⟨first₂, there₂, same | ⟨key, value, head⟩⟩ := alters.object _ _ _ there
    · exact ⟨first₁, parent₁, new, list₁, same ▸ there₂, links₁.alter alters, kept⟩
    · exact ⟨first₂, parent₁, first₂ :: new, list₁, there₂, .cons head (links₁.alter alters), kept⟩
  | @collect h₁ h₂ path e e' scratch m _ _ _ _ _ done ih =>
    obtain ⟨q, here, object, rfl⟩ := here
    obtain ⟨first₁, parent₁, new, list₁, there, links₁, kept⟩ := ih here
    have followed : first₁ = 0 ∨ e.Live h₁ scratch first₁ := by
      by_cases none : first₁ = 0
      · exact .inl none
      · refine .inr (.link object there (List.mem_cons_of_mem _ ?_))
        rw [Entity.linkTo, if_neg none]
        exact List.mem_singleton_self _
    obtain ⟨links₂, all⟩ := links₁.collect done followed
    rw [List.map_append] at links₂
    have live : ∀ p ∈ list₁, e.Live h₁ scratch p := fun p mem => all p (List.mem_append_right _ mem)
    refine ⟨_, _, new.map m, list₁.map m, done.places q _ object there, links₂, ?_⟩
    refine List.forall₂_map_right_iff.mpr ((forall₂_and_right kept live).imp fun _ p both => ?_)
    exact ⟨p, both.1, both.2, rfl⟩

end Descends

end Heap

end ArenaScript
