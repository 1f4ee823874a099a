import ArenaScript.Proofs.Collector.Compaction
import ArenaScript.Engine.Basic

/-!
# Well-formed heaps

Links lead to entities of the right kind.  A heap is well formed when none of
its records is marked, the global scope stands at offset 0, property lists and
chains of scopes lead downwards, and the value of every property is a plain
value that refers to an entity of its own kind.  An engine is sound when its
arena holds a well-formed heap and its registers refer to entities of the right
kind.

Main definitions:

- `Heap.Types`: a value refers to an entity of its own kind.
- `Heap.WellFormed`: the invariant of a heap.
- `Engine.Sound`: the invariant of an engine.

Main results:

- `Heap.Types.found`: what a value refers to is there.
- `Heap.WellFormed.links_found`: what an entity refers to is there.
- `Heap.WellFormed.append`: a new entity that refers to entities of the heap.
- `Heap.WellFormed.replace`: an entity with new links or a new value.
-/

namespace ArenaScript

namespace Heap

/-- An object stands at an offset. -/
def IsObject (h : Heap) (o : UInt32) : Prop :=
  ∃ first parent, h.entity? o.toNat = some (.object first parent)

/-- A property stands at an offset. -/
def IsProperty (h : Heap) (o : UInt32) : Prop :=
  ∃ next key value, h.entity? o.toNat = some (.property next key value)

/-- A string stands at an offset. -/
def IsString (h : Heap) (o : UInt32) : Prop := ∃ text, h.entity? o.toNat = some (.string text)

/-- A value of a kind that refers to an entity refers to one of that kind.  The
text of a function is a string. -/
def Types (h : Heap) (v : Value) : Prop :=
  v.Canonical ∧
    match v.kind with
    | .object => h.IsObject v.offset
    | .property => h.IsProperty v.offset
    | .string | .function => h.IsString v.offset
    | _ => True

end Heap

/-- A value that can be stored: neither a reference to a property nor a piece
of the current text. -/
def Value.IsPlain (v : Value) : Prop := v.kind ≠ .property ∧ v.kind ≠ .span

namespace Heap

/-- What an entity at an offset may hold. -/
def Admits (h : Heap) (o : UInt32) : Entity → Prop
  | .object first parent =>
    (first = 0 ∨ h.IsProperty first) ∧ h.IsObject parent ∧ (parent < o ∨ o = 0 ∧ parent = 0)
  | .property next key value =>
    (next = 0 ∨ h.IsProperty next ∧ next < o) ∧ (h.IsString key ∧ key < o)
      ∧ h.Types value ∧ value.IsPlain
  | .string _ => True

/-- The invariant of a heap. -/
structure WellFormed (h : Heap) : Prop where
  /-- There are no marks. -/
  clear : ∀ r ∈ h, r.marked = false
  /-- The global scope is the first entity. -/
  origin : h.IsObject 0
  /-- Every entity holds what it may hold. -/
  admits : ∀ o e, h.entity? o.toNat = some e → h.Admits o e

end Heap

/-- The invariant of an engine, with its heap and its scratch stack. -/
structure Engine.Sound (e : Engine) (h : Heap) (scratch : List Value) : Prop where
  /-- The arena holds the heap. -/
  holds : e.arena.Holds h scratch
  /-- The heap is well formed. -/
  heap : h.WellFormed
  /-- The active scope is an object. -/
  scope : h.IsObject e.scope
  /-- The pinned entity is a string. -/
  pinned : e.pinned = 0 ∨ h.IsString e.pinned
  /-- The last returned value is plain. -/
  result : h.Types e.result ∧ e.result.IsPlain
  /-- The values held for later refer to entities of their kinds. -/
  roots : ∀ v ∈ e.roots, h.Types v
  /-- So do the arguments of natives, which are plain. -/
  scratch : ∀ v ∈ scratch, h.Types v ∧ v.IsPlain

namespace Heap

variable {h : Heap} {o : UInt32} {e : Entity} {k : Heap}

/-! ## What is referred to is there -/

theorem IsObject.found (there : h.IsObject o) : ∃ e, h.entity? o.toNat = some e := by
  obtain ⟨first, parent, found⟩ := there
  exact ⟨_, found⟩

theorem IsProperty.found (there : h.IsProperty o) : ∃ e, h.entity? o.toNat = some e := by
  obtain ⟨next, key, value, found⟩ := there
  exact ⟨_, found⟩

theorem IsString.found (there : h.IsString o) : ∃ e, h.entity? o.toNat = some e := by
  obtain ⟨text, found⟩ := there
  exact ⟨_, found⟩

/-- What a value refers to is there. -/
theorem Types.found {v : Value} (typed : h.Types v) (mem : o ∈ Arena.valueLinks v) :
    ∃ e, h.entity? o.toNat = some e := by
  obtain ⟨-, there⟩ := typed
  simp only [Arena.valueLinks] at mem
  split at mem
  next entity =>
    rw [List.mem_singleton.mp mem]
    simp only [Value.isEntity] at entity
    cases kind : v.kind <;> simp only [kind, Kind.isEntity, Bool.false_eq_true] at entity there
    · exact there.found
    · exact there.found
    · exact there.found
    · exact there.found
  next => simp at mem

/-- What an entity refers to is there. -/
theorem WellFormed.links_found (good : h.WellFormed) (found : h.entity? o.toNat = some e)
    {l : UInt32} (mem : l ∈ e.links) : ∃ e', h.entity? l.toNat = some e' := by
  have admitted := good.admits o e found
  have link : ∀ k, l ∈ Entity.linkTo k → k ≠ 0 ∧ l = k := by
    intro k mem
    simp only [Entity.linkTo] at mem
    split at mem
    · simp at mem
    next nonzero => exact ⟨nonzero, List.mem_singleton.mp mem⟩
  cases e with
  | object first parent =>
    obtain ⟨property, object, -⟩ := admitted
    rcases List.mem_cons.mp mem with rfl | mem
    · exact object.found
    · obtain ⟨nonzero, rfl⟩ := link first mem
      exact (property.resolve_left nonzero).found
  | property next key value =>
    obtain ⟨property, ⟨string, -⟩, typed, -⟩ := admitted
    rcases List.mem_append.mp mem with mem | mem
    · rcases List.mem_cons.mp mem with rfl | mem
      · exact string.found
      · exact typed.found mem
    · obtain ⟨nonzero, rfl⟩ := link next mem
      exact (property.resolve_left nonzero).1.found
  | string text => simp [Entity.links] at mem

/-- A record of a well-formed heap has no mark. -/
theorem WellFormed.at?_eq (good : h.WellFormed) {o : Nat} (found : h.entity? o = some e) :
    h.at? o = some ⟨e, false⟩ := by
  rw [entity?, Option.map_eq_some_iff] at found
  obtain ⟨⟨e', m⟩, found, rfl⟩ := found
  have clear := good.clear _ (mem_of_at? found)
  simp only at clear
  rw [found, clear]

/-- The value of an entity refers by kind and offset alone. -/
theorem WellFormed.canonical (good : h.WellFormed) (found : h.entity? o.toNat = some e) :
    e.Canonical := by
  have admitted := good.admits o e found
  cases e with
  | object first parent => trivial
  | property next key value => exact admitted.2.2.1.1
  | string text => trivial

/-! ## Heaps that grow -/

/-- Every entity of a heap has one of the same kind at its offset in another
heap. -/
structure Continues (h k : Heap) : Prop where
  object : ∀ o, h.IsObject o → k.IsObject o
  property : ∀ o, h.IsProperty o → k.IsProperty o
  string : ∀ o, h.IsString o → k.IsString o

theorem Types.mono (grown : h.Continues k) {v : Value} (typed : h.Types v) : k.Types v := by
  obtain ⟨canonical, there⟩ := typed
  refine ⟨canonical, ?_⟩
  cases kind : v.kind with
  | object => simpa only [kind] using grown.object _ (by simpa only [kind] using there)
  | property => simpa only [kind] using grown.property _ (by simpa only [kind] using there)
  | string => simpa only [kind] using grown.string _ (by simpa only [kind] using there)
  | function => simpa only [kind] using grown.string _ (by simpa only [kind] using there)
  | _ => trivial

theorem Admits.mono (grown : h.Continues k) (admitted : h.Admits o e) : k.Admits o e := by
  cases e with
  | object first parent =>
    obtain ⟨property, object, order⟩ := admitted
    exact ⟨property.imp_right (grown.property _), grown.object _ object, order⟩
  | property next key value =>
    obtain ⟨property, ⟨string, order⟩, typed, plain⟩ := admitted
    exact ⟨property.imp_right fun p => ⟨grown.property _ p.1, p.2⟩,
      ⟨grown.string _ string, order⟩, typed.mono grown, plain⟩
  | string text => trivial

theorem entity?_append_left {o : Nat} (found : h.entity? o = some e) :
    entity? (h ++ k) o = some e := by
  rw [entity?, Option.map_eq_some_iff] at found
  obtain ⟨r, found, rfl⟩ := found
  have bound := at?_le_extent found
  have positive := r.eight_le_size
  rw [entity?, at?_append, if_pos (by omega), found]
  rfl

theorem entity?_append_self (h : Heap) (r : Record) :
    entity? (h ++ [r]) h.extent = some r.entity := by
  rw [entity?, at?_middle]
  rfl

/-- An entity of a heap with a new record at its end is an old one or the new
one. -/
theorem entity?_append_cases {r : Record} {o : Nat} (found : entity? (h ++ [r]) o = some e) :
    h.entity? o = some e ∨ o = h.extent ∧ e = r.entity := by
  rw [entity?, at?_append] at found
  split at found
  · exact .inl found
  next beyond =>
    simp only [at?] at found
    split at found
    next here =>
      rw [Option.map_some, Option.some.injEq] at found
      exact .inr ⟨by omega, found.symm⟩
    next => simp at found

theorem continues_append (h k : Heap) : h.Continues (h ++ k) where
  object := fun _ ⟨first, parent, found⟩ => ⟨first, parent, entity?_append_left found⟩
  property := fun _ ⟨next, key, value, found⟩ => ⟨next, key, value, entity?_append_left found⟩
  string := fun _ ⟨text, found⟩ => ⟨text, entity?_append_left found⟩

/-- A new entity may refer to those already there. -/
theorem WellFormed.append (good : h.WellFormed) (place : h.extent = o.toNat)
    (admitted : h.Admits o e) : WellFormed (h ++ [⟨e, false⟩]) where
  clear := List.forall_mem_append.mpr ⟨good.clear, List.forall_mem_singleton.mpr rfl⟩
  origin := (continues_append h _).object _ good.origin
  admits := by
    intro p e' found
    rcases entity?_append_cases found with old | ⟨here, rfl⟩
    · exact (good.admits p e' old).mono (continues_append h _)
    · obtain rfl : p = o := UInt32.toNat_inj.mp (here.trans place)
      exact admitted.mono (continues_append h _)

/-! ## Entities that change -/

end Heap

/-- Two entities are objects or two entities are properties. -/
def Entity.SameKind : Entity → Entity → Prop
  | .object _ _, .object _ _ => True
  | .property _ _ _, .property _ _ _ => True
  | _, _ => False

theorem Entity.SameKind.size_eq {e n : Entity} (same : e.SameKind n) : n.size = e.size := by
  cases e <;> cases n <;> first | rfl | exact same.elim

namespace Heap

variable {h : Heap} {e n : Entity}

theorem entity?_update {o : Nat} (found : h.entity? o = some e) (same : e.SameKind n) (k : Nat) :
    (h.update o ⟨n, false⟩).entity? k = if k = o then some n else h.entity? k := by
  rw [entity?, Option.map_eq_some_iff] at found
  obtain ⟨r, found, rfl⟩ := found
  rw [entity?, at?_update (n := ⟨n, false⟩) found same.size_eq]
  split
  · rfl
  · rfl

theorem continues_update {o : Nat} (found : h.entity? o = some e) (same : e.SameKind n) :
    h.Continues (h.update o ⟨n, false⟩) := by
  have entity := entity?_update found same
  refine ⟨?_, ?_, ?_⟩
  · rintro p ⟨first, parent, there⟩
    by_cases here : p.toNat = o
    · rw [here, found, Option.some.injEq] at there
      subst there
      cases n with
      | object first' parent' => exact ⟨first', parent', by rw [entity, if_pos here]⟩
      | property next key value => exact same.elim
      | string text => exact same.elim
    · exact ⟨first, parent, by rw [entity, if_neg here, there]⟩
  · rintro p ⟨next, key, value, there⟩
    by_cases here : p.toNat = o
    · rw [here, found, Option.some.injEq] at there
      subst there
      cases n with
      | object first' parent' => exact same.elim
      | property next' key' value' => exact ⟨next', key', value', by rw [entity, if_pos here]⟩
      | string text => exact same.elim
    · exact ⟨next, key, value, by rw [entity, if_neg here, there]⟩
  · rintro p ⟨text, there⟩
    by_cases here : p.toNat = o
    · rw [here, found, Option.some.injEq] at there
      subst there
      exact same.elim
    · exact ⟨text, by rw [entity, if_neg here, there]⟩

/-- An entity may come to refer to other entities of its heap. -/
theorem WellFormed.replace (good : h.WellFormed) {o : UInt32} (found : h.entity? o.toNat = some e)
    (same : e.SameKind n) (admitted : h.Admits o n) : WellFormed (h.update o.toNat ⟨n, false⟩) where
  clear := by
    intro r mem
    obtain ⟨p, there⟩ := exists_at?_of_mem mem
    rw [at?_update (n := ⟨n, false⟩) (good.at?_eq found) same.size_eq] at there
    split at there
    · cases there
      rfl
    · exact good.clear r (mem_of_at? there)
  origin := (continues_update found same).object _ good.origin
  admits := by
    intro p e' there
    rw [entity?_update found same] at there
    split at there
    next here =>
      cases there
      obtain rfl := UInt32.toNat_inj.mp here
      exact admitted.mono (continues_update found same)
    next => exact (good.admits p e' there).mono (continues_update found same)

end Heap

end ArenaScript
