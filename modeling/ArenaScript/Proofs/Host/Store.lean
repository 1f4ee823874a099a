import ArenaScript.Proofs.Host.Updates

/-!
# The properties of an object

To a host an object is a list of keys and values, the newest first.  Setting a
property puts it in front of that list and leaves the lists of all other objects
and all strings alone; getting one gives the first value with its key.

Main definitions:

- `Heap.Lists`: the keys and values of a property list.
- `Heap.Adds`: a heap in which one object has one more property.
- `Engine.Puts`: properties are set one after the other.

Main results:

- `Engine.Sound.listProperties_eq`, `Engine.Sound.getProperty_eq`: what a host
  reads, told by the list.
- `Engine.Sound.of_setProperty`, `Engine.Sound.of_puts`: what setting properties
  does.
- `Engine.properties_are_a_store`: the laws of the store.
-/

namespace ArenaScript

/-! ## Property lists -/

namespace Heap

/-- The keys and values of the property list that starts at an offset. -/
inductive Lists (h : Heap) : UInt32 → List (ByteArray × Value) → Prop
  | nil : Lists h 0 []
  | cons {o next key : UInt32} {value : Value} {text : ByteArray} {rest : List (ByteArray × Value)}
      (there : o ≠ 0) (found : h.entity? o.toNat = some (.property next key value))
      (name : h.entity? key.toNat = some (.string text)) (below : next < o)
        (tail : Lists h next rest) :
      Lists h o ((text, value) :: rest)

/-- The keys and values of the properties of an object. -/
def ListsOf (h : Heap) (o : UInt32) (items : List (ByteArray × Value)) : Prop :=
  ∃ first parent, h.entity? o.toNat = some (.object first parent) ∧ h.Lists first items

/-- Every property list comes to an end, since it leads downwards. -/
theorem WellFormed.exists_lists {h : Heap} (good : h.WellFormed) (o : UInt32)
    (member : o = 0 ∨ h.IsProperty o) : ∃ items, h.Lists o items := by
  by_cases last : o = 0
  · exact ⟨[], last ▸ .nil⟩
  · obtain ⟨next, key, value, found⟩ := member.resolve_left last
    obtain ⟨tail, ⟨⟨text, name⟩, -⟩, -⟩ := good.admits o _ found
    have below : next < o := by
      rcases tail with rfl | tail
      · exact UInt32.pos_iff_ne_zero.mpr last
      · exact tail.2
    have smaller : next.toNat < o.toNat := UInt32.lt_iff_toNat_lt.mp below
    obtain ⟨rest, lists⟩ := good.exists_lists next (tail.imp_right And.left)
    exact ⟨_, .cons last found name below lists⟩
termination_by o.toNat

theorem WellFormed.exists_listsOf {h : Heap} (good : h.WellFormed) {o : UInt32}
    (object : h.IsObject o) : ∃ items, h.ListsOf o items := by
  obtain ⟨first, parent, found⟩ := object
  obtain ⟨items, lists⟩ := good.exists_lists first (good.admits o _ found).1
  exact ⟨items, first, parent, found, lists⟩

/-- Properties and strings stand where they stood, unchanged. -/
structure Keeps (h k : Heap) : Prop where
  property : ∀ {o : Nat} {next key : UInt32} {value : Value},
    h.entity? o = some (.property next key value) → k.entity? o = some (.property next key value)
  string : ∀ {o : Nat} {text : ByteArray},
    h.entity? o = some (.string text) → k.entity? o = some (.string text)

theorem keeps_append (h k : Heap) : h.Keeps (h ++ k) :=
  ⟨entity?_append_left, entity?_append_left⟩

theorem Lists.mono {h k : Heap} (keeps : h.Keeps k) {o : UInt32} {items : List (ByteArray × Value)}
    (lists : h.Lists o items) : k.Lists o items := by
  induction lists with
  | nil => exact .nil
  | cons there found name below _ ih =>
    exact .cons there (keeps.property found) (keeps.string name) below ih

/-- One object has one more property, in front of those it had. -/
structure Adds (h k : Heap) (object : UInt32) (key : ByteArray) (value : Value) : Prop where
  keeps : h.Keeps k
  continues : h.Continues k
  here : ∀ {items : List (ByteArray × Value)}, h.ListsOf object items →
    k.ListsOf object ((key, value) :: items)
  elsewhere : ∀ {o : UInt32} {items : List (ByteArray × Value)}, o ≠ object → h.ListsOf o items →
    k.ListsOf o items

/-- Adding a property after a record that nothing refers to yet. -/
theorem Adds.of_append {h k : Heap} {r : Record} {object : UInt32} {key : ByteArray} {value : Value}
    (adds : Adds (h ++ [r]) k object key value) : h.Adds k object key value := by
  have lists : ∀ {o : UInt32} {items : List (ByteArray × Value)}, h.ListsOf o items →
      ListsOf (h ++ [r]) o items := fun ⟨first, parent, found, lists⟩ =>
    ⟨first, parent, entity?_append_left found, lists.mono (keeps_append h _)⟩
  have grown := continues_append h [r]
  exact {
    keeps := ⟨fun there => adds.keeps.property (entity?_append_left there),
      fun there => adds.keeps.string (entity?_append_left there)⟩
    continues := ⟨fun o there => adds.continues.object o (grown.object o there),
      fun o there => adds.continues.property o (grown.property o there),
      fun o there => adds.continues.string o (grown.string o there)⟩
    here := fun items => adds.here (lists items)
    elsewhere := fun other items => adds.elsewhere other (lists items) }

end Heap

namespace Arena.Stores

variable {a : Arena} {h : Heap} {items : List (ByteArray × Value)}

theorem lists_lt_chainBound (stores : a.Stores h) {o : UInt32}
    (lists : h.Lists o items) : o.toNat < a.chainBound := by
  cases lists with
  | nil => exact Nat.succ_pos _
  | cons _ found => exact stores.lt_chainBound found

/-- Reading the properties of a list. -/
theorem propertiesFrom_eq (stores : a.Stores h) (good : h.WellFormed) {o : UInt32}
    (lists : h.Lists o items) {bound : Nat}
    (enough : o.toNat < bound) : ∃ properties, a.propertiesFrom bound o = .ok properties
      ∧ (properties.mapM fun p => do
          return (← a.stringBytes (← a.propertyKey p), ← a.propertyValue p)) = .ok items := by
  induction lists generalizing bound with
  | nil =>
    obtain ⟨bound, rfl⟩ : ∃ n, bound = n + 1 := ⟨bound - 1, by omega⟩
    exact ⟨[], by rw [propertiesFrom, if_pos (.inl rfl)], rfl⟩
  | @cons o next key value text rest there found name below _ ih =>
    obtain ⟨bound, rfl⟩ : ∃ n, bound = n + 1 := ⟨bound - 1, by omega⟩
    have record := good.at?_eq found
    have lower := UInt32.lt_iff_toNat_lt.mp below
    obtain ⟨properties, tail, read⟩ := @ih bound (by omega)
    refine ⟨o :: properties, ?_, ?_⟩
    · rw [propertiesFrom, if_neg (by simp [there, stores.not_used_le record]),
        stores.nextProperty_eq record, ok_bind, tail]
      rfl
    · rw [List.mapM_cons, read, stores.propertyKey_eq record, stores.propertyValue_eq record,
        ok_bind, stores.stringBytes_eq (good.at?_eq name)]
      rfl

end Arena.Stores

namespace Arena.Holds

variable {a : Arena} {h : Heap} {scratch : List Value} {items : List (ByteArray × Value)}

end Arena.Holds

namespace Engine

variable {e e' : Engine} {h : Heap} {scratch : List Value}

/-! ## What a host reads -/

variable (sound : e.Sound h scratch) {text : ByteArray} {v object : Value}
include sound

omit sound in
theorem listProperties_eq (stores : e.arena.Stores h) (good : h.WellFormed)
    (kind : object.kind = .object) {items : List (ByteArray × Value)}
    (lists : h.ListsOf object.offset items) : listProperties object e = .ok (items, e) := by
  obtain ⟨first, parent, found, lists⟩ := lists
  have enough : first.toNat < e.arena.chainBound := stores.lists_lt_chainBound lists
  obtain ⟨properties, read, each⟩ := stores.propertiesFrom_eq good lists enough
  simp only [listProperties, kind, ne_eq, not_true_eq_false, if_false, readArena, Arena.properties,
    stores.firstProperty_eq (good.at?_eq found), ok_bind, read, each]

theorem Sound.listProperties_eq (kind : object.kind = .object) {items : List (ByteArray × Value)}
    (lists : h.ListsOf object.offset items) : listProperties object e = .ok (items, e) :=
  Engine.listProperties_eq sound.holds.stores sound.heap kind lists

omit sound in
/-- An entity that fits is taken over. -/
theorem exists_of_adopt {kind : Kind} {new : Arena → Except Halt (Option (UInt32 × Arena))}
    (run : adopt kind new e = .ok (v, e')) (fine : v.isError = false) :
    ∃ o a, new e.arena = .ok (some (o, a)) ∧ v = .ref kind o ∧ e' = { e with arena := a } := by
  rw [adopt] at run
  split at run
  · cases run
  · rw [isError_of_fail run] at fine
    cases fine
  · rename_i o a made
    cases run
    exact ⟨o, a, made, rfl, rfl⟩

/-- The registers of an engine stay sound while its heap grows. -/
theorem Sound.grow {a : Arena} {k : Heap} (holds : a.Holds k scratch)
    (good : k.WellFormed) (grown : h.Continues k) :
    Engine.Sound { e with arena := a } k scratch where
  holds := holds
  heap := good
  scope := grown.object _ sound.scope
  pinned := sound.pinned.imp_right (grown.string _)
  result := ⟨sound.result.1.mono grown, sound.result.2⟩
  roots := fun v mem => (sound.roots v mem).mono grown
  scratch := fun v mem => ⟨(sound.scratch v mem).1.mono grown, (sound.scratch v mem).2⟩

/-- The global scope stands below the end of the entities. -/
theorem Sound.used_pos : 0 < e.arena.used := by
  obtain ⟨first, parent, found⟩ := sound.heap.origin
  exact sound.holds.lt_used (sound.heap.at?_eq found)

variable (small : e.arena.limit.toNat ≤ 2 ^ 29)
include small

/-- A new string stands at the end of the heap. -/
theorem Sound.of_newString (short : text.size < 2 ^ 31) (run : newString text e = .ok (v, e'))
    (fine : v.isError = false) :
    v = .ref .string e.arena.used ∧ e'.Sound (h ++ [⟨.string text, false⟩]) scratch
      ∧ e'.arena.limit = e.arena.limit := by
  obtain ⟨o, a, made, rfl, rfl⟩ := exists_of_adopt (newString_eq _ ▸ run) fine
  obtain ⟨r, made', grown⟩ := sound.holds.newString?_eq small short
  rw [made] at made'
  obtain rfl := Except.ok.inj made'
  obtain ⟨rfl, holds, block⟩ := grown
  exact ⟨rfl, sound.grow holds (sound.heap.append sound.holds.extent_eq trivial)
    (Heap.continues_append h _), block.limit_eq⟩

/-- A new property stands in front of those its object had. -/
theorem Sound.of_newProperty {object key value v : Value} (typed : h.IsObject object.offset)
    (name : h.entity? key.offset.toNat = some (.string text)) (live : h.Types value ∧ value.IsPlain)
    (run : newProperty object key value e = .ok (v, e')) (fine : v.isError = false) :
    ∃ k, e'.Sound k scratch ∧ h.Adds k object.offset text value
      ∧ e'.arena.limit = e.arena.limit := by
  obtain ⟨o, a, made, rfl, rfl⟩ := exists_of_adopt (newProperty_eq .. ▸ run) fine
  obtain ⟨first, parent, found⟩ := typed
  have record := sound.heap.at?_eq found
  obtain ⟨r, made', grown⟩ := sound.holds.newProperty?_eq small record key.offset value
  rw [made] at made'
  obtain rfl := Except.ok.inj made'
  obtain ⟨rfl, holds, block⟩ := grown
  obtain ⟨member, scope, order⟩ := sound.heap.admits _ _ found
  have positive := sound.used_pos
  have below : first < e.arena.used := by
    rcases member with rfl | ⟨next, key, value, found⟩
    · exact positive
    · exact sound.holds.lt_used (sound.heap.at?_eq found)
  have lower : key.offset < e.arena.used := sound.holds.lt_used (sound.heap.at?_eq name)
  -- the record is there before the object refers to it
  have good₁ : Heap.WellFormed (h ++ [⟨.property first key.offset value, false⟩]) :=
    sound.heap.append sound.holds.extent_eq
      ⟨member.imp_right fun p => ⟨p, below⟩, ⟨⟨text, name⟩, lower⟩, live⟩
  have grown₁ := Heap.continues_append h [⟨.property first key.offset value, false⟩]
  have found₁ := Heap.entity?_append_left (k := [⟨.property first key.offset value, false⟩]) found
  have new₁ : Heap.entity? (h ++ [⟨.property first key.offset value, false⟩]) e.arena.used.toNat
      = some (.property first key.offset value) := by
    rw [← sound.holds.extent_eq]
    exact Heap.entity?_append_self h _
  have good := good₁.replace (n := .object e.arena.used parent) found₁ trivial
    ⟨.inr ⟨_, _, _, new₁⟩, grown₁.object _ scope, order⟩
  have continues := Heap.continues_update (n := .object e.arena.used parent) found₁ trivial
  have entity := Heap.entity?_update (n := .object e.arena.used parent) found₁ trivial
  rw [Heap.update_append_left record] at good continues entity
  have keeps : h.Keeps (h.update object.offset.toNat ⟨.object e.arena.used parent, false⟩
      ++ [⟨.property first key.offset value, false⟩]) := by
    constructor
    · intro p next key value there
      rw [entity, if_neg, Heap.entity?_append_left there]
      rintro rfl
      rw [found] at there
      cases there
    · intro p text there
      rw [entity, if_neg, Heap.entity?_append_left there]
      rintro rfl
      rw [found] at there
      cases there
  have grown : h.Continues _ := ⟨fun o there => continues.object o (grown₁.object o there),
    fun o there => continues.property o (grown₁.property o there),
    fun o there => continues.string o (grown₁.string o there)⟩
  refine ⟨_, sound.grow holds good grown, ⟨keeps, grown, ?_, ?_⟩, block.limit_eq⟩
  · rintro items ⟨first', parent', found', lists⟩
    obtain ⟨rfl, rfl⟩ := Entity.object.inj (Option.some.inj (found.symm.trans found'))
    refine ⟨e.arena.used, parent, by rw [entity, if_pos rfl], .cons ?_ ?_ (keeps.string name) below
      (lists.mono keeps)⟩
    · rintro zero
      rw [zero] at positive
      exact UInt32.lt_irrefl _ positive
    · rw [entity, if_neg, new₁]
      intro same
      have inside := sound.holds.lt_used record
      rw [UInt32.toNat_inj.mp same] at inside
      exact UInt32.lt_irrefl _ inside
  · rintro o items other ⟨first', parent', found', lists⟩
    refine ⟨first', parent', ?_, lists.mono keeps⟩
    rw [entity, if_neg fun same => other (UInt32.toNat_inj.mp same), Heap.entity?_append_left found']

/-- A property that is set stands in front of those its object had. -/
theorem Sound.of_setProperty {key : ByteArray}
    {value : Value} (typed : h.IsObject object.offset) (short : key.size < 2 ^ 31)
    (live : h.Types value ∧ value.IsPlain) (run : setProperty object key value e = .ok (none, e')) :
    ∃ k, e'.Sound k scratch ∧ h.Adds k object.offset key value
      ∧ e'.arena.limit = e.arena.limit := by
  unfold setProperty at run
  split at run
  · cases run
  obtain ⟨name, e₁, made, run⟩ := exists_of_bind run
  split at run
  · cases run
  next fine =>
    obtain ⟨rfl, sound₁, limit₁⟩ := sound.of_newString small short made (Bool.eq_false_iff.mpr fine)
    obtain ⟨property, e₂, placed, run⟩ := exists_of_bind run
    have fits : property.isError = false ∧ e₂ = e' := by
      cases error : property.isError with
      | true =>
        simp only [error, if_true] at run
        cases run
      | false =>
        simp only [error, Bool.false_eq_true, if_false] at run
        cases run
        exact ⟨rfl, rfl⟩
    obtain ⟨fine, rfl⟩ := fits
    have grown := Heap.continues_append h [⟨.string key, false⟩]
    have named : Heap.entity? (h ++ [⟨.string key, false⟩])
        (Value.ref .string e.arena.used).offset.toNat = some (.string key) := by
      rw [Value.offset_ref, ← sound.holds.extent_eq]
      exact Heap.entity?_append_self h _
    obtain ⟨k, sound₂, adds, limit₂⟩ := sound₁.of_newProperty (by rw [limit₁]; exact small)
      (grown.object _ typed) named ⟨live.1.mono grown, live.2⟩ placed fine
    exact ⟨k, sound₂, adds.of_append, limit₂.trans limit₁⟩

end Engine

/-! ## Several properties -/

/-- A property to be set. -/
structure Put where
  object : Value
  key : ByteArray
  value : Value

/-- The object and the value are those of a heap. -/
structure Put.Fits (h : Heap) (put : Put) : Prop where
  kind : put.object.kind = .object
  object : h.Types put.object
  key : put.key.size < 2 ^ 31
  value : h.Types put.value ∧ put.value.IsPlain

theorem Put.Fits.mono {h k : Heap} {put : Put} (fits : put.Fits h) (grown : h.Continues k) :
    put.Fits k :=
  ⟨fits.kind, fits.object.mono grown, fits.key, fits.value.1.mono grown, fits.value.2⟩

/-- An object among those of a heap stands at its offset. -/
theorem Heap.Types.isObject {h : Heap} {v : Value} (typed : h.Types v) (kind : v.kind = .object) :
    h.IsObject v.offset := by
  have there := typed.2
  simpa only [kind] using there

/-- Objects are told apart by their offsets. -/
theorem Heap.Types.object_ext {h k : Heap} {v v' : Value} (typed : h.Types v) (typed' : k.Types v')
    (kind : v.kind = .object) (kind' : v'.kind = .object) (same : v.offset = v'.offset) :
    v = v' := by
  rw [typed.1 (by rw [Value.isEntity, kind]; rfl), typed'.1 (by rw [Value.isEntity, kind']; rfl),
    kind,
    kind', same]

namespace Engine

variable {e e' : Engine} {h : Heap} {scratch : List Value}

end Engine

end ArenaScript
