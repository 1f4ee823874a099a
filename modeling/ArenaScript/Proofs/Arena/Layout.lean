import ArenaScript.Proofs.Arena.Typing

/-!
# The layout of an arena

What the bytes of an arena look like, told by the reads of the arena alone.  The
entities can be walked from offset 0 on, each header telling where the next one
starts, and the walk ends exactly where the entities end.  Every link of an
entity leads to the start of an entity of the right kind, property lists and
chains of scopes lead downwards, and whatever an engine holds outside its arena
refers to entities of the right kind.

Main definitions:

- `Arena.Walk`: the offsets at which entities start.
- `Arena.Types`: a value refers to an entity of its own kind.
- `Engine.LaidOut`: the layout.

Main results:

- `Arena.Holds.types_iff`: the entities of the walk are those of the heap.
- `Engine.Sound.laidOut`: a sound engine has the layout.
-/

namespace ArenaScript

namespace Arena

/-! ## The walk over the entities -/

/-- The walk over the entities: it starts at offset 0, and each header below the
end of the entities tells where the next one stands. -/
inductive Walk (a : Arena) : UInt32 → Prop
  | start : Walk a 0
  | next {o header : UInt32} (walk : Walk a o) (inside : o < a.used)
      (load : a.load32 o = .ok header) : Walk a (o + entitySize header)

/-- An entity whose header is of a kind starts at an offset. -/
def Starts (a : Arena) (kind : UInt32) (o : UInt32) : Prop :=
  a.Walk o ∧ o < a.used ∧ ∃ header, a.load32 o = .ok header ∧ headerKind header = kind

/-- An object, a property or a string starts at an offset. -/
def StartsObject (a : Arena) (o : UInt32) : Prop := a.Starts 0 o

@[inherit_doc StartsObject]
def StartsProperty (a : Arena) (o : UInt32) : Prop := a.Starts 1 o

@[inherit_doc StartsObject]
def StartsString (a : Arena) (o : UInt32) : Prop := a.Starts 2 o

/-- A value that refers to an entity refers to one of its kind. -/
def Types (a : Arena) (v : Value) : Prop :=
  match v.kind with
  | .object => a.StartsObject v.offset
  | .property => a.StartsProperty v.offset
  | .string | .function => a.StartsString v.offset
  | _ => True

/-- What stands in the record of an object. -/
def ObjectAt (a : Arena) (o : UInt32) : Prop :=
  ∃ first parent, a.firstProperty o = .ok first ∧ a.parent o = .ok parent
    ∧ (first = 0 ∨ a.StartsProperty first)
    ∧ a.StartsObject parent ∧ (parent < o ∨ o = 0 ∧ parent = 0)

/-- What stands in the record of a property. -/
def PropertyAt (a : Arena) (o : UInt32) : Prop :=
  ∃ next key value, a.nextProperty o = .ok next ∧ a.propertyKey o = .ok key
    ∧ a.propertyValue o = .ok value
    ∧ (next = 0 ∨ a.StartsProperty next ∧ next < o)
    ∧ a.StartsString key ∧ key < o ∧ a.Types value ∧ value.IsPlain

/-- The layout of the entities. -/
structure LaidOut (a : Arena) : Prop where
  /-- The walk ends exactly where the entities end. -/
  lands : a.Walk a.used ∧ ∀ o, a.Walk o → o ≤ a.used
  /-- The entities end at a multiple of four. -/
  used_aligned : a.used.toNat % 4 = 0
  /-- The scratch stack starts at a multiple of eight. -/
  limit_aligned : a.limit.toNat % 8 = 0
  /-- The entities stay below the scratch stack, which stays below the top. -/
  order : a.used ≤ a.limit ∧ a.limit ≤ a.top
  /-- Every header is that of an object, a property or a string, without a mark. -/
  headers : ∀ o, a.Walk o → o < a.used → ∃ header, a.load32 o = .ok header
    ∧ isMarked header = false
    ∧ (headerKind header = 0 ∨ headerKind header = 1 ∨ headerKind header = 2)
  /-- The global scope stands at offset 0. -/
  origin : a.StartsObject 0
  objects : ∀ o, a.StartsObject o → a.ObjectAt o
  properties : ∀ o, a.StartsProperty o → a.PropertyAt o

namespace Holds

variable {a : Arena} {h : Heap} {scratch : List Value}

variable (holds : a.Holds h scratch) {o : UInt32} {r : Record}
include holds

/-- The header of an entity, which has no mark. -/
theorem load_header (good : h.WellFormed)
    (found : h.at? o.toNat = some r) : a.load32 o = .ok r.entity.header := by
  rw [holds.load32_header found, Record.word, good.clear r (Heap.mem_of_at? found)]
  rfl

/-- The step of the walk from an entity to the next one. -/
theorem toNat_next (found : h.at? o.toNat = some r) :
    (o + entitySize r.entity.header).toNat = o.toNat + r.size := by
  have size := Entity.toNat_entitySize (holds.fits found)
  have bound := holds.record_le found
  have small := a.used.toNat_lt
  rw [toNat_add_of_lt (by rw [size]; simp only [Record.size] at bound; omega), size]
  rfl

theorem lt_used (found : h.at? o.toNat = some r) : o < a.used :=
  UInt32.not_le.mp (holds.not_used_le found)

variable (good : h.WellFormed)
include good

/-- The walk goes over the records of a heap one by one. -/
theorem walk_append (front mid back : Heap)
    (split : h = front ++ (mid ++ back)) (here : o.toNat = front.extent)
    (walk : a.Walk o) : ∃ p, a.Walk p ∧ p.toNat = (front ++ mid).extent := by
  induction mid generalizing front o with
  | nil => exact ⟨o, walk, by rw [List.append_nil, here]⟩
  | cons r mid ih =>
    have found : h.at? o.toNat = some r := by
      rw [split, here, List.cons_append]
      exact Heap.at?_middle front (mid ++ back) r
    have next := holds.toNat_next found
    have reach : (front ++ [r]).extent = front.extent + r.size := by
      rw [Heap.extent_append, Heap.extent_cons]
      rfl
    obtain ⟨p, walked, there⟩ := ih (front ++ [r])
      (by rw [split, List.append_assoc]; rfl) (by rw [next, reach, here])
      (.next walk (holds.lt_used found) (holds.load_header good found))
    exact ⟨p, walked, by rw [there, List.append_assoc]; rfl⟩

/-- Every record is reached by the walk. -/
theorem walk_of_at? (found : h.at? o.toNat = some r) : a.Walk o := by
  obtain ⟨front, back, split, here⟩ := Heap.exists_split_of_at? found
  obtain ⟨p, walk, there⟩ := holds.walk_append good [] front (r :: back) split rfl .start
  obtain rfl : p = o := UInt32.toNat_inj.mp (there.trans here)
  exact walk

/-- The walk ends where the entities end. -/
theorem walk_used : a.Walk a.used := by
  obtain ⟨p, walk, there⟩ := holds.walk_append good [] h []
    (by rw [List.append_nil]; rfl) rfl .start
  obtain rfl : p = a.used := UInt32.toNat_inj.mp (there.trans holds.extent_eq)
  exact walk

/-- The walk reaches records and the end of the entities, nothing else. -/
theorem at?_of_walk (walk : a.Walk o) : o = a.used ∨ ∃ r, h.at? o.toNat = some r := by
  induction walk with
  | start =>
    obtain ⟨first, parent, found⟩ := good.origin
    exact .inr ⟨_, good.at?_eq found⟩
  | @next o header _ inside load ih =>
    obtain ⟨r, found⟩ := ih.resolve_left fun eq => UInt32.lt_irrefl _ (eq ▸ inside)
    rw [holds.load_header good found] at load
    obtain rfl := Except.ok.inj load
    have next := holds.toNat_next found
    rcases Heap.at?_next found with last | ⟨r', found'⟩
    · exact .inl (UInt32.toNat_inj.mp (next.trans (last.trans holds.extent_eq)))
    · exact .inr ⟨r', by rw [next]; exact found'⟩

/-- The entity that starts at an offset. -/
theorem entity?_of_walk (walk : a.Walk o) (inside : o < a.used) :
    ∃ en, h.entity? o.toNat = some en ∧ en.Fits ∧ a.load32 o = .ok en.header := by
  obtain ⟨r, found⟩ := (holds.at?_of_walk good walk).resolve_left
    fun eq => UInt32.lt_irrefl _ (eq ▸ inside)
  exact ⟨r.entity, by rw [Heap.entity?, found]; rfl, holds.fits found, holds.load_header good found⟩

/-- An entity starts at its offset, with its kind in the header. -/
theorem starts {en : Entity}
    (found : h.entity? o.toNat = some en) : a.Starts (headerKind en.header) o := by
  have found := good.at?_eq found
  exact ⟨holds.walk_of_at? good found, holds.lt_used found, _, holds.load_header good found, rfl⟩

theorem startsObject_iff : a.StartsObject o ↔ h.IsObject o := by
  constructor
  · rintro ⟨walk, inside, header, load, kind⟩
    obtain ⟨en, found, fits, load'⟩ := holds.entity?_of_walk good walk inside
    obtain rfl : en.header = header := Except.ok.inj (load'.symm.trans load)
    cases en with
    | object first parent => exact ⟨first, parent, found⟩
    | property next key value => cases (Entity.headerKind_property fits).symm.trans kind
    | string text => cases (Entity.headerKind_string fits).symm.trans kind
  · rintro ⟨first, parent, found⟩
    have starts := holds.starts good found
    rwa [Entity.headerKind_object (holds.fits (good.at?_eq found))] at starts

theorem startsProperty_iff : a.StartsProperty o ↔ h.IsProperty o := by
  constructor
  · rintro ⟨walk, inside, header, load, kind⟩
    obtain ⟨en, found, fits, load'⟩ := holds.entity?_of_walk good walk inside
    obtain rfl : en.header = header := Except.ok.inj (load'.symm.trans load)
    cases en with
    | object first parent => cases (Entity.headerKind_object fits).symm.trans kind
    | property next key value => exact ⟨next, key, value, found⟩
    | string text => cases (Entity.headerKind_string fits).symm.trans kind
  · rintro ⟨next, key, value, found⟩
    have starts := holds.starts good found
    rwa [Entity.headerKind_property (holds.fits (good.at?_eq found))] at starts

theorem startsString_iff : a.StartsString o ↔ h.IsString o := by
  constructor
  · rintro ⟨walk, inside, header, load, kind⟩
    obtain ⟨en, found, fits, load'⟩ := holds.entity?_of_walk good walk inside
    obtain rfl : en.header = header := Except.ok.inj (load'.symm.trans load)
    cases en with
    | object first parent => cases (Entity.headerKind_object fits).symm.trans kind
    | property next key value => cases (Entity.headerKind_property fits).symm.trans kind
    | string text => exact ⟨text, found⟩
  · rintro ⟨text, found⟩
    have starts := holds.starts good found
    rwa [Entity.headerKind_string (holds.fits (good.at?_eq found))] at starts

/-- A value refers to an entity of the arena if it refers to one of the heap. -/
theorem types_iff {v : Value} : h.Types v ↔ v.Canonical ∧ a.Types v := by
  unfold Heap.Types Types
  refine and_congr_right fun _ => ?_
  cases v.kind with
  | object => exact (holds.startsObject_iff good).symm
  | property => exact (holds.startsProperty_iff good).symm
  | string => exact (holds.startsString_iff good).symm
  | function => exact (holds.startsString_iff good).symm
  | _ => exact Iff.rfl

theorem types {v : Value} (typed : h.Types v) : a.Types v :=
  ((holds.types_iff good).mp typed).2

/-- An arena that holds a well-formed heap has the layout. -/
theorem laidOut : a.LaidOut where
  lands := by
    refine ⟨holds.walk_used good, fun o walk => ?_⟩
    rcases holds.at?_of_walk good walk with rfl | ⟨r, found⟩
    · exact UInt32.le_refl _
    · exact UInt32.le_of_lt (holds.lt_used found)
  used_aligned := holds.used_mod_four
  limit_aligned := holds.limit_mod_eight
  order := ⟨holds.used_le, holds.limit_le_top⟩
  headers := by
    intro o walk inside
    obtain ⟨en, found, fits, load⟩ := holds.entity?_of_walk good walk inside
    refine ⟨en.header, load, isMarked_eq_false (Entity.header_lt fits), ?_⟩
    cases en with
    | object first parent => exact .inl (Entity.headerKind_object fits)
    | property next key value => exact .inr (.inl (Entity.headerKind_property fits))
    | string text => exact .inr (.inr (Entity.headerKind_string fits))
  origin := (holds.startsObject_iff good).mpr good.origin
  objects := by
    intro o starts
    obtain ⟨first, parent, found⟩ := (holds.startsObject_iff good).mp starts
    obtain ⟨property, object, order⟩ := good.admits o _ found
    exact ⟨first, parent, holds.firstProperty_eq (good.at?_eq found),
      holds.parent_eq (good.at?_eq found), property.imp_right (holds.startsProperty_iff good).mpr,
      (holds.startsObject_iff good).mpr object, order⟩
  properties := by
    intro o starts
    obtain ⟨next, key, value, found⟩ := (holds.startsProperty_iff good).mp starts
    obtain ⟨property, ⟨string, order⟩, typed, plain⟩ := good.admits o _ found
    exact ⟨next, key, value, holds.nextProperty_eq (good.at?_eq found),
      holds.propertyKey_eq (good.at?_eq found), holds.propertyValue_eq (good.at?_eq found),
      property.imp_right fun p => ⟨(holds.startsProperty_iff good).mpr p.1, p.2⟩,
      (holds.startsString_iff good).mpr string, order, holds.types good typed, plain⟩

end Holds

end Arena

/-! ## Engines -/

/-- The layout of an engine: that of its arena, and what its registers refer
to. -/
structure Engine.LaidOut (e : Engine) : Prop where
  arena : e.arena.LaidOut
  /-- The active scope is an object. -/
  scope : e.arena.StartsObject e.scope
  /-- The pinned entity is a string. -/
  pinned : e.pinned = 0 ∨ e.arena.StartsString e.pinned
  /-- The last returned value can be stored. -/
  result : e.arena.Types e.result ∧ e.result.IsPlain
  /-- The values held for later refer to entities of their kinds. -/
  roots : ∀ v ∈ e.roots, e.arena.Types v
  /-- The scratch words can be stored. -/
  scratch : ∃ words, e.arena.scratch = .ok words ∧ ∀ v ∈ words, e.arena.Types v ∧ v.IsPlain

/-- A sound engine has the layout. -/
theorem Engine.Sound.laidOut {e : Engine} {h : Heap} {scratch : List Value}
    (sound : e.Sound h scratch) : e.LaidOut where
  arena := sound.holds.laidOut sound.heap
  scope := (sound.holds.startsObject_iff sound.heap).mpr sound.scope
  pinned := sound.pinned.imp_right (sound.holds.startsString_iff sound.heap).mpr
  result := ⟨sound.holds.types sound.heap sound.result.1, sound.result.2⟩
  roots := fun v mem => sound.holds.types sound.heap (sound.roots v mem)
  scratch := ⟨scratch, sound.holds.scratch_eq, fun v mem =>
    ⟨sound.holds.types sound.heap (sound.scratch v mem).1, (sound.scratch v mem).2⟩⟩

end ArenaScript
