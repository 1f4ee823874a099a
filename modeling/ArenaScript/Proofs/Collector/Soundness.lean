import ArenaScript.Proofs.Collector.Collection
import ArenaScript.Proofs.Engine.Creation

/-!
# A collection keeps what can be reached

The map of a collection takes every live entity to one of the same kind, with
the same text, the same plain values and mapped links.  So the engine is sound
again, property lists keep their order, and cursors read the same texts.

Main results:

- `Engine.Collected.sound`: a collection keeps an engine sound.
- `Engine.Collected.properties_eq`: property lists keep their order.
- `Engine.Collected.text_eq`: cursors read the same bytes.
- `Engine.collection_preserves_live_graph`: all of this at once.
-/

namespace ArenaScript

/-! ## The engine is sound again -/

namespace Engine

namespace Collected

variable {e e' : Engine} {h h' : Heap} {scratch : List Value} {m : UInt32 → UInt32}
  {c : Cursor → Cursor}

variable (done : Collected e h scratch e' h' m c)
include done

theorem isObject {o : UInt32} (live : e.Live h scratch o)
    (object : h.IsObject o) : h'.IsObject (m o) := by
  obtain ⟨first, parent, found⟩ := object
  exact ⟨_, _, done.places o _ live found⟩

theorem isProperty {o : UInt32}
    (live : e.Live h scratch o) (property : h.IsProperty o) : h'.IsProperty (m o) := by
  obtain ⟨next, key, value, found⟩ := property
  exact ⟨_, _, _, done.places o _ live found⟩

theorem isString {o : UInt32} (live : e.Live h scratch o)
    (string : h.IsString o) : h'.IsString (m o) := by
  obtain ⟨text, found⟩ := string
  exact ⟨_, done.places o _ live found⟩

/-- A moved value refers to an entity of its own kind. -/
theorem types {v : Value} (typed : h.Types v)
    (live : ∀ o ∈ Arena.valueLinks v, e.Live h scratch o) : h'.Types (v.move m) := by
  obtain ⟨-, there⟩ := typed
  refine ⟨v.move_canonical m, ?_⟩
  rw [Value.kind_move]
  by_cases entity : v.isEntity = true
  · have live := live v.offset (by simp [Arena.valueLinks, entity])
    rw [Value.offset_move m entity]
    cases kind : v.kind <;> simp only [kind] at there ⊢
    · exact done.isObject live there
    · exact done.isProperty live there
    · exact done.isString live there
    · exact done.isString live there
  · cases kind : v.kind <;> simp [Value.isEntity, kind, Kind.isEntity] at entity ⊢

omit done in
theorem isPlain {v : Value} (plain : v.IsPlain) : (v.move m).IsPlain := by
  simpa only [Value.IsPlain, Value.kind_move] using plain

omit done in
/-- A link of a live entity is 0 or live. -/
theorem live_link {o l : UInt32} {en : Entity} (live : e.Live h scratch o)
    (found : h.entity? o.toNat = some en) (mem : l ∈ en.offsets) : l = 0 ∨ e.Live h scratch l :=
  (Entity.mem_links_of_mem_offsets mem).imp_right fun mem => .link live found mem

/-- What an entity held it may hold after the collection. -/
theorem admits {o : UInt32} {en : Entity}
    (live : e.Live h scratch o) (found : h.entity? o.toNat = some en) (admitted : h.Admits o en) :
    h'.Admits (m o) (en.move m) := by
  have link : ∀ l ∈ en.links, e.Live h scratch l := fun l mem => .link live found mem
  have linked : ∀ k, k = 0 ∨ k ∈ Entity.linkTo k := by
    intro k
    by_cases zero : k = 0 <;> simp [Entity.linkTo, zero]
  cases en with
  | object first parent =>
    obtain ⟨property, object, below⟩ := admitted
    have outer := link parent (List.mem_cons_self ..)
    refine ⟨?_, done.isObject outer object, ?_⟩
    · rcases linked first with zero | mem
      · exact .inl (zero ▸ done.zero)
      · rcases property with zero | property
        · exact .inl (zero ▸ done.zero)
        · exact .inr (done.isProperty (link first (List.mem_cons_of_mem _ mem)) property)
    · rcases below with below | ⟨rfl, rfl⟩
      · exact .inl (done.increasing _ _ outer live below)
      · exact .inr ⟨done.zero, done.zero⟩
  | property next key value =>
    obtain ⟨property, ⟨string, below⟩, typed, plain⟩ := admitted
    have key_live := link key (List.mem_cons_self ..)
    refine ⟨?_, ⟨done.isString key_live string, done.increasing _ _ key_live live below⟩, ?_,
      isPlain plain⟩
    · rcases linked next with zero | mem
      · exact .inl (zero ▸ done.zero)
      · rcases property with zero | ⟨property, lower⟩
        · exact .inl (zero ▸ done.zero)
        · have next_live := link next (List.mem_append_right _ mem)
          exact .inr ⟨done.isProperty next_live property, done.increasing _ _ next_live live lower⟩
    · exact done.types typed fun o mem =>
        link o (List.mem_append_left _ (List.mem_cons_of_mem _ mem))
  | string text => trivial

omit done in
theorem live_scope : e.Live h scratch e.scope := .root (by simp [rootOffsets])

omit done in
theorem live_value {v : Value} (mem : v ∈ e.result :: e.roots ++ scratch) {o : UInt32}
    (link : o ∈ Arena.valueLinks v) : e.Live h scratch o :=
  .root (List.mem_append_right _ (List.mem_flatMap.mpr ⟨v, mem, link⟩))

/-- A collection keeps an engine sound. -/
theorem sound (sound : e.Sound h scratch) : e'.Sound h' (scratch.map (Value.move m)) := by
  obtain ⟨deepest, events, registers⟩ := done.registers
  have roots : e'.roots = e.roots.map (·.move m) := by rw [registers]; rfl
  have result : e'.result = e.result.move m := by rw [registers]; rfl
  have scope : e'.scope = m e.scope := by rw [registers]; rfl
  have pinned : e'.pinned = m e.pinned := by rw [registers]; rfl
  refine ⟨done.holds, ⟨done.clear, ?_, ?_⟩, ?_, ?_, ?_, ?_, ?_⟩
  · exact done.zero ▸ done.isObject done.origin sound.heap.origin
  · intro p en' found
    obtain ⟨o, live, rfl⟩ := done.origins p en' found
    obtain ⟨en, old⟩ := sound.live_found live
    have new := done.places o en live old
    rw [found, Option.some.injEq] at new
    rw [new]
    exact done.admits live old (sound.heap.admits o en old)
  · rw [scope]
    exact done.isObject live_scope sound.scope
  · rw [pinned]
    by_cases none : e.pinned = 0
    · exact .inl (none ▸ done.zero)
    · refine .inr (done.isString (.root ?_) (sound.pinned.resolve_left none))
      simp [rootOffsets, Entity.linkTo, none]
  · rw [result]
    exact ⟨done.types sound.result.1 fun o mem => live_value (by simp) mem,
      isPlain sound.result.2⟩
  · rw [roots]
    exact List.forall_mem_map.mpr fun v mem =>
      done.types (sound.roots v mem) fun o link => live_value (by simp [mem]) link
  · exact List.forall_mem_map.mpr fun v mem => ⟨done.types (sound.scratch v mem).1 fun o link =>
      live_value (by simp [mem]) link, isPlain (sound.scratch v mem).2⟩

/-- Only the offset 0 is mapped to 0. -/
theorem eq_zero_iff {o : UInt32} (live : o = 0 ∨ e.Live h scratch o) : m o = 0 ↔ o = 0 := by
  refine ⟨fun zero => ?_, fun zero => zero ▸ done.zero⟩
  by_contra nonzero
  have above : (0 : UInt32) < o := by
    rw [UInt32.lt_iff_toNat_lt]
    exact Nat.pos_of_ne_zero fun same => nonzero (UInt32.toNat_inj.mp same)
  have := done.increasing 0 o done.origin (live.resolve_left nonzero) above
  rw [done.zero, zero] at this
  exact absurd this (by decide)

/-! ## Property lists -/

/-- A property list read before and after a collection. -/
theorem propertiesFrom_eq (sound : e.Sound h scratch)
    {bound bound' : Nat} {o : UInt32} (there : o = 0 ∨ e.Live h scratch o ∧ h.IsProperty o)
    (enough : o.toNat < bound) (enough' : (m o).toNat < bound') :
    ∃ list, e.arena.propertiesFrom bound o = .ok list
      ∧ e'.arena.propertiesFrom bound' (m o) = .ok (list.map m) := by
  induction bound generalizing bound' o with
  | zero => omega
  | succ bound ih =>
    obtain ⟨bound', rfl⟩ : ∃ k, bound' = k + 1 := ⟨bound' - 1, by omega⟩
    by_cases none : o = 0
    · subst none
      exact ⟨[], rfl, by rw [done.zero]; rfl⟩
    · obtain ⟨live, next, key, value, found⟩ := there.resolve_left none
      obtain ⟨lower, -⟩ := sound.heap.admits o _ found
      have there := sound.heap.at?_eq found
      have there' := (done.sound sound).heap.at?_eq (done.places o _ live found)
      have next_live := live_link live found (List.mem_cons_self ..)
      have none' := mt (done.eq_zero_iff (.inr live)).mp none
      -- the next property stands below this one, before the collection and after it
      have next_lower : next.toNat < o.toNat ∧ (m next).toNat < (m o).toNat := by
        by_cases last : next = 0
        · have : o.toNat ≠ 0 := fun same => none (UInt32.toNat_inj.mp same)
          have : (m o).toNat ≠ 0 := fun same => none' (UInt32.toNat_inj.mp same)
          rw [last, done.zero, UInt32.toNat_zero]
          omega
        · simp only [← UInt32.lt_iff_toNat_lt]
          have lower := (lower.resolve_left last).2
          exact ⟨lower, done.increasing _ _ (next_live.resolve_left last) live lower⟩
      obtain ⟨list, run, run'⟩ := @ih bound' next
        (lower.elim .inl fun p => next_live.imp_right fun l => ⟨l, p.1⟩) (by omega) (by omega)
      refine ⟨o :: list, ?_, ?_⟩
      · rw [Arena.propertiesFrom, if_neg (not_or.mpr ⟨none, sound.holds.not_used_le there⟩),
          sound.holds.nextProperty_eq there, ok_bind, run]
        rfl
      · rw [Arena.propertiesFrom, if_neg (not_or.mpr ⟨none', done.holds.not_used_le there'⟩),
          done.holds.nextProperty_eq there', ok_bind, run']
        rfl

/-- Property lists keep their order. -/
theorem properties_eq (sound : e.Sound h scratch)
    {o : UInt32} (live : e.Live h scratch o) (object : h.IsObject o) :
    ∃ list, e.arena.properties o = .ok list ∧ e'.arena.properties (m o) = .ok (list.map m) := by
  obtain ⟨first, parent, found⟩ := object
  obtain ⟨property, -⟩ := sound.heap.admits o _ found
  have first_live := live_link live found (List.mem_cons_self ..)
  have there : first = 0 ∨ e.Live h scratch first ∧ h.IsProperty first :=
    property.elim .inl fun p => first_live.imp_right fun l => ⟨l, p⟩
  have enough : first.toNat < e.arena.chainBound ∧ (m first).toNat < e'.arena.chainBound := by
    rcases there with rfl | ⟨live, next, key, value, found⟩
    · rw [done.zero]
      exact ⟨Nat.succ_pos _, Nat.succ_pos _⟩
    · exact ⟨sound.holds.lt_chainBound found, done.holds.lt_chainBound (done.places _ _ live found)⟩
  obtain ⟨list, run, run'⟩ := done.propertiesFrom_eq sound there enough.1 enough.2
  refine ⟨list, ?_, ?_⟩
  · rw [Arena.properties, sound.holds.firstProperty_eq (sound.heap.at?_eq found), ok_bind, run]
  · rw [Arena.properties, done.holds.firstProperty_eq
      ((done.sound sound).heap.at?_eq (done.places o _ live found)), ok_bind, run']

end Collected

end Engine

/-! ## Texts -/

/-- The bytes a cursor reads from. -/
def Cursor.text (k : Cursor) (arena : ByteArray) : ByteArray := (k.source arena).slice 0 k.length

/-- A cursor reads from inside the string at an offset. -/
def Heap.Covers (h : Heap) (o : UInt32) (k : Cursor) : Prop :=
  ∃ start text, k.origin = .arena start ∧ h.entity? o.toNat = some (.string text)
    ∧ o.toNat + 4 ≤ start ∧ start + k.length ≤ o.toNat + 4 + text.size

namespace Engine

/-- What a cursor inside a string reads is a part of the text of the string. -/
theorem Sound.text_eq {e : Engine} {h : Heap} {scratch : List Value} (sound : e.Sound h scratch)
    {k : Cursor} {o : UInt32} {start : Nat} {text : ByteArray} (origin : k.origin = .arena start)
    (found : h.entity? o.toNat = some (.string text)) (low : o.toNat + 4 ≤ start)
    (high : start + k.length ≤ o.toNat + 4 + text.size) :
    k.text e.arena.bytes
      = text.extract (start - (o.toNat + 4)) (start - (o.toNat + 4) + k.length) := by
  have there := sound.heap.at?_eq found
  have inside := sound.holds.record_le_size there
  have whole : Record.size ⟨.string text, false⟩ = 4 + (text.size + 4) / 4 * 4 := rfl
  simp only [Cursor.text, Cursor.source, origin, Source.slice, Nat.add_zero]
  exact (sound.holds.records _ _ there).extract_eq (by omega) low high

namespace Collected

variable {e e' : Engine} {h h' : Heap} {scratch : List Value} {m : UInt32 → UInt32}
  {c : Cursor → Cursor}

/-- A cursor inside a live string stays inside it and reads the same bytes. -/
theorem covers (done : Collected e h scratch e' h' m c) (sound : e.Sound h scratch) {k : Cursor}
    {o : UInt32} (live : e.Live h scratch o) (covered : h.Covers o k) :
    h'.Covers (m o) (c k) ∧ (c k).text e'.arena.bytes = k.text e.arena.bytes
      ∧ c k = { k with origin := (c k).origin } := by
  obtain ⟨start, text, origin, found, low, high⟩ := covered
  have whole : (Entity.string text).size = 4 + (text.size + 4) / 4 * 4 := rfl
  have moved := done.arena k start o _ origin live found (by omega) (by omega)
  have found' := done.places o _ live found
  have low' : (m o).toNat + 4 ≤ start - o.toNat + (m o).toNat := by omega
  have high' : start - o.toNat + (m o).toNat + k.length ≤ (m o).toNat + 4 + text.size := by omega
  have shift : start - o.toNat + (m o).toNat - ((m o).toNat + 4) = start - (o.toNat + 4) := by omega
  rw [moved]
  refine ⟨⟨_, text, rfl, found', low', high'⟩, ?_, rfl⟩
  have reads := (done.sound sound).text_eq
    (k := { k with origin := .arena (start - o.toNat + (m o).toNat) }) rfl found' low' high'
  rw [reads, shift, sound.text_eq origin found low high]

end Collected

/-- A collection of a sound engine ends, and there is a strictly increasing map
of the live offsets under which the engine after it is the engine before it:
every live entity stands at its new offset with the same kind, text and plain
values and with its links mapped, property lists keep their order, and so do
the scope, the pinned entity, the last returned value, the values held for
later and the scratch words.  Every cursor over a text inside a live string
reads the same bytes. -/
theorem collection_preserves_live_graph (e : Engine) (h : Heap) (scratch : List Value)
    (sound : e.Sound h scratch) :
    ∃ (e' : Engine) (h' : Heap) (m : UInt32 → UInt32) (c : Cursor → Cursor),
      collectNow e = .ok ((), e') ∧ e'.Sound h' (scratch.map (Value.move m))
        ∧ (∀ o p, e.Live h scratch o → e.Live h scratch p → o < p → m o < m p)
        ∧ (∀ o, e.Live h scratch o → ∃ en, h.entity? o.toNat = some en
            ∧ h'.entity? (m o).toNat = some (en.move m))
        ∧ (∀ o, e.Live h scratch o → h.IsObject o → ∃ list, e.arena.properties o = .ok list
            ∧ e'.arena.properties (m o) = .ok (list.map m))
        ∧ m 0 = 0 ∧ e'.scope = m e.scope ∧ e'.pinned = m e.pinned
        ∧ e'.result = e.result.move m ∧ e'.roots = e.roots.map (Value.move m)
        ∧ e.arena.scratch = .ok scratch ∧ e'.arena.scratch = .ok (scratch.map (Value.move m))
        ∧ e'.cursor = c e.cursor ∧ e'.suspended = e.suspended.map c
        ∧ (∀ k text start, k.origin = .host text start → c k = k)
        ∧ ∀ k o, e.Live h scratch o → h.Covers o k → h'.Covers (m o) (c k)
            ∧ (c k).text e'.arena.bytes = k.text e.arena.bytes
            ∧ c k = { k with origin := (c k).origin } := by
  obtain ⟨e', h', m, c, run, done⟩ := sound.collectNow_eq
  have sound' := done.sound sound
  obtain ⟨deepest, events, registers⟩ := done.registers
  refine ⟨e', h', m, c, run, sound', done.increasing, fun o live => ?_,
    fun o live object => done.properties_eq sound live object, done.zero, ?_, ?_, ?_, ?_,
    sound.holds.scratch_eq, sound'.holds.scratch_eq, ?_, ?_, done.host,
    fun k o live covered => done.covers sound live covered⟩
  · obtain ⟨en, found⟩ := sound.live_found live
    exact ⟨en, found, done.places o en live found⟩
  all_goals
    rw [registers]
    rfl

/-- An object above a string that nobody refers to is found again after a
collection, where its map says. -/
theorem littered_collection_keeps_object :
    ∃ e, litter (initial 64) = .ok ((), e) ∧ e.Sound littered []
      ∧ ∃ (e' : Engine) (h' : Heap) (m : UInt32 → UInt32), collectNow e = .ok ((), e')
        ∧ e'.Sound h' [] ∧ e'.result = .ref .object (m 16)
        ∧ h'.entity? (m 16).toNat = some (.object (m 0) (m 0)) ∧ m 0 = 0 ∧ 0 < m 16 := by
  obtain ⟨e, made, result, -, sound⟩ := littered_sound
  obtain ⟨e', h', m, c, run, sound', order, places, -, zero, -, -, moved, -⟩ :=
    collection_preserves_live_graph e littered [] sound
  have live : e.Live littered [] 16 := by
    refine .root ?_
    rw [rootOffsets, result]
    simp only [List.mem_append, List.mem_flatMap, List.mem_cons]
    exact .inr ⟨_, .inl (.inl rfl), by decide⟩
  have origin : e.Live littered [] 0 :=
    live.link (show littered.entity? (16 : UInt32).toNat = some (.object 0 0) from rfl)
      (List.mem_cons_self ..)
  obtain ⟨en, found, found'⟩ := places 16 live
  obtain rfl : .object 0 0 = en := Option.some.inj found
  refine ⟨e, made, sound, e', h', m, run, sound', ?_, found', zero, ?_⟩
  · rw [moved, result, Value.move_ref m rfl]
  · rw [← zero]
    exact order 0 16 origin live (by decide)

end Engine

end ArenaScript
