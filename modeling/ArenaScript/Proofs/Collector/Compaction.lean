import ArenaScript.Proofs.Collector.Marking
import ArenaScript.Proofs.Value.Packing

/-!
# Compaction moves offsets

Taking one record out of the arena moves every offset above it down by the
size of the record.  In terms of the heap, the links of all records without a
mark are mapped by one function and the record vanishes from the list.

Main results:

- `Arena.Holds.relocate_eq`: every link is moved.
- `Arena.Holds.slide_eq`: the record vanishes.
-/

namespace ArenaScript

/-! ## Moving values and entities -/

namespace Value

/-- A value that refers to an entity is nothing but its kind and its offset. -/
def Canonical (v : Value) : Prop := v.isEntity = true → v = ref v.kind v.offset

/-- A value with its offset mapped. -/
def move (f : UInt32 → UInt32) (v : Value) : Value :=
  if v.isEntity then ref v.kind (f v.offset) else v

variable (f : UInt32 → UInt32)
include f

@[simp]
theorem kind_move (v : Value) : (v.move f).kind = v.kind := by
  simp only [move]
  split <;> simp

@[simp]
theorem isEntity_move (v : Value) : (v.move f).isEntity = v.isEntity := by
  simp only [isEntity, kind_move]

theorem offset_move {v : Value} (entity : v.isEntity = true) : (v.move f).offset = f v.offset := by
  rw [move, if_pos entity, offset_ref]

theorem move_ref {k : Kind} (entity : k.isEntity = true) (o : UInt32) :
    (ref k o).move f = ref k (f o) := by
  rw [move, isEntity, kind_ref, if_pos entity, offset_ref]

theorem move_of_not_entity {v : Value} (other : v.isEntity = false) : v.move f = v := by
  rw [move, other, if_neg Bool.false_ne_true]

theorem move_canonical (v : Value) : (v.move f).Canonical := by
  intro entity
  rw [isEntity_move] at entity
  rw [offset_move f entity, kind_move, move, if_pos entity]

omit f in
theorem move_id {v : Value} (canonical : v.Canonical) : v.move id = v := by
  simp only [move]
  split
  next entity => exact (canonical entity).symm
  next => rfl

omit f in
theorem move_move (f g : UInt32 → UInt32) (v : Value) : (v.move f).move g = v.move (g ∘ f) := by
  by_cases entity : v.isEntity = true
  · rw [move, isEntity_move, if_pos entity, kind_move, offset_move f entity, move, if_pos entity]
    rfl
  · rw [Bool.not_eq_true] at entity
    simp only [move_of_not_entity _ entity]

omit f in
theorem move_comp_move (f g : UInt32 → UInt32) : move g ∘ move f = move (g ∘ f) :=
  funext (move_move f g)

end Value

namespace Entity

/-- An entity with all its offsets mapped. -/
def move (f : UInt32 → UInt32) : Entity → Entity
  | object first parent => object (f first) (f parent)
  | property next key value => property (f next) (f key) (value.move f)
  | string text => string text

/-- All offsets an entity holds, 0 included. -/
def offsets : Entity → List UInt32
  | object first parent => [first, parent]
  | property next key value => next :: key :: Arena.valueLinks value
  | string _ => []

/-- The value of a property refers by kind and offset alone. -/
def Canonical : Entity → Prop
  | property _ _ value => value.Canonical
  | _ => True

@[simp]
theorem size_move (f : UInt32 → UInt32) (e : Entity) : (e.move f).size = e.size := by
  cases e <;> rfl

theorem move_id {e : Entity} (canonical : e.Canonical) : e.move id = e := by
  cases e with
  | object first parent => rfl
  | property next key value => simp only [move, id_eq, Value.move_id canonical]
  | string text => rfl

theorem move_move (f g : UInt32 → UInt32) (e : Entity) : (e.move f).move g = e.move (g ∘ f) := by
  cases e with
  | object first parent => rfl
  | property next key value => simp only [move, Value.move_move, Function.comp]
  | string text => rfl

theorem move_canonical (f : UInt32 → UInt32) (e : Entity) : (e.move f).Canonical := by
  cases e with
  | object first parent => trivial
  | property next key value => exact Value.move_canonical f value
  | string text => trivial

theorem offsets_move (f : UInt32 → UInt32) (e : Entity) :
    (e.move f).offsets = e.offsets.map f := by
  cases e with
  | object first parent => rfl
  | property next key value =>
    simp only [move, offsets, List.map_cons, Arena.valueLinks, Value.isEntity_move]
    split
    next entity => rw [Value.offset_move f entity]; rfl
    next => rfl
  | string text => rfl

/-- Every offset of an entity is 0 or one of its links. -/
theorem mem_links_of_mem_offsets {e : Entity} {l : UInt32} (mem : l ∈ e.offsets) :
    l = 0 ∨ l ∈ e.links := by
  have self : ∀ k : UInt32, k = 0 ∨ k ∈ linkTo k := by
    intro k
    by_cases zero : k = 0
    · exact .inl zero
    · simp [linkTo, zero]
  cases e with
  | object first parent =>
    simp only [offsets, List.mem_cons, List.not_mem_nil, or_false] at mem
    rcases mem with rfl | rfl
    · exact (self _).imp_right (List.mem_cons_of_mem _)
    · exact .inr (List.mem_cons_self ..)
  | property next key value =>
    simp only [offsets, List.mem_cons] at mem
    rcases mem with rfl | rfl | mem
    · exact (self _).imp_right (List.mem_append_right _)
    · exact .inr (List.mem_cons_self ..)
    · exact .inr (List.mem_append_left _ (List.mem_cons_of_mem _ mem))
  | string text => simp [offsets] at mem

end Entity

/-- A record with the offsets it holds mapped, if it stays. -/
def Record.move (f : UInt32 → UInt32) (r : Record) : Record :=
  if r.marked then r else { r with entity := r.entity.move f }

@[simp]
theorem Record.size_move (f : UInt32 → UInt32) (r : Record) : (r.move f).size = r.size := by
  simp only [Record.move]
  split
  · rfl
  · exact Entity.size_move f r.entity

@[simp]
theorem Record.marked_move (f : UInt32 → UInt32) (r : Record) : (r.move f).marked = r.marked := by
  simp only [Record.move]
  split <;> rfl

@[simp]
theorem Record.move_clear (f : UInt32 → UInt32) (e : Entity) :
    Record.move f ⟨e, false⟩ = ⟨e.move f, false⟩ := rfl

namespace Arena

theorem movedValue_eq (s n : UInt32) (v : Value) : movedValue s n v = v.move (moved s n) := rfl

/-! ## Moving all links -/

namespace Holds

variable {a : Arena} {h : Heap} {scratch : List Value}

/-- Moving the links of one entity without a mark. -/
theorem relocateEntity_eq (holds : a.Holds h scratch) {o s n : UInt32} {e : Entity}
    (found : h.at? o.toNat = some ⟨e, false⟩) (fits : (e.move (moved s n)).Fits) :
    ∃ a', a.relocateEntity s n o e.header = .ok a'
      ∧ a'.Holds (h.update o.toNat ⟨e.move (moved s n), false⟩) scratch ∧ a.SameBlock a' := by
  have old := holds.fits found
  cases e with
  | object first parent =>
    have kind := Entity.headerKind_object old
    have header : movedHeader s n (Entity.object first parent).header = moved s n first := by
      rw [movedHeader, kind, Entity.headerLink_object old, UInt32.or_zero]
    obtain ⟨a₁, store, holds₁, block, -⟩ := holds.store32_header
      (n := ⟨.object (moved s n first) parent, false⟩) (l := moved s n first) found fits rfl
    have found₁ := Heap.at?_update_self (n := ⟨.object (moved s n first) parent, false⟩) found rfl
    obtain ⟨a₂, store₂, holds₂, block₂⟩ := holds₁.store_parent found₁ (moved s n parent)
    rw [Heap.update_update found] at holds₂
    refine ⟨a₂, ?_, holds₂, block.trans block₂⟩
    rw [relocateEntity, if_pos kind, header]
    change a.store32 o (moved s n first) = _ at store
    rw [store, ok_bind, holds₁.parent_eq found₁, ok_bind, store₂]
  | property next key value =>
    have kind := Entity.headerKind_property old
    have header : movedHeader s n (Entity.property next key value).header
        = moved s n next ||| 1 := by
      rw [movedHeader, kind, Entity.headerLink_property old]
    obtain ⟨a₁, store, holds₁, block, -⟩ := holds.store32_header
      (n := ⟨.property (moved s n next) key value, false⟩) (l := moved s n next) found fits rfl
    have found₁ := Heap.at?_update_self
      (n := ⟨.property (moved s n next) key value, false⟩) found rfl
    obtain ⟨a₂, store₂, holds₂, block₂⟩ := holds₁.store_key found₁ (moved s n key)
    rw [Heap.update_update found] at holds₂
    have found₂ := Heap.at?_update_self
      (n := ⟨.property (moved s n next) (moved s n key) value, false⟩) found rfl
    obtain ⟨a₃, store₃, holds₃, block₃⟩ := holds₂.store_value found₂ (movedValue s n value)
    rw [Heap.update_update found] at holds₃
    change a.store32 o (moved s n next ||| 1) = _ at store
    rw [relocateEntity, if_neg (by rw [kind]; decide), if_pos kind, header, store, ok_bind,
      holds₁.propertyKey_eq found₁, ok_bind, store₂, ok_bind, holds₂.propertyValue_eq found₂,
      ok_bind]
    by_cases entity : value.isEntity = true
    · exact ⟨a₃, by rw [if_pos entity, store₃], holds₃, (block.trans block₂).trans block₃⟩
    · refine ⟨a₂, by rw [if_neg entity]; rfl, ?_, block.trans block₂⟩
      rw [Bool.not_eq_true] at entity
      simpa only [Entity.move, Value.move_of_not_entity _ entity] using holds₂
  | string text =>
    have kind := Entity.headerKind_string old
    refine ⟨a, ?_, ?_, .refl a⟩
    · rw [relocateEntity, if_neg (by rw [kind]; decide), if_neg (by rw [kind]; decide)]
      rfl
    · rw [Entity.move, Heap.update_self found]
      exact holds

end Holds

/-- Moving the links of all records from an offset on. -/
theorem Holds.relocateFrom_eq {back front : Heap} {a : Arena} {scratch : List Value}
    {s n o : UInt32} {bound : Nat}
    (holds : a.Holds (front.map (Record.move (moved s n)) ++ back) scratch)
    (place : o.toNat = front.extent) (enough : back.length < bound)
    (fits : ∀ e, ⟨e, false⟩ ∈ back → (e.move (moved s n)).Fits) :
    ∃ a', relocateFrom s n bound o a = .ok a'
      ∧ a'.Holds ((front ++ back).map (Record.move (moved s n))) scratch ∧ a.SameBlock a' := by
  have sizes := Record.size_move (moved s n)
  induction back generalizing front a o bound with
  | nil =>
    obtain ⟨bound, rfl⟩ : ∃ n, bound = n + 1 := ⟨bound - 1, by simp at enough; omega⟩
    have stop : a.used ≤ o := by
      rw [UInt32.le_iff_toNat_le, ← holds.extent_eq, place, List.append_nil,
        Heap.extent_map sizes]
    simp only [List.append_nil] at holds ⊢
    exact ⟨a, by rw [relocateFrom, if_pos stop], holds, .refl a⟩
  | cons r rest ih =>
    obtain ⟨bound, rfl⟩ : ∃ n, bound = n + 1 := ⟨bound - 1, by simp at enough; omega⟩
    have place' : o.toNat = Heap.extent (front.map (Record.move (moved s n))) := by
      rw [place, Heap.extent_map sizes]
    have found : Heap.at? (front.map (Record.move (moved s n)) ++ r :: rest) o.toNat = some r := by
      rw [place']
      exact Heap.at?_middle _ _ _
    have go := holds.not_used_le found
    have next : (o + entitySize (unmarked r.word)).toNat = Heap.extent (front ++ [r]) := by
      have size : (entitySize (unmarked r.word)).toNat = r.size := by
        rw [Record.unmarked_word (holds.fits found)]
        exact Entity.toNat_entitySize (holds.fits found)
      have := holds.record_le found
      have := a.used.toNat_lt
      rw [toNat_add_of_lt (by omega), size, place]
      simp [Heap.extent]
    -- a marked record is passed over, any other one is moved
    have step : ∃ a₁, (if isMarked r.word then pure a else a.relocateEntity s n o r.word) = .ok a₁
        ∧ a₁.Holds ((front ++ [r]).map (Record.move (moved s n)) ++ rest) scratch
        ∧ a.SameBlock a₁ := by
      rw [Record.isMarked_word (holds.fits found)]
      rcases r with ⟨e, m⟩
      cases m with
      | true => exact ⟨a, rfl, by simpa [Record.move] using holds, .refl a⟩
      | false =>
        obtain ⟨a₁, run, holds₁, block⟩ := holds.relocateEntity_eq (s := s) (n := n) found
          (fits e (List.mem_cons_self ..))
        rw [place', Heap.update_append] at holds₁
        exact ⟨a₁, run, by simpa using holds₁, block⟩
    obtain ⟨a₁, run₁, holds₁, block₁⟩ := step
    obtain ⟨a', run, holds', block⟩ := @ih (front ++ [r]) a₁ (o + entitySize (unmarked r.word))
      bound holds₁
      next (by simp at enough; omega) fun e mem => fits e (List.mem_cons_of_mem _ mem)
    rw [← List.append_cons] at holds'
    refine ⟨a', ?_, holds', block₁.trans block⟩
    rw [relocateFrom, if_neg go, holds.load32_header found, ok_bind]
    split at run₁
    next marked =>
      cases run₁
      rw [if_pos marked]
      exact run
    next clear =>
      rw [if_neg clear, run₁]
      exact run

/-- Moving the words of the scratch stack from one on. -/
theorem Holds.relocateScratch_eq {a : Arena} {h : Heap} {s n o : UInt32} {back front : List Value}
    (holds : a.Holds h (front.map (Value.move (moved s n)) ++ back))
    (place : o.toNat = a.limit.toNat + 8 * front.length) :
    ∃ a', relocateScratch s n back.length o a = .ok a'
      ∧ a'.Holds h ((front ++ back).map (Value.move (moved s n))) ∧ a.SameBlock a' := by
  induction back generalizing a front o with
  | nil => exact ⟨a, rfl, by simpa using holds, .refl a⟩
  | cons v rest ih =>
    have eight : (8 : UInt32).toNat = 8 := by decide
    have room := holds.room
    have top := holds.top_le
    have word := a.top.toNat_lt
    simp only [List.length_append, List.length_map, List.length_cons] at room
    have load : a.load64 o = .ok v := by
      have word := holds.words front.length v (by simp)
      rw [load64_eq, if_pos (by omega), place, word]
    obtain ⟨a₁, store, holds₁, block₁⟩ := holds.store_scratch (i := front.length) (by simp) place
      (movedValue s n v)
    have next : (o + 8).toNat = a₁.limit.toNat + 8 * (front ++ [v]).length := by
      rw [toNat_add_of_lt (by omega), eight, place, block₁.limit_eq, List.length_append,
        List.length_singleton]
      omega
    obtain ⟨a', run, holds', block⟩ := @ih a₁ (o + 8) (front ++ [v])
      (by simpa [movedValue_eq] using holds₁) next
    refine ⟨a', ?_, by simpa using holds', block₁.trans block⟩
    rw [List.length_cons, relocateScratch, load, ok_bind, store, ok_bind, run]

/-- Moving every offset that the arena holds. -/
theorem Holds.relocate_eq {a : Arena} {h : Heap} {scratch : List Value} {s n : UInt32}
    (holds : a.Holds h scratch) (fits : ∀ e, ⟨e, false⟩ ∈ h → (e.move (moved s n)).Fits) :
    ∃ a', a.relocate s n = .ok a' ∧ a'.Holds (h.map (Record.move (moved s n)))
      (scratch.map (Value.move (moved s n))) ∧ a.SameBlock a' := by
  obtain ⟨a₁, run₁, holds₁, block₁⟩ := @Holds.relocateFrom_eq h [] a scratch s n 0 a.chainBound
    holds rfl
    holds.length_lt_chainBound fits
  obtain ⟨a₂, run₂, holds₂, block₂⟩ := @Holds.relocateScratch_eq a₁ _ s n a₁.limit scratch [] holds₁
    rfl
  refine ⟨a₂, ?_, holds₂, block₁.trans block₂⟩
  rw [relocate, run₁, ok_bind, holds₁.scratchCount_eq, run₂]

/-! ## Closing the gap -/

/-- Sliding the bytes above a record down takes the record out of the heap. -/
theorem Holds.slide_eq {a : Arena} {front back : Heap} {d : Record} {scratch : List Value}
    {s n : UInt32} (holds : a.Holds (front ++ d :: back) scratch)
    (place : s.toNat = front.extent) (size : n.toNat = d.size) :
    ∃ a', a.slide s n = .ok a' ∧ a'.Holds (front ++ back) scratch ∧ a.SameBlock a' := by
  have extent := holds.extent_eq
  have used := holds.used_le_size
  have small := holds.used_small
  have below := holds.used_le
  have room := holds.room
  have top := holds.top_le
  rw [Heap.extent_append, Heap.extent_cons] at extent
  have stop : (s + n).toNat = s.toNat + n.toNat := toNat_add_of_lt (by omega)
  have used' : (a.used - n).toNat = a.used.toNat - n.toNat :=
    UInt32.toNat_sub_of_le _ _ (by rw [UInt32.le_iff_toNat_le]; omega)
  have bytes := fun j => get!_copySlice a.bytes a.bytes (s + n).toNat s.toNat
    (a.used.toNat - (s + n).toNat) j (by omega) (by omega)
  have length := size_copySlice a.bytes a.bytes (s + n).toNat s.toNat
    (a.used.toNat - (s + n).toNat) (by omega) (by omega)
  refine ⟨{ a with
    bytes := a.bytes.copySlice (s + n).toNat a.bytes s.toNat (a.used.toNat - (s + n).toNat)
    used := a.used - n }, ?_, ?_, length, rfl, rfl⟩
  · rw [slide, if_pos (by omega)]
  · refine ⟨?_, ?_, ?_, ?_, room, holds.top_aligned, ?_, ?_⟩
    · intro o r found
      rw [Heap.at?_append] at found
      split at found
      next before =>
        -- records below the gap keep their bytes
        have found' : (front ++ d :: back).at? o = some r := by
          rw [Heap.at?_append, if_pos before, found]
        have whole := holds.record_le_size found'
        have inside := Heap.at?_le_extent found
        refine (holds.records o r found').congr whole (by simp only [length]; omega) ?_
        intro k hk
        simp only [bytes]
        rw [if_neg (by omega)]
      next beyond =>
        -- records above it are read where they stood before
        have found' : (front ++ d :: back).at? (o + d.size) = some r := by
          rw [Heap.at?_append, if_neg (by omega), Heap.at?, if_neg
            (by have := d.eight_le_size; omega),
            if_pos (by omega), ← found]
          congr 1
          omega
        have whole := holds.record_le_size found'
        have inside := holds.record_le found'
        refine (holds.records _ r found').congr whole (by simp only [length]; omega) ?_
        intro k hk
        simp only [bytes]
        rw [if_pos (by omega)]
        congr 1
        omega
    · simp only [Heap.extent_append, used']
      omega
    · simp only [used']
      omega
    · intro i v there
      rw [← holds.words i v there]
      refine word64_congr fun k hk => ?_
      simp only [bytes]
      rw [if_neg (by omega)]
    · simp only [length]
      exact top
    · simp only [used']
      omega

end Arena

end ArenaScript
