import ArenaScript.Proofs.Arena.Records

/-!
# What an arena holds

`Arena.Holds` says that the bytes of an arena are the records of a heap, packed
from offset 0 to the end of the entities, with the words of the scratch stack
at the other end of the block.  Every read of a record gives what the heap says,
and every change of an arena is a change of the heap or of the scratch words.

Main results:

- `Holds.load32_header`, `Holds.parent_eq`, `Holds.propertyValue_eq`,
  `Holds.stringBytes_eq`: reads of records.
- `Holds.update`: a change inside one record.
- `Holds.append`: a new record.
- `Holds.scratch_eq`: the scratch stack.
-/

namespace ArenaScript

variable {r : Record} {l : UInt32}

/-! ## Steps that succeed -/

@[simp]
theorem ok_bind {ε α β : Type} (x : α) (f : α → Except ε β) : (Except.ok x >>= f) = f x := rfl

@[simp]
theorem map_ok {ε α β : Type} (f : α → β) (x : α) :
    (f <$> (Except.ok x : Except ε α)) = .ok (f x) := rfl

theorem eq_ok_of_toOption {ε α : Type} {x : Except ε α} {a : α} (given : x.toOption = some a) :
    x = .ok a := by
  cases x with
  | error h => cases given
  | ok b => exact congrArg _ (Option.some.inj given)

/-- A sum of words that does not wrap around. -/
theorem toNat_add_of_lt {a b : UInt32} (small : a.toNat + b.toNat < 2 ^ 32) :
    (a + b).toNat = a.toNat + b.toNat := by
  rw [UInt32.toNat_add, Nat.mod_eq_of_lt small]

namespace Arena

variable {a : Arena}

/-- The bytes of an arena start with the records of a heap, in a block of any
size. -/
structure Stores (a : Arena) (h : Heap) : Prop where
  /-- Every record stands at its offset. -/
  records : ∀ o r, h.at? o = some r → r.StoredAt a.bytes o
  /-- The records end where the entities end. -/
  extent_eq : h.extent = a.used.toNat
  /-- The entities lie in the block. -/
  used_le_size : a.used.toNat ≤ a.bytes.size

/-- The bytes of an arena are the records of a heap and the words of a scratch
stack. -/
structure Holds (a : Arena) (h : Heap) (scratch : List Value) : Prop where
  /-- Every record stands at its offset. -/
  records : ∀ o r, h.at? o = some r → r.StoredAt a.bytes o
  /-- The records end where the entities end. -/
  extent_eq : h.extent = a.used.toNat
  /-- The entities stay below the scratch stack. -/
  used_le : a.used.toNat ≤ a.limit.toNat
  /-- The scratch words stand above the limit. -/
  words : ∀ i v, scratch[i]? = some v → word64 a.bytes (a.limit.toNat + 8 * i) = v
  /-- The scratch words reach up to the top. -/
  room : a.limit.toNat + 8 * scratch.length = a.top.toNat
  /-- The top is aligned. -/
  top_aligned : a.top.toNat % 8 = 0
  /-- The top lies in the block. -/
  top_le : a.top.toNat ≤ a.bytes.size
  /-- Offsets leave room for the mark and the kind of a header. -/
  used_small : a.used.toNat ≤ 2 ^ 29

/-- Two arenas have the same block and the same room for entities and scratch
words. -/
structure SameBlock (a a' : Arena) : Prop where
  /-- The block is as long as before. -/
  size_eq : a'.bytes.size = a.bytes.size
  /-- The entities may reach as far as before. -/
  limit_eq : a'.limit = a.limit
  /-- The scratch stack starts where it did. -/
  top_eq : a'.top = a.top

theorem SameBlock.refl (a : Arena) : SameBlock a a := ⟨rfl, rfl, rfl⟩

theorem SameBlock.trans {b c : Arena} (first : SameBlock a b) (second : SameBlock b c) :
    SameBlock a c :=
  ⟨second.size_eq.trans first.size_eq, second.limit_eq.trans first.limit_eq,
    second.top_eq.trans first.top_eq⟩

/-! ## Reading records -/

namespace Stores

variable {a : Arena} {h : Heap} {r : Record} {o : UInt32} {m : Bool}

variable (stores : a.Stores h)
include stores

/-- A record lies below the end of the entities. -/
theorem record_le {o : Nat} (found : h.at? o = some r) : o + r.size ≤ a.used.toNat := by
  rw [← stores.extent_eq]
  exact Heap.at?_le_extent found

/-- A record lies in the block. -/
theorem record_le_size {o : Nat} (found : h.at? o = some r) : o + r.size ≤ a.bytes.size :=
  (stores.record_le found).trans stores.used_le_size

/-- A record lies in the walk over the entities. -/
theorem not_used_le (found : h.at? o.toNat = some r) : ¬ a.used ≤ o := by
  have := stores.record_le found
  have := r.eight_le_size
  rw [UInt32.le_iff_toNat_le]
  omega

/-- The offset of a record is a number of steps allowed in a chain. -/
theorem lt_chainBound {o : Nat} {e : Entity} (found : h.entity? o = some e) : o < a.chainBound := by
  rw [Heap.entity?, Option.map_eq_some_iff] at found
  obtain ⟨r, found, -⟩ := found
  have := stores.record_le_size found
  simp only [chainBound]
  omega

/-- There are fewer records than steps allowed in a chain. -/
theorem length_lt_chainBound : h.length < a.chainBound := by
  have records := Heap.length_le_extent h
  have extent := stores.extent_eq
  have used := stores.used_le_size
  simp only [chainBound]
  omega

/-- The header of a record is well formed. -/
theorem fits {o : Nat} (found : h.at? o = some r) : r.entity.Fits :=
  (stores.records _ _ found).1

/-- The first word of a record. -/
theorem load32_header (found : h.at? o.toNat = some r) : a.load32 o = .ok r.word := by
  have bound := stores.record_le_size found
  have eight := r.eight_le_size
  obtain ⟨-, first, -⟩ := stores.records _ _ found
  rw [load32_eq, if_pos (by omega), first]

/-- The second word of a record. -/
theorem load32_second (found : h.at? o.toNat = some r) :
    a.load32 (o + 4) = .ok (word32 a.bytes (o.toNat + 4)) := by
  have bound := stores.record_le found
  have used := stores.used_le_size
  have small := a.used.toNat_lt
  have eight := r.eight_le_size
  have four : (4 : UInt32).toNat = 4 := by decide
  rw [load32_eq, toNat_add_of_lt (by omega), four, if_pos (by omega)]

/-- The second word of an object. -/
theorem parent_eq {first parent : UInt32}
    (found : h.at? o.toNat = some ⟨.object first parent, m⟩) : a.parent o = .ok parent := by
  obtain ⟨-, -, body⟩ := stores.records _ _ found
  rw [Arena.parent, stores.load32_second found]
  exact congrArg _ body

/-- The second word of a property. -/
theorem propertyKey_eq {next key : UInt32} {value : Value}
    (found : h.at? o.toNat = some ⟨.property next key value, m⟩) : a.propertyKey o = .ok key := by
  obtain ⟨-, -, body, -⟩ := stores.records _ _ found
  rw [Arena.propertyKey, stores.load32_second found]
  exact congrArg _ body

/-- The value of a property. -/
theorem propertyValue_eq {next key : UInt32} {value : Value}
    (found : h.at? o.toNat = some ⟨.property next key value, m⟩) :
    a.propertyValue o = .ok value := by
  have bound : o.toNat + 16 ≤ a.used.toNat := stores.record_le found
  have used := stores.used_le_size
  have small := a.used.toNat_lt
  have eight : (8 : UInt32).toNat = 8 := by decide
  obtain ⟨-, -, -, body⟩ := stores.records _ _ found
  rw [Arena.propertyValue, load64_eq, toNat_add_of_lt (by omega), eight, if_pos (by omega), body]

/-- The first property of an object without a mark. -/
theorem firstProperty_eq {first parent : UInt32}
    (found : h.at? o.toNat = some ⟨.object first parent, false⟩) :
    a.firstProperty o = .ok first := by
  rw [Arena.firstProperty, stores.load32_header found, map_ok]
  exact congrArg _ (Entity.headerLink_object (stores.fits found))

/-- The property before one without a mark. -/
theorem nextProperty_eq {next key : UInt32} {value : Value}
    (found : h.at? o.toNat = some ⟨.property next key value, false⟩) :
    a.nextProperty o = .ok next := by
  rw [Arena.nextProperty, stores.load32_header found, map_ok]
  exact congrArg _ (Entity.headerLink_property (stores.fits found))

/-- The length of a string without a mark. -/
theorem stringLength_eq {text : ByteArray} (found : h.at? o.toNat = some ⟨.string text, false⟩) :
    ∃ n, a.stringLength o = .ok n ∧ n.toNat = text.size := by
  refine ⟨headerLength (Entity.string text).header - 1, ?_, ?_⟩
  · rw [Arena.stringLength, stores.load32_header found]
    rfl
  · have length := Entity.toNat_headerLength_string (stores.fits found)
    have one : (1 : UInt32).toNat = 1 := by decide
    rw [UInt32.toNat_sub_of_le _ _ (by rw [UInt32.le_iff_toNat_le]; omega), length, one]
    omega

/-- The bytes of a string without a mark. -/
theorem stringBytes_eq {text : ByteArray}
    (found : h.at? o.toNat = some ⟨.string text, false⟩) : a.stringBytes o = .ok text := by
  obtain ⟨n, length, hn⟩ := stores.stringLength_eq found
  have bound := stores.record_le found
  have used := stores.used_le_size
  have small := a.used.toNat_lt
  have whole : Record.size ⟨.string text, false⟩ = 4 + (text.size + 4) / 4 * 4 := rfl
  have four : (4 : UInt32).toNat = 4 := by decide
  have start : (o + 4).toNat = o.toNat + 4 := by rw [toNat_add_of_lt (by omega), four]
  have stop : (o + 4 + n).toNat = o.toNat + 4 + text.size := by
    rw [toNat_add_of_lt (by omega), start, hn]
  obtain ⟨-, -, body⟩ := stores.records _ _ found
  simp only [Arena.stringBytes, length, ok_bind, start, stop, Arena.slice]
  rw [if_pos (by omega), if_pos (by omega), Nat.add_sub_cancel_left]
  exact congrArg _ body

end Stores

namespace Holds

variable {a : Arena} {h : Heap} {scratch : List Value} {o next key : UInt32} {r : Record} {m : Bool}
  {value : Value}

variable (holds : a.Holds h scratch)
include holds

theorem used_le_size : a.used.toNat ≤ a.bytes.size := by
  have := holds.used_le
  have := holds.room
  have := holds.top_le
  omega

theorem stores : a.Stores h :=
  ⟨holds.records, holds.extent_eq, holds.used_le_size⟩

theorem record_le {o : Nat} (found : h.at? o = some r) : o + r.size ≤ a.used.toNat :=
  holds.stores.record_le found

/-- Every offset is far below the end of the 32-bit words. -/
theorem extent_lt : h.extent < 2 ^ 31 := by
  have := holds.extent_eq
  have := holds.used_small
  omega

theorem record_le_size {o : Nat} (found : h.at? o = some r) : o + r.size ≤ a.bytes.size :=
  holds.stores.record_le_size found

theorem not_used_le (found : h.at? o.toNat = some r) : ¬ a.used ≤ o :=
  holds.stores.not_used_le found

theorem lt_chainBound {o : Nat} {e : Entity} (found : h.entity? o = some e) : o < a.chainBound :=
  holds.stores.lt_chainBound found

/-- The end of the entities is aligned. -/
theorem used_mod_four : a.used.toNat % 4 = 0 := by
  rw [← holds.extent_eq]
  exact Heap.extent_mod_four h

theorem length_lt_chainBound : h.length < a.chainBound :=
  holds.stores.length_lt_chainBound

theorem load32_header (found : h.at? o.toNat = some r) : a.load32 o = .ok r.word :=
  holds.stores.load32_header found

theorem fits {o : Nat} (found : h.at? o = some r) : r.entity.Fits :=
  holds.stores.fits found

theorem parent_eq {first parent : UInt32}
    (found : h.at? o.toNat = some ⟨.object first parent, m⟩) : a.parent o = .ok parent :=
  holds.stores.parent_eq found

theorem propertyKey_eq
    (found : h.at? o.toNat = some ⟨.property next key value, m⟩) : a.propertyKey o = .ok key :=
  holds.stores.propertyKey_eq found

theorem propertyValue_eq
    (found : h.at? o.toNat = some ⟨.property next key value, m⟩) : a.propertyValue o = .ok value :=
  holds.stores.propertyValue_eq found

theorem firstProperty_eq {first parent : UInt32}
    (found : h.at? o.toNat = some ⟨.object first parent, false⟩) :
    a.firstProperty o = .ok first :=
  holds.stores.firstProperty_eq found

theorem nextProperty_eq (found : h.at? o.toNat = some ⟨.property next key value, false⟩) :
    a.nextProperty o = .ok next :=
  holds.stores.nextProperty_eq found

theorem stringLength_eq {text : ByteArray} (found : h.at? o.toNat = some ⟨.string text, false⟩) :
    ∃ n, a.stringLength o = .ok n ∧ n.toNat = text.size :=
  holds.stores.stringLength_eq found

theorem stringBytes_eq {text : ByteArray}
    (found : h.at? o.toNat = some ⟨.string text, false⟩) : a.stringBytes o = .ok text :=
  holds.stores.stringBytes_eq found

/-! ## The scratch stack -/

theorem limit_le_top : a.limit.toNat ≤ a.top.toNat := by
  have := holds.room
  omega

/-- The lower end of the scratch stack is aligned. -/
theorem limit_mod_eight : a.limit.toNat % 8 = 0 := by
  have := holds.room
  have := holds.top_aligned
  omega

theorem scratchCount_eq : a.scratchCount = scratch.length := by
  have := holds.room
  simp only [scratchCount]
  omega

end Holds

/-- Reading words from an offset on gives what stands there. -/
theorem scratchFrom_eq {vs : List Value} {o : UInt32}
    (bound : o.toNat + 8 * vs.length ≤ a.bytes.size) (small : o.toNat + 8 * vs.length < 2 ^ 32)
    (words : ∀ i v, vs[i]? = some v → word64 a.bytes (o.toNat + 8 * i) = v) :
    a.scratchFrom vs.length o = .ok vs := by
  induction vs generalizing o with
  | nil => rfl
  | cons v vs ih =>
    have eight : (8 : UInt32).toNat = 8 := by decide
    have head := words 0 v rfl
    simp only [List.length_cons] at bound small
    have next : (o + 8).toNat = o.toNat + 8 := by rw [toNat_add_of_lt (by omega), eight]
    have tail := ih (o := o + 8) (by omega) (by omega) fun i w found => by
      rw [next, ← words (i + 1) w found]
      congr 1
      omega
    rw [List.length_cons, scratchFrom, load64_eq, if_pos (by omega), tail]
    exact congrArg (fun w => Except.ok (w :: vs)) head

/-- The words of the scratch stack. -/
theorem Holds.scratch_eq {h : Heap} {scratch : List Value} (holds : a.Holds h scratch) :
    a.scratch = .ok scratch := by
  rw [Arena.scratch, holds.scratchCount_eq]
  refine scratchFrom_eq ?_ ?_ holds.words
  · rw [holds.room]
    exact holds.top_le
  · rw [holds.room]
    exact a.top.toNat_lt

/-! ## Changing one record -/

/-- A change that stays inside one record replaces that record. -/
theorem Stores.update {h : Heap} (stores : a.Stores h) {o : Nat} {r new : Record} {b : ByteArray}
    (found : h.at? o = some r) (same : new.size = r.size) (size : b.size = a.bytes.size)
    (outside : ∀ k, k < o ∨ o + r.size ≤ k → b.get! k = a.bytes.get! k)
    (stored : new.StoredAt b o) : { a with bytes := b }.Stores (h.update o new) := by
  refine ⟨?_, ?_, ?_⟩
  · intro o' r' found'
    rw [Heap.at?_update found same] at found'
    split at found'
    next here =>
      cases found'
      exact here ▸ stored
    next away =>
      have inside := stores.record_le_size found'
      refine (stores.records _ _ found').congr inside (by simpa [size] using inside) ?_
      intro k hk
      rcases Nat.lt_or_gt_of_ne away with before | after
      · have := Heap.at?_disjoint found' found before
        exact outside _ (by omega)
      · have := Heap.at?_disjoint found found' after
        exact outside _ (by omega)
  · rw [Heap.extent_update found same]
    exact stores.extent_eq
  · simpa [size] using stores.used_le_size

/-- Bytes below the end of the entities do not matter to the scratch stack. -/
theorem Stores.holds {a a' : Arena} {h g : Heap} {scratch : List Value} (stores : a'.Stores g)
    (holds : a.Holds h scratch) (rest : a' = { a with bytes := a'.bytes })
    (size : a'.bytes.size = a.bytes.size)
    (above : ∀ k, a.used.toNat ≤ k → a'.bytes.get! k = a.bytes.get! k) : a'.Holds g scratch := by
  have used : a'.used = a.used := by rw [rest]
  have limit : a'.limit = a.limit := by rw [rest]
  have top : a'.top = a.top := by rw [rest]
  have below := holds.used_le
  refine ⟨stores.records, stores.extent_eq, by rw [used, limit]; exact below, ?_, ?_, ?_, ?_, ?_⟩
  · intro i v there
    rw [limit, ← holds.words i v there]
    exact word64_congr fun k hk => above _ (by omega)
  · rw [limit, top, holds.room]
  · rw [top, holds.top_aligned]
  · rw [top, size]
    exact holds.top_le
  · rw [used]
    exact holds.used_small

namespace Holds

variable {a : Arena} {h : Heap} {scratch : List Value}

@[inherit_doc Stores.update]
theorem update (holds : a.Holds h scratch) {o : Nat} {r new : Record} {b : ByteArray}
    (found : h.at? o = some r) (same : new.size = r.size) (size : b.size = a.bytes.size)
    (outside : ∀ k, k < o ∨ o + r.size ≤ k → b.get! k = a.bytes.get! k)
    (stored : new.StoredAt b o) : { a with bytes := b }.Holds (h.update o new) scratch := by
  have bound := holds.record_le found
  exact (holds.stores.update found same size outside stored).holds holds rfl size
    fun k hk => outside k (by omega)

/-- A record placed at the end of the entities becomes the last one of the
heap. -/
theorem append (holds : a.Holds h scratch) {r : Record} {b : ByteArray} {used : UInt32}
    (fits : a.used.toNat + r.size ≤ a.limit.toNat) (used_eq : used.toNat = a.used.toNat + r.size)
    (small : used.toNat ≤ 2 ^ 29) (size : b.size = a.bytes.size)
    (outside : ∀ k, k < a.used.toNat ∨ a.used.toNat + r.size ≤ k → b.get! k = a.bytes.get! k)
    (stored : r.StoredAt b a.used.toNat) :
    { a with bytes := b, used := used }.Holds (h ++ [r]) scratch := by
  have extent := holds.extent_eq
  refine ⟨?_, ?_, ?_, ?_, holds.room, holds.top_aligned, ?_, small⟩
  · intro o r' found
    rw [Heap.at?_append] at found
    split at found
    next before =>
      have inside := holds.record_le found
      have inside' := holds.record_le_size found
      refine (holds.records _ _ found).congr inside' (by simpa [size] using inside') ?_
      exact fun k hk => outside _ (by omega)
    next beyond =>
      simp only [Heap.at?] at found
      split at found
      next here =>
        cases found
        have place : o = a.used.toNat := by omega
        exact place ▸ stored
      next away => simp at found
  · rw [Heap.extent_append, extent]
    simp only [Heap.extent]
    omega
  · simp only
    omega
  · intro i v there
    rw [← holds.words i v there]
    exact word64_congr fun k hk => outside _ (by simp only; omega)
  · simpa [size] using holds.top_le

end Holds

end Arena

/-! ## Writing the header of a record -/

namespace Entity

/-- The link of an entity, 0 for a string. -/
def link : Entity → UInt32
  | object first _ => first
  | property next _ _ => next
  | string _ => 0

/-- An entity with another link. -/
def withLink : Entity → UInt32 → Entity
  | object _ parent, l => object l parent
  | property _ key value, l => property l key value
  | string text, _ => string text

@[simp]
theorem withLink_link (e : Entity) : e.withLink e.link = e := by
  cases e <;> rfl

@[simp]
theorem size_withLink (e : Entity) (l : UInt32) : (e.withLink l).size = e.size := by
  cases e <;> rfl

end Entity

/-- Writing the first word of a record changes its link and its mark only. -/
theorem Record.StoredAt.put_header {new : Record} {b : ByteArray} {o : Nat}
    (stored : r.StoredAt b o) (inside : o + r.size ≤ b.size) (fits : new.entity.Fits)
    (linked : new.entity = r.entity.withLink l) : new.StoredAt (Arena.put32 b o new.word) o := by
  obtain ⟨-, -, body⟩ := stored
  have eight := r.eight_le_size
  refine ⟨fits, Arena.word32_put32_self b o new.word (by omega), ?_⟩
  rcases r with ⟨entity, m⟩
  cases entity with
  | object first parent =>
    simp only [linked, Entity.withLink] at body ⊢
    rw [Arena.word32_put32_of_disjoint _ _ _ _ (by omega), body]
  | property next key value =>
    simp only [linked, Entity.withLink] at body ⊢
    obtain ⟨hkey, hvalue⟩ := body
    refine ⟨?_, ?_⟩
    · rw [Arena.word32_put32_of_disjoint _ _ _ _ (by omega), hkey]
    · rw [← hvalue]
      exact Arena.word64_congr fun k hk => Arena.get!_put32_of_outside _ _ _ _ (by omega)
  | string text =>
    have whole : Record.size ⟨.string text, m⟩ = 4 + (text.size + 4) / 4 * 4 := rfl
    simp only [linked, Entity.withLink] at body ⊢
    refine Eq.trans (Arena.extract_congr ?_ (by omega) fun k hk => ?_) body
    · rw [Arena.size_put32]
      omega
    · exact Arena.get!_put32_of_outside _ _ _ _ (by omega)

/-- Writing the first word of a record, as a step on the heap. -/
theorem Arena.Stores.store32_header {a : Arena} {h : Heap} (stores : a.Stores h) {o : UInt32}
    {n : Record} (found : h.at? o.toNat = some r) (fits : n.entity.Fits)
    (linked : n.entity = r.entity.withLink l) :
    ∃ a', a.store32 o n.word = .ok a' ∧ a'.Stores (h.update o.toNat n)
      ∧ a' = { a with bytes := put32 a.bytes o.toNat n.word } := by
  have inside := stores.record_le_size found
  have eight := r.eight_le_size
  have same : n.size = r.size := by simp only [Record.size, linked, Entity.size_withLink]
  refine ⟨_, ?_, stores.update found same (size_put32 _ _ _) ?_ ?_, rfl⟩
  · rw [store32_eq, if_pos (by omega)]
  · exact fun k hk => get!_put32_of_outside _ _ _ _ (by omega)
  · exact (stores.records _ _ found).put_header inside fits linked

@[inherit_doc Arena.Stores.store32_header]
theorem Arena.Holds.store32_header {a : Arena} {h : Heap} {scratch : List Value}
    (holds : a.Holds h scratch) {o : UInt32} {n : Record} (found : h.at? o.toNat = some r)
    (fits : n.entity.Fits) (linked : n.entity = r.entity.withLink l) :
    ∃ a', a.store32 o n.word = .ok a' ∧ a'.Holds (h.update o.toNat n) scratch
      ∧ a.SameBlock a' ∧ a' = { a with bytes := put32 a.bytes o.toNat n.word } := by
  have bound := holds.record_le found
  have eight := r.eight_le_size
  obtain ⟨_, store, stores, rfl⟩ := holds.stores.store32_header found fits linked
  refine ⟨_, store, stores.holds holds rfl (size_put32 _ _ _) fun k hk => ?_,
    ⟨size_put32 _ _ _, rfl, rfl⟩, rfl⟩
  exact get!_put32_of_outside _ _ _ _ (by omega)

namespace Arena

/-! ## Writing the body of a record -/

namespace Holds

variable {a : Arena} {h : Heap} {scratch : List Value} {o : UInt32} {m : Bool}

/-- Writing the second word of an object. -/
theorem store_parent (holds : a.Holds h scratch) {first parent : UInt32}
    (found : h.at? o.toNat = some ⟨.object first parent, m⟩) (p : UInt32) :
    ∃ a', a.store32 (o + 4) p = .ok a'
      ∧ a'.Holds (h.update o.toNat ⟨.object first p, m⟩) scratch ∧ a.SameBlock a' := by
  have inside : o.toNat + 8 ≤ a.bytes.size := holds.record_le_size found
  have below : o.toNat + 8 ≤ a.used.toNat := holds.record_le found
  have small := holds.used_small
  have four : (4 : UInt32).toNat = 4 := by decide
  have place : (o + 4).toNat = o.toNat + 4 := by rw [toNat_add_of_lt (by omega), four]
  obtain ⟨fits, word, -⟩ := holds.records _ _ found
  refine ⟨{ a with bytes := put32 a.bytes (o.toNat + 4) p }, ?_, ?_, size_put32 _ _ _, rfl, rfl⟩
  · rw [store32_eq, place, if_pos (by omega)]
  · refine holds.update found rfl (size_put32 _ _ _) (fun k outside => ?_) ⟨fits, ?_, ?_⟩
    · have eight : Record.size ⟨.object first parent, m⟩ = 8 := rfl
      exact get!_put32_of_outside _ _ _ _ (by omega)
    · rw [word32_put32_of_disjoint _ _ _ _ (by omega), word]
      rfl
    · exact word32_put32_self _ _ _ (by omega)

/-- Writing the second word of a property. -/
theorem store_key (holds : a.Holds h scratch) {next key : UInt32} {value : Value}
    (found : h.at? o.toNat = some ⟨.property next key value, m⟩) (p : UInt32) :
    ∃ a', a.store32 (o + 4) p = .ok a'
      ∧ a'.Holds (h.update o.toNat ⟨.property next p value, m⟩) scratch ∧ a.SameBlock a' := by
  have inside : o.toNat + 16 ≤ a.bytes.size := holds.record_le_size found
  have below : o.toNat + 16 ≤ a.used.toNat := holds.record_le found
  have small := holds.used_small
  have four : (4 : UInt32).toNat = 4 := by decide
  have place : (o + 4).toNat = o.toNat + 4 := by rw [toNat_add_of_lt (by omega), four]
  obtain ⟨fits, word, -, body⟩ := holds.records _ _ found
  refine ⟨{ a with bytes := put32 a.bytes (o.toNat + 4) p }, ?_, ?_, size_put32 _ _ _, rfl, rfl⟩
  · rw [store32_eq, place, if_pos (by omega)]
  · refine holds.update found rfl (size_put32 _ _ _) (fun k outside => ?_) ⟨fits, ?_, ?_, ?_⟩
    · have sixteen : Record.size ⟨.property next key value, m⟩ = 16 := rfl
      exact get!_put32_of_outside _ _ _ _ (by omega)
    · rw [word32_put32_of_disjoint _ _ _ _ (by omega), word]
      rfl
    · exact word32_put32_self _ _ _ (by omega)
    · rw [← body]
      exact word64_congr fun k hk => get!_put32_of_outside _ _ _ _ (by omega)

/-- Writing the value of a property. -/
theorem store_value (holds : a.Holds h scratch) {next key : UInt32} {value : Value}
    (found : h.at? o.toNat = some ⟨.property next key value, m⟩) (v : Value) :
    ∃ a', a.store64 (o + 8) v = .ok a'
      ∧ a'.Holds (h.update o.toNat ⟨.property next key v, m⟩) scratch ∧ a.SameBlock a' := by
  have inside : o.toNat + 16 ≤ a.bytes.size := holds.record_le_size found
  have below : o.toNat + 16 ≤ a.used.toNat := holds.record_le found
  have small := holds.used_small
  have eight : (8 : UInt32).toNat = 8 := by decide
  have place : (o + 8).toNat = o.toNat + 8 := by rw [toNat_add_of_lt (by omega), eight]
  obtain ⟨fits, word, body, -⟩ := holds.records _ _ found
  refine ⟨{ a with bytes := putValue a.bytes (o.toNat + 8) v }, ?_, ?_, size_putValue _ _ _, rfl,
    rfl⟩
  · rw [store64_eq, place, if_pos (by omega)]
  · refine holds.update found rfl (size_putValue _ _ _) (fun k outside => ?_) ⟨fits, ?_, ?_, ?_⟩
    · have sixteen : Record.size ⟨.property next key value, m⟩ = 16 := rfl
      exact get!_putValue_of_outside _ _ _ _ (by omega)
    · refine Eq.trans (word32_congr fun k hk => ?_) word
      exact get!_putValue_of_outside _ _ _ _ (by omega)
    · rw [← body]
      exact word32_congr fun k hk => get!_putValue_of_outside _ _ _ _ (by omega)
    · exact word64_putValue_self _ _ _ (by omega)

end Holds

/-- Writing one word of the scratch stack. -/
theorem Holds.store_scratch {a : Arena} {h : Heap} {scratch : List Value}
    (holds : a.Holds h scratch) {o : UInt32} {i : Nat} (inside : i < scratch.length)
    (place : o.toNat = a.limit.toNat + 8 * i) (v : Value) :
    ∃ a', a.store64 o v = .ok a' ∧ a'.Holds h (scratch.set i v) ∧ a.SameBlock a' := by
  have room := holds.room
  have top := holds.top_le
  have used := holds.used_le
  refine ⟨{ a with bytes := putValue a.bytes o.toNat v }, ?_, ?_, size_putValue _ _ _, rfl, rfl⟩
  · rw [store64_eq, if_pos (by omega)]
  · refine ⟨?_, holds.extent_eq, used, ?_, ?_, holds.top_aligned, ?_, holds.used_small⟩
    · intro p r found
      have below := holds.record_le found
      have block := holds.record_le_size found
      refine (holds.records p r found).congr block (by simpa using block) fun k hk => ?_
      exact get!_putValue_of_outside _ _ _ _ (by omega)
    · intro j w there
      simp only
      rw [List.getElem?_set] at there
      split at there
      next same =>
        subst same
        rw [Option.some.injEq] at there
        rw [← place, ← there]
        exact word64_putValue_self _ _ _ (by omega)
      next other =>
        rw [← holds.words j w there]
        exact word64_putValue_of_disjoint _ _ _ _ (by omega)
    · rw [List.length_set]
      exact room
    · simpa using top

theorem sameBlock_noteLow (a : Arena) : a.SameBlock a.noteLow := by
  rw [noteLow]
  split
  · exact ⟨rfl, rfl, rfl⟩
  · exact .refl a

/-- Noting the free bytes changes nothing that is held. -/
theorem Holds.noteLow {a : Arena} {h : Heap} {scratch : List Value}
    (holds : a.Holds h scratch) : a.noteLow.Holds h scratch := by
  rw [Arena.noteLow]
  split
  · exact ⟨holds.records, holds.extent_eq, holds.used_le, holds.words, holds.room,
      holds.top_aligned, holds.top_le, holds.used_small⟩
  · exact holds

end Arena

end ArenaScript
