import ArenaScript.Proofs.Arena.Headers
import ArenaScript.Proofs.Arena.Words

/-!
# The records of an arena

The bytes of an arena are a view of a list of records.  An `Entity` is the
content of a record as data, a `Record` is an entity with its mark, and a
`Heap` is the list of records from offset 0 on.  All later statements about an
arena go through this view: a record is looked up by the offset at which it
starts, and `Record.StoredAt` ties it to the bytes.

Main results:

- `Heap.at?_append`, `Heap.at?_update`: lookup in changed heaps.
- `Heap.at?_le_extent`, `Heap.at?_disjoint`, `Heap.at?_next`: records lie side by side.
- `Record.StoredAt.congr`: a record is determined by its bytes.
-/

namespace ArenaScript

/-! ## Entities as data -/

/-- The content of a record. -/
inductive Entity where
  /-- An object: its newest property, or 0, and the object around it. -/
  | object (first parent : UInt32)
  /-- A property: the one before it, or 0, its key and its value. -/
  | property (next key : UInt32) (value : Value)
  /-- A string. -/
  | string (text : ByteArray)

namespace Entity

variable {text : ByteArray} {next key : UInt32} {value : Value}

/-- The header of an entity, without the mark. -/
def header : Entity → UInt32
  | object first _ => first
  | property next _ _ => next ||| 1
  | string text => Arena.stringHeader (UInt32.ofNat text.size)

/-- The number of bytes of a record. -/
def size : Entity → Nat
  | object _ _ => 8
  | property _ _ _ => 16
  | string text => 4 + (text.size + 4) / 4 * 4

/-- The header has room for what it holds. -/
def Fits : Entity → Prop
  | object first _ => first.toNat % 4 = 0 ∧ first.toNat < 2 ^ 31
  | property next _ _ => next.toNat % 4 = 0 ∧ next.toNat < 2 ^ 31
  | string text => text.size + 1 < 2 ^ 29

instance (entity : Entity) : Decidable entity.Fits :=
  match entity with
  | .object _ _ => inferInstanceAs (Decidable (_ ∧ _))
  | .property _ _ _ => inferInstanceAs (Decidable (_ ∧ _))
  | .string _ => inferInstanceAs (Decidable (_ < _))

theorem eight_le_size (e : Entity) : 8 ≤ e.size := by
  cases e <;> simp only [size] <;> omega

theorem size_mod_four (e : Entity) : e.size % 4 = 0 := by
  cases e <;> (simp only [size]; try omega)

/-- The header of a string as a number. -/
theorem toNat_header_string (fits : (string text).Fits) :
    (string text).header.toNat = 4 * (text.size + 1) + 2 := by
  have size : (UInt32.ofNat text.size).toNat = text.size :=
    UInt32.toNat_ofNat_of_lt' (by simp only [Fits] at fits; simp only [UInt32.size]; omega)
  simp only [Fits] at fits
  rw [header, Arena.toNat_stringHeader (by rw [size]; omega), size]

/-- The header of a property as a number. -/
theorem toNat_header_property (fits : (property next key value).Fits) :
    (property next key value).header.toNat = next.toNat + 1 :=
  Arena.toNat_or_of_aligned fits.1 (by decide)

/-- No header reaches the mark. -/
theorem header_lt {e : Entity} (fits : e.Fits) : e.header.toNat < 2 ^ 31 := by
  cases e with
  | object first parent => exact fits.2
  | property next key value =>
    rw [toNat_header_property fits]
    have aligned := fits.1
    have bound := fits.2
    omega
  | string text =>
    rw [toNat_header_string fits]
    simp only [Fits] at fits
    omega

/-- The kind in the header of an object. -/
theorem headerKind_object {first parent : UInt32} (fits : (object first parent).Fits) :
    Arena.headerKind (object first parent).header = 0 := by
  rw [← UInt32.toNat_inj, Arena.toNat_headerKind]
  exact fits.1

/-- The link in the header of an object. -/
theorem headerLink_object {first parent : UInt32} (fits : (object first parent).Fits) :
    Arena.headerLink (object first parent).header = first := by
  rw [← UInt32.toNat_inj, Arena.toNat_headerLink]
  have aligned := fits.1
  simp only [header]
  omega

/-- The kind in the header of a property. -/
theorem headerKind_property (fits : (property next key value).Fits) :
    Arena.headerKind (property next key value).header = 1 := by
  rw [← UInt32.toNat_inj, Arena.toNat_headerKind, toNat_header_property fits]
  have aligned := fits.1
  simp only [UInt32.reduceToNat]
  omega

/-- The link in the header of a property. -/
theorem headerLink_property (fits : (property next key value).Fits) :
    Arena.headerLink (property next key value).header = next := by
  rw [← UInt32.toNat_inj, Arena.toNat_headerLink, toNat_header_property fits]
  have aligned := fits.1
  omega

/-- The kind in the header of a string. -/
theorem headerKind_string (fits : (string text).Fits) :
    Arena.headerKind (string text).header = 2 := by
  rw [← UInt32.toNat_inj, Arena.toNat_headerKind, toNat_header_string fits]
  simp only [UInt32.reduceToNat]
  omega

/-- The length in the header of a string counts the closing zero. -/
theorem toNat_headerLength_string (fits : (string text).Fits) :
    (Arena.headerLength (string text).header).toNat = text.size + 1 := by
  rw [Arena.toNat_headerLength, toNat_header_string fits]
  omega

/-- The size of an entity can be told from its header. -/
theorem toNat_entitySize {e : Entity} (fits : e.Fits) :
    (Arena.entitySize e.header).toNat = e.size := by
  cases e with
  | object first parent =>
    simp only [Arena.entitySize, headerKind_object fits, ↓reduceIte]
    rfl
  | property next key value =>
    simp only [Arena.entitySize, headerKind_property fits]
    rfl
  | string text =>
    have length := toNat_headerLength_string fits
    simp only [Fits] at fits
    have round := Arena.toNat_roundUp (n := Arena.headerLength (string text).header) (by omega)
    have four : (4 : UInt32).toNat = 4 := by decide
    rw [Arena.entitySize, headerKind_string fits, if_neg (by decide), if_neg (by decide),
      if_pos rfl, UInt32.toNat_add, four, round, size]
    omega

end Entity

/-! ## Records -/

/-- An entity with its mark. -/
structure Record where
  /-- The content. -/
  entity : Entity
  /-- The collector takes the record for garbage. -/
  marked : Bool := false

namespace Record

variable {r : Record}

/-- The number of bytes of a record. -/
def size (r : Record) : Nat := r.entity.size

/-- The first word of a record. -/
def word (r : Record) : UInt32 :=
  if r.marked then r.entity.header ||| Arena.markBit else r.entity.header

/-- The bytes from an offset on are those of the record. -/
def StoredAt (r : Record) (b : ByteArray) (o : Nat) : Prop :=
  r.entity.Fits ∧ Arena.word32 b o = r.word ∧
    match r.entity with
    | .object _ parent => Arena.word32 b (o + 4) = parent
    | .property _ key value => Arena.word32 b (o + 4) = key ∧ Arena.word64 b (o + 8) = value
    | .string text => b.extract (o + 4) (o + 4 + text.size) = text

instance (r : Record) (b : ByteArray) (o : Nat) : Decidable (r.StoredAt b o) :=
  match r with
  | ⟨.object _ _, _⟩ => inferInstanceAs (Decidable (_ ∧ _ ∧ _))
  | ⟨.property _ _ _, _⟩ => inferInstanceAs (Decidable (_ ∧ _ ∧ _ ∧ _))
  | ⟨.string _, _⟩ => inferInstanceAs (Decidable (_ ∧ _ ∧ _))

theorem eight_le_size (r : Record) : 8 ≤ r.size := r.entity.eight_le_size

theorem size_mod_four (r : Record) : r.size % 4 = 0 := r.entity.size_mod_four

/-- The mark can be told from the first word. -/
theorem isMarked_word (fits : r.entity.Fits) : Arena.isMarked r.word = r.marked := by
  have clear := Entity.header_lt fits
  cases marked : r.marked with
  | true => simp only [word, marked, ↓reduceIte, Arena.isMarked_or_markBit clear]
  | false => simp only [word, marked, Bool.false_eq_true, ↓reduceIte, Arena.isMarked_eq_false clear]

/-- The first word without the mark is the header. -/
theorem unmarked_word (fits : r.entity.Fits) : Arena.unmarked r.word = r.entity.header := by
  have clear := Entity.header_lt fits
  cases marked : r.marked with
  | true => simp only [word, marked, ↓reduceIte, Arena.unmarked_or_markBit clear]
  | false => simp only [word, marked, Bool.false_eq_true, ↓reduceIte, Arena.unmarked_of_clear clear]

/-- A record is determined by its bytes. -/
theorem StoredAt.congr {b b' : ByteArray} {o o' : Nat} (stored : r.StoredAt b o)
    (inside : o + r.size ≤ b.size) (inside' : o' + r.size ≤ b'.size)
    (same : ∀ k, k < r.size → b'.get! (o' + k) = b.get! (o + k)) : r.StoredAt b' o' := by
  obtain ⟨fits, first, body⟩ := stored
  have eight := r.eight_le_size
  refine ⟨fits, ?_, ?_⟩
  · rw [← first]
    exact Arena.word32_congr fun k hk => same k (by omega)
  · rcases r with ⟨entity, marked⟩
    cases entity with
    | object first parent =>
      rw [← body]
      refine Arena.word32_congr fun k hk => ?_
      rw [Nat.add_assoc, Nat.add_assoc]
      exact same (4 + k) (by omega)
    | property next key value =>
      have sixteen : size ⟨.property next key value, marked⟩ = 16 := rfl
      obtain ⟨hkey, hvalue⟩ := body
      constructor
      · rw [← hkey]
        refine Arena.word32_congr fun k hk => ?_
        rw [Nat.add_assoc, Nat.add_assoc]
        exact same (4 + k) (by omega)
      · rw [← hvalue]
        refine Arena.word64_congr fun k hk => ?_
        rw [Nat.add_assoc, Nat.add_assoc]
        exact same (8 + k) (by omega)
    | string text =>
      have whole : size ⟨.string text, marked⟩ = 4 + (text.size + 4) / 4 * 4 := rfl
      simp only at body ⊢
      rw [← body]
      have length : (b.extract (o + 4) (o + 4 + text.size)).size = text.size := by rw [body]
      rw [length]
      refine Arena.extract_congr (by omega) (by omega) fun k hk => ?_
      rw [Nat.add_assoc, Nat.add_assoc]
      exact same (4 + k) (by omega)

/-- A part of the bytes of a string is a part of its text. -/
theorem StoredAt.extract_eq {text : ByteArray} {m : Bool} {b : ByteArray} {o s n : Nat}
    (stored : StoredAt ⟨.string text, m⟩ b o) (inside : o + 4 + text.size ≤ b.size)
    (low : o + 4 ≤ s) (high : s + n ≤ o + 4 + text.size) :
    b.extract s (s + n) = text.extract (s - (o + 4)) (s - (o + 4) + n) := by
  obtain ⟨-, -, body⟩ := stored
  simp only at body
  refine Arena.extract_congr (by omega) (by omega) fun j hj => ?_
  conv => rhs; rw [← body]
  rw [Arena.get!_extract _ _ _ _ inside (by omega)]
  congr 1
  omega

end Record

/-! ## Heaps -/

/-- The records of an arena, from offset 0 on. -/
abbrev Heap := List Record

namespace Heap

variable {h : Heap} {r n : Record} {o : Nat}

/-- The number of bytes of a heap. -/
def extent : Heap → Nat
  | [] => 0
  | r :: rest => r.size + extent rest

/-- The record that starts at an offset. -/
def at? : Heap → Nat → Option Record
  | [], _ => none
  | r :: rest, o => if o = 0 then some r else if r.size ≤ o then at? rest (o - r.size) else none

/-- The entity that starts at an offset, marked or not. -/
def entity? (h : Heap) (o : Nat) : Option Entity := (h.at? o).map Record.entity

/-- The heap with the record at an offset replaced. -/
def update : Heap → Nat → Record → Heap
  | [], _, _ => []
  | r :: rest, o, new =>
    if o = 0 then new :: rest
    else if r.size ≤ o then r :: update rest (o - r.size) new else r :: rest

theorem extent_cons (r : Record) (h : Heap) : extent (r :: h) = r.size + h.extent := rfl

@[simp]
theorem extent_append (h k : Heap) : extent (h ++ k) = extent h + extent k := by
  induction h with
  | nil => simp [extent]
  | cons r rest ih =>
    simp only [List.cons_append, extent, ih]
    omega

theorem extent_mod_four (h : Heap) : extent h % 4 = 0 := by
  induction h with
  | nil => rfl
  | cons r rest ih =>
    have aligned := r.size_mod_four
    simp only [extent]
    omega

/-- Every record takes eight bytes or more. -/
theorem length_le_extent (h : Heap) : 8 * h.length ≤ extent h := by
  induction h with
  | nil => simp [extent]
  | cons r rest ih =>
    have eight := r.eight_le_size
    simp only [List.length_cons, extent]
    omega

/-- A record ends within the extent of its heap. -/
theorem at?_le_extent (found : h.at? o = some r) : o + r.size ≤ h.extent := by
  induction h generalizing o with
  | nil => simp [at?] at found
  | cons r' rest ih =>
    simp only [at?] at found
    simp only [extent]
    split at found
    · simp_all
    · split at found
      · have := ih found
        omega
      · simp at found

/-- Lookup in two heaps side by side. -/
theorem at?_append (h k : Heap) (o : Nat) :
    (h ++ k).at? o = if o < h.extent then h.at? o else k.at? (o - h.extent) := by
  induction h generalizing o with
  | nil => simp [extent]
  | cons r rest ih =>
    have eight := r.eight_le_size
    rw [List.cons_append, extent_cons]
    simp only [at?]
    by_cases start : o = 0
    · rw [if_pos start, if_pos start, if_pos (by omega)]
    · rw [if_neg start, if_neg start]
      by_cases inside : r.size ≤ o
      · rw [if_pos inside, if_pos inside, ih, Nat.sub_sub]
        by_cases within : o < r.size + extent rest
        · rw [if_pos within, if_pos (by omega)]
        · rw [if_neg within, if_neg (by omega)]
      · rw [if_neg inside, if_neg inside, if_pos (by omega)]

/-- The record after a part of the heap. -/
theorem at?_middle (h k : Heap) (r : Record) : (h ++ r :: k).at? h.extent = some r := by
  rw [at?_append, if_neg (by omega), Nat.sub_self]
  rfl

variable (found : h.at? o = some r)
include found

/-- A record that is found has records before and after it. -/
theorem exists_split_of_at? : ∃ front back, h = front ++ r :: back ∧ front.extent = o := by
  induction h generalizing o with
  | nil => simp [at?] at found
  | cons r' rest ih =>
    simp only [at?] at found
    split at found
    next start =>
      cases found
      exact ⟨[], rest, rfl, start.symm⟩
    next start =>
      split at found
      next inside =>
        obtain ⟨front, back, rfl, reach⟩ := ih found
        exact ⟨r' :: front, back, rfl, by simp only [extent]; omega⟩
      next inside => cases found

omit found in
/-- Every record of a heap is found somewhere. -/
theorem exists_at?_of_mem (mem : r ∈ h) : ∃ o, h.at? o = some r := by
  obtain ⟨front, back, rfl⟩ := List.append_of_mem mem
  exact ⟨extent front, at?_middle front back r⟩

/-- A record that is found is one of the heap. -/
theorem mem_of_at? : r ∈ h := by
  obtain ⟨front, back, rfl, -⟩ := exists_split_of_at? found
  simp

/-- Records do not overlap. -/
theorem at?_disjoint {o' : Nat} {r' : Record}
    (found' : h.at? o' = some r') (order : o < o') : o + r.size ≤ o' := by
  obtain ⟨front, back, rfl, rfl⟩ := exists_split_of_at? found
  rw [at?_append, if_neg (by omega)] at found'
  simp only [at?] at found'
  rw [if_neg (by omega)] at found'
  split at found'
  · omega
  · cases found'

/-- A record is followed by another one or by the end of the heap. -/
theorem at?_next : o + r.size = h.extent ∨ ∃ r', h.at? (o + r.size) = some r' := by
  obtain ⟨front, back, rfl, rfl⟩ := exists_split_of_at? found
  cases back with
  | nil => exact .inl (by simp [extent])
  | cons r' rest =>
    have reach : front.extent + r.size = (front ++ [r]).extent := by simp [extent]
    refine .inr ⟨r', ?_⟩
    rw [reach, List.append_cons]
    exact at?_middle (front ++ [r]) rest r'

/-- Records start at multiples of four. -/
theorem at?_mod_four : o % 4 = 0 := by
  obtain ⟨front, back, -, rfl⟩ := exists_split_of_at? found
  exact extent_mod_four front

omit found in
/-- Changing records without changing their sizes moves none of them. -/
theorem at?_map {f : Record → Record} (sizes : ∀ r, (f r).size = r.size) (h : Heap) (o : Nat) :
    at? (h.map f) o = (h.at? o).map f := by
  induction h generalizing o with
  | nil => rfl
  | cons r rest ih =>
    simp only [List.map_cons, at?, sizes, ih]
    split
    · rfl
    · split <;> rfl

omit found in
theorem extent_map {f : Record → Record} (sizes : ∀ r, (f r).size = r.size) (h : Heap) :
    extent (h.map f) = h.extent := by
  induction h with
  | nil => rfl
  | cons r rest ih => simp only [List.map_cons, extent, sizes, ih]

omit found in
/-- The replaced record stands between the same neighbours. -/
theorem update_append (front back : Heap) (r new : Record) :
    (front ++ r :: back).update front.extent new = front ++ new :: back := by
  induction front with
  | nil => simp [update, extent]
  | cons r' rest ih =>
    have eight := r'.eight_le_size
    simp only [List.cons_append, update, extent]
    rw [if_neg (by omega), if_pos (by omega), Nat.add_sub_cancel_left, ih]

/-- Replacing a record by one of the same size keeps the extent. -/
theorem extent_update {new : Record} (same : new.size = r.size) :
    (h.update o new).extent = h.extent := by
  obtain ⟨front, back, rfl, rfl⟩ := exists_split_of_at? found
  simp [update_append, extent, same]

/-- Lookup after a record was replaced by one of the same size. -/
theorem at?_update (same : n.size = r.size) (o' : Nat) :
    (h.update o n).at? o' = if o' = o then some n else h.at? o' := by
  obtain ⟨front, back, rfl, rfl⟩ := exists_split_of_at? found
  rw [update_append]
  by_cases here : o' = front.extent
  · rw [if_pos here, here, at?_middle]
  · rw [if_neg here, at?_append, at?_append]
    split
    · rfl
    · have away : o' - front.extent ≠ 0 := by omega
      simp only [at?, same, away, ↓reduceIte]

/-- The replaced record is found at its offset. -/
theorem at?_update_self (same : n.size = r.size) : (h.update o n).at? o = some n := by
  rw [at?_update found same, if_pos rfl]

/-- Only the last replacement counts. -/
theorem update_update (n last : Record) : (h.update o n).update o last = h.update o last := by
  obtain ⟨front, back, rfl, rfl⟩ := exists_split_of_at? found
  simp only [update_append]

/-- Replacing a record before others. -/
theorem update_append_left {k : Heap} : (h ++ k).update o n = h.update o n ++ k := by
  obtain ⟨front, back, rfl, rfl⟩ := exists_split_of_at? found
  rw [update_append, List.append_assoc, List.cons_append, update_append, List.append_assoc,
    List.cons_append]

/-- Replacing a record by itself changes nothing. -/
theorem update_self : h.update o r = h := by
  obtain ⟨front, back, rfl, rfl⟩ := exists_split_of_at? found
  rw [update_append]

end Heap

end ArenaScript
