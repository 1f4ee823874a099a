import ArenaScript.Proofs.Arena.Contents

/-!
# New records

Making an entity either finds no room and changes nothing, or adds one record
at the end of the heap.  A new property also becomes the first of its object.

Main definitions:

- `newString?`, `newStringInPlace?`, `newObject?`, `newProperty?`: an arena with a new
  record, if there is room for it.

Main results:

- `Holds.newString?_eq`, `Holds.newStringInPlace?_eq`, `Holds.newObject?_eq`,
  `Holds.newProperty?_eq`: the records that are added.
- `newString?_large`: texts that no arena has room for.
- `Holds.push?_eq`, `Holds.pop_eq`, `Holds.reverse_eq`: the scratch stack.
-/

namespace ArenaScript.Arena

/-- A new record with the given header and a number of bytes after it.  The
bytes are left as they are. -/
def newEntity? (a : Arena) (header n : UInt32) : Except Halt (Option (UInt32 × Arena)) :=
  match a.alloc? (4 + n) with
  | none => .ok none
  | some (offset, a) => do return some (offset, ← a.store32 offset header)

/-- A new string of the given length whose bytes are those already in place. -/
def newStringInPlace? (a : Arena) (length : UInt32) : Except Halt (Option (UInt32 × Arena)) := do
  match ← a.newEntity? (stringHeader length) (length + 1) with
  | none => return none
  | some (offset, a) => return some (offset, ← a.writeByte (offset + 4 + length).toNat 0)

/-- A new string with the given bytes. -/
def newString? (a : Arena) (text : ByteArray) : Except Halt (Option (UInt32 × Arena)) := do
  let length := UInt32.ofNat text.size
  match ← a.newEntity? (stringHeader length) (length + 1) with
  | none => return none
  | some (offset, a) =>
    let a ← a.write (offset + 4).toNat text
    return some (offset, ← a.writeByte (offset + 4 + length).toNat 0)

/-- A new object without properties. -/
def newObject? (a : Arena) (parent : UInt32) : Except Halt (Option (UInt32 × Arena)) := do
  match ← a.newEntity? 0 4 with
  | none => return none
  | some (offset, a) => return some (offset, ← a.store32 (offset + 4) parent)

/-- A new property at the head of an object's list.  The record is complete
before the object refers to it, so a full arena leaves the object as it was. -/
def newProperty? (a : Arena) (object key : UInt32) (value : Value) :
    Except Halt (Option (UInt32 × Arena)) := do
  let first := headerLink (← a.load32 object)
  match ← a.newEntity? (first ||| 1) 12 with
  | none => return none
  | some (offset, a) =>
    let a ← a.store32 (offset + 4) key
    let a ← a.store64 (offset + 8) value
    return some (offset, ← a.store32 object offset)

/-- What an attempt to add a record of a size comes to: it does not fit, or the
arena holds a new heap and the record stands where the entities ended. -/
def Grows (a : Arena) (h : Heap) (scratch : List Value) (size : Nat) :
    Option (UInt32 × Arena) → Prop
  | none => a.limit.toNat < a.used.toNat + size
  | some (o, a') => o = a.used ∧ a'.Holds h scratch ∧ a.SameBlock a'

/-- A string longer than the arena finds no room. -/
theorem newString?_large {a : Arena} {text : ByteArray} (large : a.bytes.size < text.size) :
    a.newString? text = .ok none ∨ a.newString? text = .error .fault := by
  simp only [newString?, newEntity?, alloc?]
  by_cases room : a.used.toNat + (roundUp (4 + (UInt32.ofNat text.size + 1))).toNat
      ≤ a.limit.toNat
  · refine .inr ?_
    by_cases header : a.used.toNat + 4 ≤ a.bytes.size
    · have size := size_put32 a.bytes a.used.toNat (stringHeader (UInt32.ofNat text.size))
      have full : ¬ (a.used + 4).toNat + text.size
          ≤ (put32 a.bytes a.used.toNat (stringHeader (UInt32.ofNat text.size))).size := by
        omega
      simp only [if_pos room, store32_eq, if_pos header, write, ok_bind, pure_bind, if_neg full]
      rfl
    · simp only [if_pos room, store32_eq, if_neg header]
      rfl
  · simp only [if_neg room]
    exact .inl rfl

/-- A string longer than the arena is turned down, unless its length wraps. -/
theorem newString?_eq_none {a : Arena} {text : ByteArray} (large : a.bytes.size < text.size)
    (limit : a.limit.toNat ≤ a.bytes.size) (short : text.size + 8 < 2 ^ 32) :
    a.newString? text = .ok none := by
  have length : (UInt32.ofNat text.size).toNat = text.size := by
    rw [UInt32.toNat_ofNat']
    exact Nat.mod_eq_of_lt (by omega)
  have size : text.size ≤ (roundUp (4 + (UInt32.ofNat text.size + 1))).toNat := by
    have one : (1 : UInt32).toNat = 1 := rfl
    have four : (4 : UInt32).toNat = 4 := rfl
    have inner : (UInt32.ofNat text.size + 1).toNat = text.size + 1 := by
      rw [toNat_add_of_lt (by omega), length, one]
    have outer : (4 + (UInt32.ofNat text.size + 1)).toNat = 4 + (text.size + 1) := by
      rw [toNat_add_of_lt (by omega), inner, four]
    rw [toNat_roundUp (by omega), outer]
    omega
  simp only [newString?, newEntity?, alloc?]
  rw [if_neg (by omega)]
  rfl

namespace Holds

variable {a : Arena} {h : Heap} {scratch : List Value} {text : ByteArray}

variable (holds : a.Holds h scratch)
include holds

theorem limit_le_size : a.limit.toNat ≤ a.bytes.size :=
  holds.limit_le_top.trans holds.top_le

/-- Making room for a header and a number of bytes after it. -/
theorem newEntity?_eq (header : UInt32) {n : UInt32} (small : n.toNat + 7 < 2 ^ 32) :
    (a.limit.toNat < a.used.toNat + (n.toNat + 7) / 4 * 4 ∧ a.newEntity? header n = .ok none)
      ∨ ∃ used, used.toNat = a.used.toNat + (n.toNat + 7) / 4 * 4
        ∧ used.toNat ≤ a.limit.toNat
        ∧ a.newEntity? header n = .ok (some (a.used,
          { a with used := used, bytes := put32 a.bytes a.used.toNat header })) := by
  have four : (4 : UInt32).toNat = 4 := by decide
  have sum : (4 + n).toNat = 4 + n.toNat := by rw [toNat_add_of_lt (by omega), four]
  have round : (roundUp (4 + n)).toNat = (n.toNat + 7) / 4 * 4 := by
    rw [toNat_roundUp (by omega), sum]
    omega
  have limit := holds.limit_le_size
  have word := a.limit.toNat_lt
  rw [newEntity?, alloc?]
  simp only [round]
  by_cases room : a.used.toNat + (n.toNat + 7) / 4 * 4 ≤ a.limit.toNat
  · have used : (a.used + roundUp (4 + n)).toNat = a.used.toNat + (n.toNat + 7) / 4 * 4 := by
      rw [toNat_add_of_lt (by omega), round]
    refine .inr ⟨_, used, by omega, ?_⟩
    simp only [if_pos room, store32_eq]
    rw [if_pos (by omega)]
    rfl
  · refine .inl ⟨by omega, ?_⟩
    simp only [if_neg room]

/-- A new object. -/
theorem newObject?_eq (small : a.limit.toNat ≤ 2 ^ 29) (parent : UInt32) :
    ∃ r, a.newObject? parent = .ok r ∧ a.Grows (h ++ [⟨.object 0 parent, false⟩]) scratch 8 r := by
  rcases holds.newEntity?_eq 0 (n := 4) (by decide) with ⟨full, run⟩ | ⟨used, used_eq, room, run⟩
  · exact ⟨none, by rw [newObject?, run]; rfl, full⟩
  · have limit := holds.limit_le_size
    have four : (4 : UInt32).toNat = 4 := by decide
    have eight : Record.size ⟨.object 0 parent, false⟩ = 8 := rfl
    rw [four] at used_eq
    have place : (a.used + 4).toNat = a.used.toNat + 4 := by
      rw [toNat_add_of_lt (by omega), four]
    refine ⟨some (a.used, { a with
      used := used
      bytes := put32 (put32 a.bytes a.used.toNat 0) (a.used.toNat + 4) parent }), ?_, rfl, ?_,
      by simp, rfl, rfl⟩
    · rw [newObject?, run, ok_bind]
      simp only [store32_eq, size_put32, place]
      rw [if_pos (by omega)]
      rfl
    · refine holds.append (by omega) (by omega) (by omega) (by simp) (fun k outside => ?_)
        ⟨?_, ?_, ?_⟩
      · rw [get!_put32_of_outside _ _ _ _ (by omega), get!_put32_of_outside _ _ _ _ (by omega)]
      · exact ⟨rfl, by decide⟩
      · rw [word32_put32_of_disjoint _ _ _ _ (by omega), word32_put32_self _ _ _ (by omega)]
        rfl
      · exact word32_put32_self _ _ _ (by rw [size_put32]; omega)

/-- A new property becomes the first one of its object. -/
theorem newProperty?_eq (small : a.limit.toNat ≤ 2 ^ 29) {object first parent : UInt32}
    (found : h.at? object.toNat = some ⟨.object first parent, false⟩) (key : UInt32)
    (value : Value) :
    ∃ r, a.newProperty? object key value = .ok r
      ∧ a.Grows (h.update object.toNat ⟨.object a.used parent, false⟩
          ++ [⟨.property first key value, false⟩]) scratch 16 r := by
  have fits := holds.fits found
  have link : headerLink (Record.word ⟨.object first parent, false⟩) = first :=
    Entity.headerLink_object fits
  have load := holds.load32_header found
  rcases holds.newEntity?_eq (first ||| 1) (n := 12) (by decide) with
    ⟨full, run⟩ | ⟨used, used_eq, room, run⟩
  · exact ⟨none, by simp only [newProperty?, load, ok_bind, link, run]; rfl, full⟩
  · have limit := holds.limit_le_size
    have below := holds.record_le found
    have four : (4 : UInt32).toNat = 4 := by decide
    have eight : (8 : UInt32).toNat = 8 := by decide
    have twelve : (12 : UInt32).toNat = 12 := by decide
    have sixteen : Record.size ⟨.property first key value, false⟩ = 16 := rfl
    rw [twelve] at used_eq
    have place : (a.used + 4).toNat = a.used.toNat + 4 := by
      rw [toNat_add_of_lt (by omega), four]
    have place' : (a.used + 8).toNat = a.used.toNat + 8 := by
      rw [toNat_add_of_lt (by omega), eight]
    -- the record is complete before the object refers to it
    have holds₁ : Holds { a with
        used := used
        bytes := putValue (put32 (put32 a.bytes a.used.toNat (first ||| 1)) (a.used.toNat + 4) key)
          (a.used.toNat + 8) value } (h ++ [⟨.property first key value, false⟩]) scratch := by
      refine holds.append (by omega) (by omega) (by omega) (by simp) (fun k outside => ?_)
        ⟨fits, ?_, ?_, ?_⟩
      · rw [get!_putValue_of_outside _ _ _ _ (by omega), get!_put32_of_outside _ _ _ _ (by omega),
          get!_put32_of_outside _ _ _ _ (by omega)]
      · refine Eq.trans (word32_congr fun k hk =>
          get!_putValue_of_outside _ _ _ _ (by omega)) ?_
        rw [word32_put32_of_disjoint _ _ _ _ (by omega), word32_put32_self _ _ _ (by omega)]
        rfl
      · refine Eq.trans (word32_congr fun k hk =>
          get!_putValue_of_outside _ _ _ _ (by omega)) ?_
        exact word32_put32_self _ _ _ (by rw [size_put32]; omega)
      · exact word64_putValue_self _ _ _ (by simp only [size_put32]; omega)
    have extent := Heap.at?_le_extent found
    have positive := Record.eight_le_size ⟨.object first parent, false⟩
    have found₁ : Heap.at? (h ++ [⟨.property first key value, false⟩]) object.toNat
        = some ⟨.object first parent, false⟩ := by
      rw [Heap.at?_append, if_pos (by omega), found]
    obtain ⟨a₂, store, holds₂, block, -⟩ := holds₁.store32_header
      (n := ⟨.object a.used parent, false⟩) (l := a.used) found₁
      ⟨holds.used_mod_four, by omega⟩ rfl
    rw [Heap.update_append_left found] at holds₂
    refine ⟨some (a.used, a₂), ?_, rfl, holds₂, ?_, block.limit_eq, block.top_eq⟩
    rotate_left
    · rw [block.size_eq]
      simp
    simp only [newProperty?, load, ok_bind, link, run, store32_eq, store64_eq, size_put32, place,
      place']
    rw [if_pos (by omega), ok_bind, if_pos (by simp only [size_put32]; omega), ok_bind]
    change store32 _ object a.used = _ at store
    rw [← store32_eq, store]
    rfl

/-! ## Strings -/

/-- Closing a string whose header and text are in place. -/
theorem append_string (small : a.limit.toNat ≤ 2 ^ 29) {text b : ByteArray} {used : UInt32}
    (short : text.size < 2 ^ 31) (used_eq : used.toNat = a.used.toNat + (Entity.string text).size)
    (room : used.toNat ≤ a.limit.toNat) (size : b.size = a.bytes.size)
    (outside : ∀ k, k < a.used.toNat ∨ a.used.toNat + (Entity.string text).size ≤ k →
      b.get! k = a.bytes.get! k)
    (header : word32 b a.used.toNat = stringHeader (UInt32.ofNat text.size))
    (body : b.extract (a.used.toNat + 4) (a.used.toNat + 4 + text.size) = text) :
    ∃ a', writeByte { a with used := used, bytes := b }
        (a.used + 4 + UInt32.ofNat text.size).toNat 0 = .ok a'
      ∧ a'.Holds (h ++ [⟨.string text, false⟩]) scratch ∧ a.SameBlock a' := by
  have limit := holds.limit_le_size
  have whole : (Entity.string text).size = 4 + (text.size + 4) / 4 * 4 := rfl
  have four : (4 : UInt32).toNat = 4 := by decide
  have length : (UInt32.ofNat text.size).toNat = text.size :=
    UInt32.toNat_ofNat_of_lt' (by simp only [UInt32.size]; omega)
  have start : (a.used + 4).toNat = a.used.toNat + 4 := by rw [toNat_add_of_lt (by omega), four]
  have place : (a.used + 4 + UInt32.ofNat text.size).toNat = a.used.toNat + 4 + text.size := by
    rw [toNat_add_of_lt (by omega), start, length]
  have byte : ∀ k, k ≠ a.used.toNat + 4 + text.size →
      (b.set! (a.used.toNat + 4 + text.size) 0).get! k = b.get! k := by
    intro k away
    rw [get!_set!, if_neg (by omega)]
  refine ⟨{ a with used := used, bytes := b.set! (a.used.toNat + 4 + text.size) 0 }, ?_, ?_,
    ⟨by simp [size], rfl, rfl⟩⟩
  · rw [writeByte, place, if_pos (by simp only [size]; omega)]
  · refine holds.append (r := ⟨.string text, false⟩) (by simp only [Record.size]; omega)
      (by simp only [Record.size]; omega) (by omega) (by simp [size]) (fun k away => ?_)
      ⟨?_, ?_, ?_⟩
    · simp only [Record.size] at away
      rw [byte k (by omega), outside k away]
    · simp only [Entity.Fits]
      omega
    · refine Eq.trans (word32_congr fun k hk => byte _ (by omega)) ?_
      exact header
    · refine Eq.trans (extract_congr ?_ ?_ fun k hk => byte _ (by omega)) body
      · simp only [ByteArray.size_set!, size]
        omega
      · omega

omit holds in
/-- The size of a string by the number of bytes asked for. -/
theorem size_string (short : text.size < 2 ^ 31) :
    (UInt32.ofNat text.size + 1).toNat = text.size + 1
      ∧ (Entity.string text).size = ((UInt32.ofNat text.size + 1).toNat + 7) / 4 * 4 := by
  have one : (1 : UInt32).toNat = 1 := by decide
  have length : (UInt32.ofNat text.size).toNat = text.size :=
    UInt32.toNat_ofNat_of_lt' (by simp only [UInt32.size]; omega)
  have count : (UInt32.ofNat text.size + 1).toNat = text.size + 1 := by
    rw [toNat_add_of_lt (by omega), length, one]
  refine ⟨count, ?_⟩
  rw [count]
  simp only [Entity.size]
  omega

/-- A new string whose bytes are in place already. -/
theorem newStringInPlace?_eq (small : a.limit.toNat ≤ 2 ^ 29) (short : text.size < 2 ^ 31)
    (body : a.bytes.extract (a.used.toNat + 4) (a.used.toNat + 4 + text.size) = text) :
    ∃ r, a.newStringInPlace? (UInt32.ofNat text.size) = .ok r
      ∧ a.Grows (h ++ [⟨.string text, false⟩]) scratch (Entity.string text).size r := by
  obtain ⟨count, whole⟩ := size_string short
  rw [whole]
  rcases holds.newEntity?_eq (stringHeader (UInt32.ofNat text.size))
    (n := UInt32.ofNat text.size + 1) (by omega) with ⟨full, run⟩ | ⟨used, used_eq, room, run⟩
  · exact ⟨none, by rw [newStringInPlace?, run]; rfl, full⟩
  · have limit := holds.limit_le_size
    obtain ⟨a', write, holds', block⟩ := holds.append_string small short
      (by rw [whole]; exact used_eq) room
      (size_put32 a.bytes a.used.toNat (stringHeader (UInt32.ofNat text.size)))
      (fun k away => get!_put32_of_outside _ _ _ _ (by simp only [Entity.size] at away; omega))
      (word32_put32_self _ _ _ (by omega))
      (by
        refine Eq.trans (extract_congr ?_ ?_ fun k hk =>
          get!_put32_of_outside _ _ _ _ (by omega)) body
        · rw [size_put32]
          omega
        · omega)
    refine ⟨some (a.used, a'), ?_, rfl, holds', block⟩
    rw [newStringInPlace?, run, ok_bind]
    simp only [write]
    rfl

/-- Bytes written above the entities change nothing that is held. -/
theorem write_above {start : Nat}
    (low : a.used.toNat ≤ start) (high : start + text.size ≤ a.limit.toNat) :
    ∃ a', a.write start text = .ok a' ∧ a'.Holds h scratch ∧ a.SameBlock a' ∧ a'.used = a.used
      ∧ a'.bytes.extract start (start + text.size) = text := by
  have limit := holds.limit_le_size
  have bytes := fun j => get!_copySlice text a.bytes 0 start text.size j (by omega) (by omega)
  have length := size_copySlice text a.bytes 0 start text.size (by omega) (by omega)
  refine ⟨{ a with bytes := text.copySlice 0 a.bytes start text.size }, ?_, ?_,
    ⟨length, rfl, rfl⟩, rfl, ?_⟩
  · rw [Arena.write, if_pos (by omega)]
  · refine ⟨?_, holds.extent_eq, holds.used_le, ?_, holds.room, holds.top_aligned, ?_,
      holds.used_small⟩
    · intro o r found
      have inside := holds.record_le found
      have whole := holds.record_le_size found
      refine (holds.records o r found).congr whole (by simp only [length]; omega) fun k hk => ?_
      simp only [bytes]
      rw [if_neg (by omega)]
    · intro i v there
      rw [← holds.words i v there]
      refine word64_congr fun k hk => ?_
      simp only [bytes]
      rw [if_neg (by omega)]
    · simp only [length]
      exact holds.top_le
  · exact extract_copySlice text a.bytes start (by omega)

/-- A new string. -/
theorem newString?_eq (small : a.limit.toNat ≤ 2 ^ 29) (short : text.size < 2 ^ 31) :
    ∃ r, a.newString? text = .ok r
      ∧ a.Grows (h ++ [⟨.string text, false⟩]) scratch (Entity.string text).size r := by
  have four : (4 : UInt32).toNat = 4 := by decide
  obtain ⟨count, whole⟩ := size_string short
  rw [whole]
  rcases holds.newEntity?_eq (stringHeader (UInt32.ofNat text.size))
    (n := UInt32.ofNat text.size + 1) (by omega) with ⟨full, run⟩ | ⟨used, used_eq, room, run⟩
  · exact ⟨none, by rw [newString?, run]; rfl, full⟩
  · have limit := holds.limit_le_size
    have start : (a.used + 4).toNat = a.used.toNat + 4 := by
      rw [toNat_add_of_lt (by omega), four]
    have put := size_put32 a.bytes a.used.toNat (stringHeader (UInt32.ofNat text.size))
    have bytes := fun j => get!_copySlice text
      (put32 a.bytes a.used.toNat (stringHeader (UInt32.ofNat text.size))) 0 (a.used.toNat + 4)
      text.size j (by omega) (by omega)
    have copied := size_copySlice text
      (put32 a.bytes a.used.toNat (stringHeader (UInt32.ofNat text.size))) 0 (a.used.toNat + 4)
      text.size (by omega) (by omega)
    obtain ⟨a', write, holds', block⟩ := holds.append_string small short
      (by rw [whole]; exact used_eq) room (copied.trans put)
      (fun k away => by
        simp only [Entity.size] at away
        rw [bytes, if_neg (by omega), get!_put32_of_outside _ _ _ _ (by omega)])
      (by
        refine Eq.trans (word32_congr fun k hk => ?_)
          (word32_put32_self a.bytes a.used.toNat _ (by omega))
        rw [bytes, if_neg (by omega)])
      (extract_copySlice text _ _ (by omega))
    refine ⟨some (a.used, a'), ?_, rfl, holds', block⟩
    rw [newString?]
    simp only [run, ok_bind, Arena.write, start, put]
    rw [if_pos (by omega), ok_bind, write]
    rfl

/-! ## The scratch stack -/

/-- Placing a value on the scratch stack. -/
theorem push?_eq (v : Value) :
    a.push? v = .ok none ∨ ∃ a', a.push? v = .ok (some a') ∧ a'.Holds h (v :: scratch)
      ∧ a'.top = a.top := by
  have eight : (8 : UInt32).toNat = 8 := by decide
  have limit := holds.limit_le_size
  by_cases room : a.used.toNat + 8 ≤ a.limit.toNat
  · obtain ⟨l, limit_eq⟩ : ∃ l, a.limit.toNat = l + 8 := ⟨a.limit.toNat - 8, by omega⟩
    have down : (a.limit - 8).toNat = l := by
      rw [UInt32.toNat_sub_of_le _ _ (by rw [UInt32.le_iff_toNat_le]; omega), limit_eq, eight,
        Nat.add_sub_cancel]
    refine .inr ⟨{ a with limit := a.limit - 8, bytes := putValue a.bytes l v }, ?_, ?_, rfl⟩
    · rw [push?, hasRoom, if_pos (decide_eq_true room), push, store64_eq, down,
        if_pos (by simp only; omega)]
      rfl
    · have size := size_putValue a.bytes l v
      refine ⟨?_, holds.extent_eq, by simp only [down]; omega, ?_, ?_, holds.top_aligned, ?_,
        holds.used_small⟩
      · intro o r found
        have below := holds.record_le found
        have whole := holds.record_le_size found
        refine (holds.records o r found).congr whole (by simp only [size]; omega) fun k hk => ?_
        exact get!_putValue_of_outside _ _ _ _ (by omega)
      · intro i w there
        simp only [down]
        cases i with
        | zero =>
          rw [List.getElem?_cons_zero, Option.some.injEq] at there
          rw [← there]
          exact word64_putValue_self _ _ _ (by omega)
        | succ i =>
          rw [List.getElem?_cons_succ] at there
          have next : l + 8 * (i + 1) = a.limit.toNat + 8 * i := by omega
          rw [word64_putValue_of_disjoint _ _ _ _ (by omega), next, holds.words i w there]
      · have := holds.room
        simp only [down, List.length_cons]
        omega
      · simp only [size]
        exact holds.top_le
  · exact .inl (if_neg fun fits => room (of_decide_eq_true fits))

/-- Dropping values from the scratch stack. -/
theorem pop_eq {n : UInt32} (enough : n.toNat ≤ scratch.length) :
    (a.pop n).Holds h (scratch.drop n.toNat) := by
  have room := holds.room
  have top := holds.top_le
  have word := a.top.toNat_lt
  have used := holds.used_le
  have eight : (8 : UInt32).toNat = 8 := by decide
  have product : (8 * n).toNat = 8 * n.toNat := by
    rw [UInt32.toNat_mul, eight, Nat.mod_eq_of_lt (by omega)]
  have limit : (a.limit + 8 * n).toNat = a.limit.toNat + 8 * n.toNat := by
    rw [toNat_add_of_lt (by omega), product]
  refine ⟨holds.records, holds.extent_eq, ?_, ?_, ?_, holds.top_aligned, top, holds.used_small⟩
  · simp only [pop, limit]
    omega
  · intro i v there
    rw [List.getElem?_drop] at there
    have place : a.limit.toNat + 8 * n.toNat + 8 * i = a.limit.toNat + 8 * (n.toNat + i) := by omega
    simp only [pop, limit]
    rw [place, holds.words _ v there]
  · simp only [pop, limit, List.length_drop]
    omega

/-- Exchanging two scratch words. -/
theorem swap_eq {o p : UInt32} {i j : Nat} {v w : Value}
    (first : scratch[i]? = some v) (second : scratch[j]? = some w)
    (place : o.toNat = a.limit.toNat + 8 * i) (place' : p.toNat = a.limit.toNat + 8 * j) :
    ∃ a', a.swap o p = .ok a' ∧ a'.Holds h ((scratch.set i w).set j v) ∧ a.SameBlock a' := by
  have room := holds.room
  have top := holds.top_le
  have inside := (List.getElem?_eq_some_iff.mp first).1
  have inside' := (List.getElem?_eq_some_iff.mp second).1
  obtain ⟨a₁, store₁, holds₁, block₁⟩ := holds.store_scratch inside place w
  obtain ⟨a₂, store₂, holds₂, block₂⟩ := holds₁.store_scratch (o := p) (i := j)
    (by rw [List.length_set]; exact inside') (by rw [block₁.limit_eq]; exact place') v
  refine ⟨a₂, ?_, holds₂, block₁.trans block₂⟩
  rw [swap, load64_eq, if_pos (by omega), ok_bind, load64_eq, if_pos (by omega), ok_bind, place,
    holds.words i v first, place', holds.words j w second]
  simp only [store₁, ok_bind, store₂]

/-- Exchanging scratch words from outside inwards. -/
theorem reverseRounds_eq {rounds : Nat} {i j : UInt32} {l : Nat}
    (sum : i.toNat + j.toNat = l) (inside : l < scratch.length)
    (order : i.toNat + 2 * rounds ≤ j.toNat + 1) :
    ∃ a' words, reverseRounds rounds i j a = .ok a' ∧ a'.Holds h words ∧ a.SameBlock a'
      ∧ words.length = scratch.length
      ∧ ∀ p, words[p]? = if (i.toNat ≤ p ∧ p < i.toNat + rounds)
            ∨ (j.toNat < p + rounds ∧ p ≤ j.toNat)
          then scratch[l - p]? else scratch[p]? := by
  induction rounds generalizing i j a scratch with
  | zero =>
    refine ⟨a, scratch, rfl, holds, .refl a, rfl, fun p => ?_⟩
    rw [if_neg (by omega)]
  | succ rounds ih =>
    have room := holds.room
    have top := holds.top_le
    have word := a.top.toNat_lt
    have eight : (8 : UInt32).toNat = 8 := by decide
    have one : (1 : UInt32).toNat = 1 := by decide
    have product : ∀ k : UInt32, k.toNat < scratch.length → (a.limit + 8 * k).toNat
        = a.limit.toNat + 8 * k.toNat := by
      intro k bound
      have times : (8 * k).toNat = 8 * k.toNat := by
        rw [UInt32.toNat_mul, eight, Nat.mod_eq_of_lt (by omega)]
      rw [toNat_add_of_lt (by omega), times]
    have up : (i + 1).toNat = i.toNat + 1 := by rw [toNat_add_of_lt (by omega), one]
    have down : (j - 1).toNat = j.toNat - 1 :=
      UInt32.toNat_sub_of_le _ _ (by rw [UInt32.le_iff_toNat_le]; omega)
    have first := List.getElem?_eq_getElem (l := scratch) (i := i.toNat) (by omega)
    have second := List.getElem?_eq_getElem (l := scratch) (i := j.toNat) (by omega)
    obtain ⟨a₁, swapped, holds₁, block₁⟩ := holds.swap_eq first second
      (product i (by omega)) (product j (by omega))
    obtain ⟨a', words, run, holds', block, length, pointwise⟩ := ih holds₁ (i := i + 1)
      (j := j - 1) (by omega) (by simp only [List.length_set]; exact inside) (by omega)
    refine ⟨a', words, ?_, holds', block₁.trans block, by simpa using length, fun p => ?_⟩
    · rw [reverseRounds, swapped, ok_bind, run]
    · -- this round exchanges the outermost two words, the others exchange the rest
      have exchanged : ∀ q, ((scratch.set i.toNat scratch[j.toNat]).set j.toNat scratch[i.toNat])[q]?
          = if q = i.toNat then scratch[j.toNat]? else if q = j.toNat then scratch[i.toNat]?
            else scratch[q]? := by
        intro q
        rw [List.getElem?_set, List.getElem?_set, List.length_set, first, second]
        by_cases left : q = i.toNat
        · rw [if_neg (by omega), if_pos left.symm, if_pos (by omega), if_pos left]
        · rw [if_neg left]
          by_cases right : q = j.toNat
          · rw [if_pos right.symm, if_pos (by omega), if_pos right]
          · rw [if_neg (Ne.symm right), if_neg (Ne.symm left), if_neg right]
      rw [pointwise, up, down, exchanged, exchanged]
      by_cases left : p = i.toNat
      · have mirror : l - p = j.toNat := by omega
        rw [if_neg (by omega), if_pos left, if_pos (by omega), mirror]
      · by_cases right : p = j.toNat
        · have mirror : l - p = i.toNat := by omega
          rw [if_neg (by omega), if_neg left, if_pos right, if_pos (by omega), mirror]
        · rw [if_neg (show ¬ p = i.toNat from left), if_neg (show ¬ p = j.toNat from right)]
          by_cases inner : (i.toNat + 1 ≤ p ∧ p < i.toNat + 1 + rounds)
              ∨ (j.toNat - 1 < p + rounds ∧ p ≤ j.toNat - 1)
          · rw [if_pos inner, if_neg (by omega), if_neg (by omega), if_pos (by omega)]
          · rw [if_neg inner, if_neg (by omega)]

/-- Turning the topmost scratch words around. -/
theorem reverse_eq {n : UInt32} (enough : n.toNat ≤ scratch.length) :
    ∃ a', a.reverse n = .ok a' ∧ a.SameBlock a'
      ∧ a'.Holds h ((scratch.take n.toNat).reverse ++ scratch.drop n.toNat) := by
  have one : (1 : UInt32).toNat = 1 := by decide
  by_cases none : n.toNat = 0
  · refine ⟨a, ?_, .refl a, by simpa [none] using holds⟩
    rw [Arena.reverse, none]
    rfl
  · have down : (n - 1).toNat = n.toNat - 1 :=
      UInt32.toNat_sub_of_le _ _ (by rw [UInt32.le_iff_toNat_le]; omega)
    obtain ⟨a', words, run, holds', block, length, pointwise⟩ := @reverseRounds_eq a h scratch
      holds (n.toNat / 2) 0 (n - 1) (n.toNat - 1) (by rw [down, UInt32.toNat_zero]; omega)
      (by omega) (by rw [down, UInt32.toNat_zero]; omega)
    refine ⟨a', run, block, ?_⟩
    have same : words = (scratch.take n.toNat).reverse ++ scratch.drop n.toNat := by
      apply List.ext_getElem?
      intro p
      rw [pointwise, down, UInt32.toNat_zero, List.getElem?_append]
      simp only [List.length_reverse, List.length_take, Nat.min_eq_left enough]
      by_cases inside : p < n.toNat
      · rw [if_pos inside, List.getElem?_reverse (by simp; omega), List.length_take,
          Nat.min_eq_left enough, List.getElem?_take_of_lt (by omega)]
        by_cases middle : p = n.toNat - 1 - p
        · split
          · rfl
          · rw [← middle]
        · rw [if_pos (by omega)]
      · rw [if_neg inside, if_neg (by omega), List.getElem?_drop]
        congr 1
        omega
    rwa [← same]

end Holds

end ArenaScript.Arena
