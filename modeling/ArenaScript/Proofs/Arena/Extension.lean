import ArenaScript.Proofs.Arena.Scratch

/-!
# Arenas that grow

New entities stand above those that are there.  As long as no byte below the old
end of the entities changes, everything about the old entities is read as before.

Main definitions:

- `Arena.KeepsBelow`: all bytes below an offset are as they were.
- `Arena.Packed`: no record reaches beyond the end of the entities.
- `Arena.Extends`: entities may have been added, and all else is as it was.

Main results:

- `Arena.Extends.of_newString?`: a new string extends an arena.
- `Arena.Extends.properties_eq`, `Arena.Extends.property_eq`,
  `Arena.Extends.string_eq`: what is read afterwards.
-/

namespace ArenaScript

namespace Arena

/-! ## Bytes below an offset -/

/-- All bytes below an offset are as they were. -/
structure KeepsBelow (n : Nat) (a a' : Arena) : Prop where
  size_eq : a'.bytes.size = a.bytes.size
  same : ∀ k, k < n → a'.bytes.get! k = a.bytes.get! k

namespace KeepsBelow

variable {n : Nat} {a a' a'' : Arena} {o : UInt32}

theorem refl (n : Nat) (a : Arena) : a.KeepsBelow n a := ⟨rfl, fun _ _ => rfl⟩

theorem trans (first : a.KeepsBelow n a') (second : a'.KeepsBelow n a'') : a.KeepsBelow n a'' :=
  ⟨second.size_eq.trans first.size_eq, fun k below => (second.same k below).trans
    (first.same k below)⟩

theorem of_store32 {word : UInt32} (above : n ≤ o.toNat) (run : a.store32 o word = .ok a') :
    a.KeepsBelow n a' := by
  rw [store32_eq] at run
  split at run
  · obtain rfl := Except.ok.inj run
    exact ⟨size_put32 _ _ _, fun k below => get!_put32_of_outside _ _ _ _ (by omega)⟩
  · cases run

theorem of_write {start : Nat} {text : ByteArray} (above : n ≤ start)
    (run : a.write start text = .ok a') :
    a.KeepsBelow n a' ∧ a'.used = a.used ∧ start + text.size ≤ a.bytes.size := by
  rw [write] at run
  split at run
  · rename_i inside
    obtain rfl := Except.ok.inj run
    refine ⟨⟨size_copySlice _ _ _ _ _ (by omega) inside, fun k below => ?_⟩, rfl, inside⟩
    show (text.copySlice 0 a.bytes start text.size).get! k = _
    rw [get!_copySlice _ _ _ _ _ _ (by omega) inside, if_neg (by omega)]
  · cases run

theorem of_writeByte {i : Nat} {byte : UInt8} (above : n ≤ i)
    (run : a.writeByte i byte = .ok a') : a.KeepsBelow n a' ∧ a'.used = a.used := by
  rw [writeByte] at run
  split at run
  · obtain rfl := Except.ok.inj run
    refine ⟨⟨ByteArray.size_set! .., fun k below => ?_⟩, rfl⟩
    show (a.bytes.set! i byte).get! k = _
    rw [get!_set!, if_neg (by omega)]
  · cases run

/-- A new entity leaves all others alone. -/
theorem of_newEntity? {header n : UInt32} (run : a.newEntity? header n = .ok (some (o, a'))) :
    a.KeepsBelow a.used.toNat a' ∧ o = a.used ∧ a'.used = a.used + roundUp (4 + n)
      ∧ a.used.toNat + (roundUp (4 + n)).toNat ≤ a.limit.toNat := by
  rw [newEntity?, alloc?] at run
  by_cases room : a.used.toNat + (roundUp (4 + n)).toNat ≤ a.limit.toNat
  · simp only [room, if_true] at run
    obtain ⟨a₁, store, same⟩ := exists_of_bind_eq_ok run
    cases same
    have kept := of_store32 (Nat.le_refl a.used.toNat) store
    rw [store32_eq] at store
    split at store
    · obtain rfl := Except.ok.inj store
      exact ⟨⟨kept.size_eq, kept.same⟩, rfl, rfl, room⟩
    · cases store
  · simp only [room, if_false] at run
    cases run

/-- A word below the offset is read as before. -/
theorem load32_eq (kept : a.KeepsBelow n a') (below : o.toNat + 4 ≤ n) :
    a'.load32 o = a.load32 o := by
  rw [Arena.load32_eq, Arena.load32_eq, kept.size_eq,
    word32_congr fun k inside => kept.same (o.toNat + k) (by omega)]

@[inherit_doc load32_eq]
theorem load64_eq (kept : a.KeepsBelow n a') (below : o.toNat + 8 ≤ n) :
    a'.load64 o = a.load64 o := by
  rw [Arena.load64_eq, Arena.load64_eq, kept.size_eq,
    word64_congr fun k inside => kept.same (o.toNat + k) (by omega)]

end KeepsBelow

/-! ## Records inside the entities -/

/-- No record reaches beyond the end of the entities, and the block is one whose
offsets are 32-bit words. -/
structure Packed (a : Arena) : Prop where
  ends_le : ∀ o header, a.Walk o → o < a.used → a.load32 o = .ok header →
    o.toNat + (entitySize header).toNat ≤ a.used.toNat
  size_le : a.bytes.size ≤ 2 ^ 32

theorem Holds.packed {a : Arena} {h : Heap} {scratch : List Value} (holds : a.Holds h scratch)
    (good : h.WellFormed) (block : a.bytes.size ≤ 2 ^ 32) : a.Packed where
  ends_le := by
    intro o header walk inside load
    obtain ⟨r, found⟩ := (holds.at?_of_walk good walk).resolve_left
      fun eq => UInt32.lt_irrefl _ (eq ▸ inside)
    rw [holds.load_header good found] at load
    obtain rfl := Except.ok.inj load
    rw [Entity.toNat_entitySize (holds.fits found)]
    exact holds.record_le found
  size_le := block

theorem toNat_headerLength_lt (header : UInt32) : (headerLength header).toNat < 2 ^ 30 := by
  have bound := header.toNat_lt
  rw [headerLength, UInt32.toNat_shiftRight]
  show header.toNat >>> 2 < _
  rw [Nat.shiftRight_eq_div_pow]
  omega

/-- The span of a string. -/
theorem toNat_entitySize_of_string {header : UInt32} (kind : headerKind header = 2) :
    (entitySize header).toNat = 4 + ((headerLength header).toNat + 3) / 4 * 4 := by
  have four : (4 : UInt32).toNat = 4 := by decide
  have bound := toNat_headerLength_lt header
  rw [entitySize, if_neg (by rw [kind]; decide), if_neg (by rw [kind]; decide), if_pos kind,
    toNat_add_of_lt (by rw [toNat_roundUp (by omega)]; omega), four, toNat_roundUp (by omega)]

namespace Packed

variable {a : Arena} {o : UInt32}

/-- The span of an object lies below the end of the entities. -/
theorem object_le (packed : a.Packed) (starts : a.StartsObject o) : o.toNat + 8 ≤ a.used.toNat := by
  obtain ⟨walk, inside, header, load, kind⟩ := starts
  have ends := packed.ends_le o header walk inside load
  rw [entitySize, if_pos kind] at ends
  exact ends

/-- The span of a property lies below the end of the entities. -/
theorem property_le (packed : a.Packed) (starts : a.StartsProperty o) :
    o.toNat + 16 ≤ a.used.toNat := by
  obtain ⟨walk, inside, header, load, kind⟩ := starts
  have ends := packed.ends_le o header walk inside load
  rw [entitySize, if_neg (by rw [kind]; decide), if_pos kind] at ends
  exact ends

/-- The header of an entity lies below the end of the entities. -/
theorem header_le (packed : a.Packed) (laid : a.LaidOut) {kind : UInt32} (starts : a.Starts kind o) :
    o.toNat + 4 ≤ a.used.toNat := by
  obtain ⟨walk, inside, header, load, -⟩ := starts
  have ends := packed.ends_le o header walk inside load
  have least : 4 ≤ (entitySize header).toNat := by
    obtain ⟨header', load', -, kinds⟩ := laid.headers o walk inside
    obtain rfl : header = header' := Except.ok.inj (load.symm.trans load')
    rcases kinds with kind | kind | kind
    · rw [entitySize, if_pos kind]
      decide
    · rw [entitySize, if_neg (by rw [kind]; decide), if_pos kind]
      decide
    · rw [toNat_entitySize_of_string kind]
      omega
  omega

end Packed

/-! ## Added entities -/

/-- Entities may have been added at the end; all bytes below and the scratch
stack are as they were. -/
structure Extends (a a' : Arena) : Prop where
  used_le : a.used ≤ a'.used
  below : a.KeepsBelow a.used.toNat a'
  scratch : a.KeepsScratch a'

namespace Extends

variable {a a' a'' : Arena} {o : UInt32}

theorem refl (a : Arena) : a.Extends a := ⟨UInt32.le_refl _, .refl _ _, .refl _⟩

theorem trans (first : a.Extends a') (second : a'.Extends a'') : a.Extends a'' where
  used_le := UInt32.le_trans first.used_le second.used_le
  below := first.below.trans ⟨second.below.size_eq, fun k below =>
    second.below.same k (Nat.lt_of_lt_of_le below (UInt32.le_iff_toNat_le.mp first.used_le))⟩
  scratch := first.scratch.trans second.scratch

theorem of_noteLow (a : Arena) : a.Extends a.noteLow := by
  rw [noteLow]
  split
  · exact ⟨UInt32.le_refl _, ⟨rfl, fun _ _ => rfl⟩, ⟨rfl, rfl, fun _ _ => rfl⟩⟩
  · exact .refl a

/-- A new string stands above the entities and below the scratch stack. -/
theorem of_newString? {text : ByteArray} (laid : a.LaidOut) (packed : a.Packed)
    (run : a.newString? text = .ok (some (o, a'))) : a.Extends a' := by
  have string := run
  obtain ⟨r, entity, run⟩ := exists_of_bind_eq_ok run
  cases r with
  | none => cases run
  | some r =>
    obtain ⟨o₁, a₁⟩ := r
    obtain ⟨made, rfl, used, room⟩ := KeepsBelow.of_newEntity? entity
    obtain ⟨a₂, written, run⟩ := exists_of_bind_eq_ok run
    obtain ⟨a₃, mark, same⟩ := exists_of_bind_eq_ok run
    cases same
    have four : (4 : UInt32).toNat = 4 := by decide
    have one : (1 : UInt32).toNat = 1 := by decide
    have limit := a.limit.toNat_lt
    have aligned := laid.limit_aligned
    have order := UInt32.le_iff_toNat_le.mp laid.order.1
    have start : (a.used + 4).toNat = a.used.toNat + 4 := by rw [toNat_add_of_lt (by omega), four]
    obtain ⟨body, used₂, inside⟩ := KeepsBelow.of_write (n := a.used.toNat) (by omega) written
    -- the text fits into the block, above the global scope
    have short : text.size + 8 < 2 ^ 32 := by
      have origin := packed.object_le laid.origin
      have block := packed.size_le
      rw [made.size_eq, start] at inside
      omega
    have length : (UInt32.ofNat text.size).toNat = text.size := by
      rw [UInt32.toNat_ofNat']
      exact Nat.mod_eq_of_lt (by omega)
    have next : (4 + (UInt32.ofNat text.size + 1)).toNat = text.size + 5 := by
      have sum : (UInt32.ofNat text.size + 1).toNat = text.size + 1 := by
        rw [toNat_add_of_lt (by omega), length, one]
      rw [toNat_add_of_lt (by omega), sum, four]
      omega
    rw [toNat_roundUp (by omega), next] at room
    have last : (a.used + 4 + UInt32.ofNat text.size).toNat = a.used.toNat + 4 + text.size := by
      rw [toNat_add_of_lt (by omega), start, length]
    obtain ⟨ended, used₃⟩ := KeepsBelow.of_writeByte (n := a.used.toNat) (by omega) mark
    refine ⟨?_, (made.trans body).trans ended, .of_newString? short string⟩
    rw [used₃, used₂, used, UInt32.le_iff_toNat_le, toNat_add_of_lt]
    · omega
    · rw [toNat_roundUp (by omega), next]
      omega

/-- A text may be written above the entities. -/
theorem exists_write {start : Nat} {text : ByteArray} (above : a.used.toNat ≤ start)
    (below : start + text.size ≤ a.limit.toNat) (block : a.limit.toNat ≤ a.bytes.size) :
    ∃ a', a.write start text = .ok a' ∧ a.Extends a' ∧ a'.used = a.used
      ∧ a'.bytes.extract start (start + text.size) = text := by
  have run : a.write start text
      = .ok { a with bytes := text.copySlice 0 a.bytes start text.size } := by
    rw [write, if_pos (by omega)]
  obtain ⟨kept, used, inside⟩ := KeepsBelow.of_write above run
  exact ⟨_, run, ⟨UInt32.le_refl _, kept, .of_write below run⟩, used,
    extract_copySlice text a.bytes start inside⟩

/-- A string whose bytes are in place finds no room, or it stands above the
entities with these bytes. -/
theorem newStringInPlace?_cases {n : UInt32} (short : n.toNat + 1 < 2 ^ 29)
    (block : a.limit.toNat ≤ a.bytes.size) :
    a.newStringInPlace? n = .ok none
      ∨ ∃ a', a.newStringInPlace? n = .ok (some (a.used, a')) ∧ a.Extends a'
        ∧ a'.stringBytes a.used
          = .ok (a.bytes.extract (a.used.toNat + 4) (a.used.toNat + 4 + n.toNat)) := by
  have four : (4 : UInt32).toNat = 4 := by decide
  have one : (1 : UInt32).toNat = 1 := by decide
  have bound := a.limit.toNat_lt
  have next : (4 + (n + 1)).toNat = n.toNat + 5 := by
    have sum : (n + 1).toNat = n.toNat + 1 := by rw [toNat_add_of_lt (by omega), one]
    rw [toNat_add_of_lt (by omega), sum, four]
    omega
  have size : (roundUp (4 + (n + 1))).toNat = (n.toNat + 8) / 4 * 4 := by
    rw [toNat_roundUp (by omega), next]
  by_cases room : a.used.toNat + (n.toNat + 8) / 4 * 4 ≤ a.limit.toNat
  · have start : (a.used + 4).toNat = a.used.toNat + 4 := by rw [toNat_add_of_lt (by omega), four]
    have last : (a.used + 4 + n).toNat = a.used.toNat + 4 + n.toNat := by
      rw [toNat_add_of_lt (by omega), start]
    have used : (a.used + roundUp (4 + (n + 1))).toNat = a.used.toNat + (n.toNat + 8) / 4 * 4 := by
      rw [toNat_add_of_lt (by omega), size]
    have bytes : ∀ k, k ≠ a.used.toNat + 4 + n.toNat → k < a.used.toNat ∨ a.used.toNat + 4 ≤ k →
        ((put32 a.bytes a.used.toNat (stringHeader n)).set! (a.used.toNat + 4 + n.toNat) 0).get! k
          = a.bytes.get! k := by
      intro k away outside
      rw [get!_set!, if_neg (by omega), get!_put32_of_outside _ _ _ _ outside]
    refine .inr ⟨{ a with
      used := a.used + roundUp (4 + (n + 1))
      bytes := (put32 a.bytes a.used.toNat (stringHeader n)).set! (a.used.toNat + 4 + n.toNat) 0 },
      ?_, ⟨?_, ⟨?_, ?_⟩, rfl, rfl, ?_⟩, ?_⟩
    · simp only [newStringInPlace?, newEntity?, alloc?, size, room, if_true, store32_eq, writeByte]
      rw [if_pos (by omega), ok_bind]
      simp only [pure_bind, size_put32, last]
      rw [if_pos (by omega)]
      rfl
    · exact UInt32.le_iff_toNat_le.mpr (by simp only [used]; omega)
    · simp
    · exact fun k below => bytes k (by omega) (.inl below)
    · exact fun k above => bytes k (by omega) (.inr (by omega))
    · have header : word32 ((put32 a.bytes a.used.toNat (stringHeader n)).set!
          (a.used.toNat + 4 + n.toNat) 0) a.used.toNat = stringHeader n := by
        refine Eq.trans (word32_congr fun k inside => ?_)
          (word32_put32_self a.bytes a.used.toNat (stringHeader n) (by omega))
        rw [get!_set!, if_neg (by omega)]
      have length : headerLength (stringHeader n) - 1 = n := by
        have whole : headerLength (stringHeader n) = n + 1 := by
          apply UInt32.toNat_inj.mp
          rw [toNat_headerLength, toNat_stringHeader (by omega), toNat_add_of_lt (by omega), one]
          omega
        rw [whole]
        exact UInt32.add_sub_cancel n 1
      simp only [stringBytes, stringLength, Arena.load32_eq, ByteArray.size_set!, size_put32]
      rw [if_pos (by omega), header]
      simp only [ok_bind, pure_bind, length, start, last, slice, ByteArray.size_set!, size_put32]
      rw [if_pos (by omega), if_pos (by omega), Nat.add_sub_cancel_left]
      refine congrArg Except.ok (extract_congr ?_ ?_ fun k inside => bytes _ (by omega) (by omega))
      · simp only [ByteArray.size_set!, size_put32]
        omega
      · omega
  · refine .inl ?_
    simp only [newStringInPlace?, newEntity?, alloc?, size, room, if_false]
    rfl

/-! ## What is read after an extension -/

variable (grown : a.Extends a') (laid : a.LaidOut) (packed : a.Packed)

include grown packed

/-- The header and the parent of an object. -/
theorem object_eq (starts : a.StartsObject o) :
    a'.load32 o = a.load32 o ∧ a'.parent o = a.parent o := by
  have ends := packed.object_le starts
  have small := a.used.toNat_lt
  have four : (4 : UInt32).toNat = 4 := by decide
  exact ⟨grown.below.load32_eq (by omega),
    grown.below.load32_eq (by rw [toNat_add_of_lt (by omega)]; omega)⟩

/-- The header, the key and the value of a property. -/
theorem property_eq (starts : a.StartsProperty o) :
    a'.load32 o = a.load32 o ∧ a'.propertyKey o = a.propertyKey o
      ∧ a'.propertyValue o = a.propertyValue o := by
  have ends := packed.property_le starts
  have small := a.used.toNat_lt
  have four : (4 : UInt32).toNat = 4 := by decide
  have eight : (8 : UInt32).toNat = 8 := by decide
  exact ⟨grown.below.load32_eq (by omega),
    grown.below.load32_eq (by rw [toNat_add_of_lt (by omega)]; omega),
    grown.below.load64_eq (by rw [toNat_add_of_lt (by omega)]; omega)⟩

/-- The bytes of a string. -/
theorem string_eq (starts : a.StartsString o) : a'.stringBytes o = a.stringBytes o := by
  obtain ⟨walk, inside, header, load, kind⟩ := starts
  have ends := packed.ends_le o header walk inside load
  have small := a.used.toNat_lt
  have four : (4 : UInt32).toNat = 4 := by decide
  rw [toNat_entitySize_of_string kind] at ends
  have start : (o + 4).toNat = o.toNat + 4 := by rw [toNat_add_of_lt (by omega), four]
  have same : a'.load32 o = .ok header := by rw [grown.below.load32_eq (by omega), load]
  rw [stringBytes, stringBytes, stringLength, stringLength, same, load]
  simp only [ok_bind, pure_bind]
  split
  next ordered =>
    have last : (o + 4 + (headerLength header - 1)).toNat - (o + 4).toNat + 1
        ≤ (headerLength header).toNat := by
      have one : (1 : UInt32).toNat = 1 := by decide
      by_cases empty : headerLength header = 0
      · -- a length that wraps around leads below the start
        rw [empty, ← UInt32.le_iff_toNat_le] at ordered
        have wraps : o + 4 + (0 - 1) = o + 3 := by grind
        rw [wraps, UInt32.le_iff_toNat_le, start, toNat_add_of_lt (by
          show o.toNat + 3 < _
          omega)] at ordered
        have three : (3 : UInt32).toNat = 3 := by decide
        omega
      · have positive : 0 < (headerLength header).toNat :=
          Nat.pos_of_ne_zero fun zero => empty (UInt32.toNat_inj.mp zero)
        have before : (headerLength header - 1).toNat = (headerLength header).toNat - 1 := by
          rw [UInt32.toNat_sub_of_le _ _ (UInt32.le_iff_toNat_le.mpr (by rw [one]; omega)), one]
        rw [toNat_add_of_lt (by omega), start, before]
        omega
    rw [slice, slice, grown.below.size_eq]
    split
    next within =>
      rw [extract_congr (by rw [grown.below.size_eq]; exact within) within
        fun j below => grown.below.same _ (by omega)]
    · rfl
  · rfl

include laid

/-- What follows a property in its list. -/
theorem propertiesFrom_eq (bound : Nat) (member : o = 0 ∨ a.StartsProperty o) :
    a'.propertiesFrom bound o = a.propertiesFrom bound o := by
  induction bound generalizing o with
  | zero => rfl
  | succ bound ih =>
    by_cases last : o = 0
    · simp only [propertiesFrom, last, true_or, if_true]
    · have starts := member.resolve_left last
      have below : ¬ a.used ≤ o := UInt32.not_le.mpr starts.2.1
      have below' : ¬ a'.used ≤ o := fun le => below (UInt32.le_trans grown.used_le le)
      obtain ⟨next, key, value, link, -, -, tail, -⟩ := laid.properties o starts
      have link' : a'.nextProperty o = .ok next := by
        rw [← link, nextProperty, nextProperty, (grown.property_eq packed starts).1]
      simp only [propertiesFrom, last, below, below', or_self, if_false, link, link']
      rw [ok_bind, ok_bind, ih (tail.imp_right And.left)]

/-- The property list of an object. -/
theorem properties_eq (starts : a.StartsObject o) : a'.properties o = a.properties o := by
  obtain ⟨first, parent, link, -, head, -⟩ := laid.objects o starts
  have link' : a'.firstProperty o = .ok first := by
    rw [← link, firstProperty, firstProperty, (grown.object_eq packed starts).1]
  rw [properties, properties, link, link', ok_bind, ok_bind, chainBound, grown.below.size_eq]
  exact grown.propertiesFrom_eq laid packed _ head

/-- The links of an entity. -/
theorem links_eq {kind header : UInt32} (starts : a.Starts kind o) (load : a.load32 o = .ok header) :
    a'.load32 o = .ok header ∧ a'.links o header = a.links o header := by
  have same : a'.load32 o = .ok header := by
    rw [← load]
    exact grown.below.load32_eq (packed.header_le laid starts)
  refine ⟨same, ?_⟩
  rw [links, links]
  by_cases object : headerKind header = 0
  · rw [if_pos object, if_pos object,
      (grown.object_eq packed ⟨starts.1, starts.2.1, header, load, object⟩).2]
  · rw [if_neg object, if_neg object]
    by_cases property : headerKind header = 1
    · have record : a.StartsProperty o := ⟨starts.1, starts.2.1, header, load, property⟩
      obtain ⟨-, key, value⟩ := grown.property_eq packed record
      rw [if_pos property, if_pos property, key, value]
    · rw [if_neg property, if_neg property]

omit packed in
/-- The values of the scratch stack. -/
theorem scratch_eq : a'.scratch = a.scratch := by
  have words : ∀ (count : Nat) (o : UInt32), a.limit.toNat ≤ o.toNat →
      o.toNat + 8 * count < 2 ^ 32 + 8 → a'.scratchFrom count o = a.scratchFrom count o := by
    intro count
    induction count with
    | zero => intro o _ _; rfl
    | succ count ih =>
      intro o above small
      have word : a'.load64 o = a.load64 o := by
        rw [Arena.load64_eq, Arena.load64_eq, grown.below.size_eq,
          word64_congr fun k _ => grown.scratch.same (o.toNat + k) (by omega)]
      have rest : a'.scratchFrom count (o + 8) = a.scratchFrom count (o + 8) := by
        cases count with
        | zero => rfl
        | succ count =>
          have eight : (8 : UInt32).toNat = 8 := by decide
          have next : (o + 8).toNat = o.toNat + 8 := by rw [toNat_add_of_lt (by omega), eight]
          exact ih (o + 8) (by omega) (by omega)
      rw [scratchFrom, scratchFrom, word, rest]
  have order := UInt32.le_iff_toNat_le.mp laid.order.2
  have top := a.top.toNat_lt
  have same : a'.scratchCount = a.scratchCount := by
    rw [scratchCount, scratchCount, grown.scratch.limit_eq, grown.scratch.top_eq]
  rw [Arena.scratch, Arena.scratch, same, grown.scratch.limit_eq]
  exact words _ _ (Nat.le_refl _) (by rw [scratchCount]; omega)

end Extends

/-! ## Links -/

/-- The entity that a value refers to starts where the value says. -/
theorem Types.starts {a : Arena} {v : Value} {o : UInt32} (typed : a.Types v)
    (mem : o ∈ valueLinks v) : ∃ kind, a.Starts kind o := by
  simp only [valueLinks] at mem
  split at mem
  next entity =>
    rw [List.mem_singleton.mp mem]
    simp only [Value.isEntity] at entity
    simp only [Types] at typed
    cases kind : v.kind <;> simp only [kind, Kind.isEntity, Bool.false_eq_true] at entity typed
    · exact ⟨0, typed⟩
    · exact ⟨1, typed⟩
    · exact ⟨2, typed⟩
    · exact ⟨2, typed⟩
  next => simp at mem

/-- The property that a header refers to. -/
theorem starts_of_linkOf {a : Arena} {header o : UInt32}
    (link : headerLink header = 0 ∨ a.StartsProperty (headerLink header)) (mem : o ∈ linkOf header) :
    a.StartsProperty o := by
  simp only [linkOf] at mem
  split at mem
  · simp at mem
  next nonzero =>
    rw [List.mem_singleton.mp mem]
    exact link.resolve_left nonzero

end Arena

end ArenaScript
