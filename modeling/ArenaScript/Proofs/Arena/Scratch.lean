import ArenaScript.Proofs.Arena.Layout
import ArenaScript.Proofs.Engine.Entities
import ArenaScript.Proofs.Engine.Failures
import ArenaScript.Proofs.Source.Reading

/-!
# Writes below the scratch stack

Entities grow up to the limit, and the words of the scratch stack stand above
it.  Whatever is written for an entity or for a literal is written below: in the
room that was asked for, or inside an entity that stands there already.

Main definitions:

- `Arena.KeepsScratch`: all bytes from the limit on are as they were.
- `Engine.Writes`: the actions that write entities and literals.

Main results:

- `Engine.Sound.keepsScratch`: these actions write below the limit.
-/

namespace ArenaScript

/-- What follows a step that has an answer has one, too. -/
theorem exists_of_bind_eq_ok {α β : Type} {x : Except Halt α} {f : α → Except Halt β} {b : β}
    (eq : x >>= f = .ok b) : ∃ a, x = .ok a ∧ f a = .ok b := by
  cases x with
  | error h => cases eq
  | ok a => exact ⟨a, rfl, eq⟩

namespace Arena

variable {a a' a'' : Arena} {o : UInt32}

/-- All bytes from the limit on, where the scratch words stand, are as they
were. -/
structure KeepsScratch (a a' : Arena) : Prop where
  limit_eq : a'.limit = a.limit
  top_eq : a'.top = a.top
  same : ∀ k, a.limit.toNat ≤ k → a'.bytes.get! k = a.bytes.get! k

namespace KeepsScratch

theorem refl (a : Arena) : KeepsScratch a a := ⟨rfl, rfl, fun _ _ => rfl⟩

theorem trans (first : a.KeepsScratch a') (second : a'.KeepsScratch a'') : a.KeepsScratch a'' where
  limit_eq := second.limit_eq.trans first.limit_eq
  top_eq := second.top_eq.trans first.top_eq
  same := fun k above =>
    (second.same k (by rw [first.limit_eq]; exact above)).trans (first.same k above)

/-! ## Stores -/

theorem of_store32 {word : UInt32} (below : o.toNat + 4 ≤ a.limit.toNat)
    (run : a.store32 o word = .ok a') : a.KeepsScratch a' := by
  rw [store32_eq] at run
  split at run
  · cases run
    exact ⟨rfl, rfl, fun k above => get!_put32_of_outside _ _ _ _ (by omega)⟩
  · cases run

theorem of_store64 {v : Value} (below : o.toNat + 8 ≤ a.limit.toNat)
    (run : a.store64 o v = .ok a') : a.KeepsScratch a' := by
  rw [store64_eq] at run
  split at run
  · obtain rfl := Except.ok.inj run
    exact ⟨rfl, rfl, fun k above => get!_putValue_of_outside _ _ _ _ (by omega)⟩
  · cases run

theorem of_write {start : Nat} {text : ByteArray} (below : start + text.size ≤ a.limit.toNat)
    (run : a.write start text = .ok a') : a.KeepsScratch a' := by
  rw [write] at run
  split at run
  · rename_i inside
    cases run
    refine ⟨rfl, rfl, fun k above => ?_⟩
    show (text.copySlice 0 a.bytes start text.size).get! k = _
    rw [get!_copySlice _ _ _ _ _ _ (by omega) inside, if_neg (by omega)]
  · cases run

theorem of_writeByte {i : Nat} {byte : UInt8} (below : i < a.limit.toNat)
    (run : a.writeByte i byte = .ok a') : a.KeepsScratch a' := by
  rw [writeByte] at run
  split at run
  · cases run
    refine ⟨rfl, rfl, fun k above => ?_⟩
    show (a.bytes.set! i byte).get! k = _
    rw [get!_set!, if_neg (by omega)]
  · cases run

/-! ## New entities -/

/-- The room for a new entity lies below the limit. -/
theorem of_newEntity? {header n : UInt32} (small : n.toNat + 7 < 2 ^ 32)
    (run : a.newEntity? header n = .ok (some (o, a'))) :
    a.KeepsScratch a' ∧ o = a.used ∧ a.used.toNat + (n.toNat + 7) / 4 * 4 ≤ a.limit.toNat := by
  have four : (4 : UInt32).toNat = 4 := by decide
  have sum : (4 + n).toNat = 4 + n.toNat := by rw [toNat_add_of_lt (by omega), four]
  have round : (roundUp (4 + n)).toNat = (n.toNat + 7) / 4 * 4 := by
    rw [toNat_roundUp (by omega), sum]
    omega
  rw [newEntity?, alloc?] at run
  simp only [round] at run
  by_cases room : a.used.toNat + (n.toNat + 7) / 4 * 4 ≤ a.limit.toNat
  · rw [if_pos room] at run
    obtain ⟨a₁, store, same⟩ := exists_of_bind_eq_ok run
    cases same
    have kept := of_store32 (a := { a with used := a.used + roundUp (4 + n) })
      (by show a.used.toNat + 4 ≤ a.limit.toNat; omega) store
    exact ⟨⟨kept.limit_eq, kept.top_eq, kept.same⟩, rfl, room⟩
  · rw [if_neg room] at run
    cases run

theorem of_newObject? {parent : UInt32} (run : a.newObject? parent = .ok (some (o, a'))) :
    a.KeepsScratch a' := by
  obtain ⟨r, entity, run⟩ := exists_of_bind_eq_ok run
  cases r with
  | none => cases run
  | some r =>
    obtain ⟨o₁, a₁⟩ := r
    obtain ⟨kept, rfl, room⟩ := of_newEntity? (by decide) entity
    obtain ⟨a₂, store, same⟩ := exists_of_bind_eq_ok run
    cases same
    have four : (4 : UInt32).toNat = 4 := by decide
    refine kept.trans (of_store32 ?_ store)
    have small := a.limit.toNat_lt
    rw [kept.limit_eq, toNat_add_of_lt (by omega)]
    omega

/-- The end mark of a string lies inside its room. -/
theorem of_endMark {n : UInt32} {size : Nat} (length : n.toNat = size) (small : size + 8 < 2 ^ 32)
    (room : a.used.toNat + ((n + 1).toNat + 7) / 4 * 4 ≤ a.limit.toNat) (same : a'.limit = a.limit)
    (run : a'.writeByte (a.used + 4 + n).toNat 0 = .ok a'') : a'.KeepsScratch a'' := by
  have four : (4 : UInt32).toNat = 4 := by decide
  have one : (1 : UInt32).toNat = 1 := by decide
  have next : (n + 1).toNat = size + 1 := by rw [toNat_add_of_lt (by omega), length, one]
  have bound := a.limit.toNat_lt
  have start : (a.used + 4).toNat = a.used.toNat + 4 := by rw [toNat_add_of_lt (by omega), four]
  refine of_writeByte ?_ run
  rw [same, toNat_add_of_lt (by omega), start]
  omega

theorem of_newStringInPlace? {n : UInt32} (small : n.toNat + 8 < 2 ^ 32)
    (run : a.newStringInPlace? n = .ok (some (o, a'))) : a.KeepsScratch a' := by
  have one : (1 : UInt32).toNat = 1 := by decide
  have next : (n + 1).toNat = n.toNat + 1 := by rw [toNat_add_of_lt (by omega), one]
  obtain ⟨r, entity, run⟩ := exists_of_bind_eq_ok run
  cases r with
  | none => cases run
  | some r =>
    obtain ⟨o₁, a₁⟩ := r
    obtain ⟨kept, rfl, room⟩ := of_newEntity? (by omega) entity
    obtain ⟨a₂, mark, same⟩ := exists_of_bind_eq_ok run
    cases same
    exact kept.trans (of_endMark rfl small room kept.limit_eq mark)

theorem of_newString? {text : ByteArray} (short : text.size + 8 < 2 ^ 32)
    (run : a.newString? text = .ok (some (o, a'))) : a.KeepsScratch a' := by
  have four : (4 : UInt32).toNat = 4 := by decide
  have one : (1 : UInt32).toNat = 1 := by decide
  have length : (UInt32.ofNat text.size).toNat = text.size := by
    rw [UInt32.toNat_ofNat']
    exact Nat.mod_eq_of_lt (by omega)
  have next : (UInt32.ofNat text.size + 1).toNat = text.size + 1 := by
    rw [toNat_add_of_lt (by omega), length, one]
  obtain ⟨r, entity, run⟩ := exists_of_bind_eq_ok run
  cases r with
  | none => cases run
  | some r =>
    obtain ⟨o₁, a₁⟩ := r
    obtain ⟨kept, rfl, room⟩ := of_newEntity? (by omega) entity
    obtain ⟨a₂, written, run⟩ := exists_of_bind_eq_ok run
    obtain ⟨a₃, mark, same⟩ := exists_of_bind_eq_ok run
    cases same
    have body : a₁.KeepsScratch a₂ := by
      refine of_write ?_ written
      have bound := a.limit.toNat_lt
      rw [kept.limit_eq, toNat_add_of_lt (by omega)]
      omega
    have both := kept.trans body
    exact both.trans (of_endMark length short room both.limit_eq mark)

theorem of_newProperty? {object key : UInt32} {value : Value}
    (target : object.toNat + 4 ≤ a.limit.toNat)
    (run : a.newProperty? object key value = .ok (some (o, a'))) : a.KeepsScratch a' := by
  have four : (4 : UInt32).toNat = 4 := by decide
  have eight : (8 : UInt32).toNat = 8 := by decide
  obtain ⟨header, -, run⟩ := exists_of_bind_eq_ok run
  obtain ⟨r, entity, run⟩ := exists_of_bind_eq_ok run
  cases r with
  | none => cases run
  | some r =>
    obtain ⟨o₁, a₁⟩ := r
    obtain ⟨kept, rfl, room⟩ := of_newEntity? (by decide) entity
    obtain ⟨a₂, keyed, run⟩ := exists_of_bind_eq_ok run
    obtain ⟨a₃, valued, run⟩ := exists_of_bind_eq_ok run
    obtain ⟨a₄, linked, same⟩ := exists_of_bind_eq_ok run
    cases same
    have bound := a.limit.toNat_lt
    have twelve : (12 : UInt32).toNat = 12 := by decide
    have first := kept.trans (of_store32 (by
      rw [kept.limit_eq, toNat_add_of_lt (by omega)]
      omega) keyed)
    have second := first.trans (of_store64 (by
      rw [first.limit_eq, toNat_add_of_lt (by omega)]
      omega) valued)
    exact second.trans (of_store32 (by rw [second.limit_eq]; exact target) linked)

end KeepsScratch

end Arena

/-! ## Actions -/

namespace Engine

/-- An engine after an action that writes an entity or a literal: a new object,
string or property, the value of a property, or a literal above the entities. -/
inductive Writes (e : Engine) : Engine → Prop
  | object {parent : UInt32} {v : Value} {e' : Engine} (run : newObject parent e = .ok (v, e')) :
      Writes e e'
  | string {text : ByteArray} {v : Value} {e' : Engine} (short : text.size + 8 < 2 ^ 32)
      (run : newString text e = .ok (v, e')) : Writes e e'
  | property {object key value v : Value} {e' : Engine} (target : e.arena.StartsObject object.offset)
      (run : newProperty object key value e = .ok (v, e')) : Writes e e'
  | assign {property value v : Value} {e' : Engine}
      (target : e.arena.StartsProperty property.offset)
      (run : Engine.assign property value e = .ok (v, e')) : Writes e e'
  | literal {v : Value} {e' : Engine} (run : Routine.placeString e = .ok (v, e')) : Writes e e'

variable {e e' : Engine}

/-- A new entity is placed below the limit. -/
theorem keepsScratch_adopt {kind : Kind} {v : Value}
    {new : Arena → Except Halt (Option (UInt32 × Arena))}
    (below : ∀ o a', new e.arena = .ok (some (o, a')) → e.arena.KeepsScratch a')
    (run : adopt kind new e = .ok (v, e')) : e.arena.KeepsScratch e'.arena := by
  rw [adopt] at run
  split at run
  · cases run
  · rw [arena_fail run]
    exact .refl _
  · rename_i o a' placed
    cases run
    exact below o a' placed

/-- A literal is decoded below the limit. -/
theorem keepsScratch_placeString {v : Value} (small : e.arena.limit.toNat < 2 ^ 31)
    (run : Routine.placeString e = .ok (v, e')) : e.arena.KeepsScratch e'.arena := by
  simp only [Routine.placeString, source, bind, StateT.bind, Except.bind, get, getThe,
    MonadStateOf.get, StateT.get, pure, Except.pure] at run
  by_cases valid : e.cursor.isValid e.arena.bytes
  · simp only [valid, if_true] at run
    have bound := Source.size_unescape_le ⟨(e.cursor.source e.arena.bytes).bytes,
      (e.cursor.source e.arena.bytes).start + e.cursor.tokenStart, e.cursor.tokenLength⟩
    generalize Source.unescape _ = decoded at run bound
    obtain ⟨text, ok⟩ := decoded
    have bound : text.size ≤ e.cursor.tokenLength := bound
    by_cases full : e.arena.limit.toNat < e.arena.used.toNat + 4 + e.cursor.tokenLength
    · simp only [full, if_true] at run
      rw [arena_fail run]
      exact .refl _
    · simp only [full, if_false, changeArena, bind, StateT.bind, Except.bind] at run
      cases written : e.arena.write (e.arena.used.toNat + 4) text with
      | error h => simp only [written, reduceCtorEq] at run
      | ok a =>
        have below := Arena.KeepsScratch.of_write (by omega) written
        simp only [written] at run
        cases ok with
        | false =>
          simp only [Bool.false_eq_true, if_false] at run
          rw [arena_fail run]
          exact below
        | true =>
          simp only [if_true] at run
          have length : (UInt32.ofNat text.size).toNat = text.size := by
            rw [UInt32.toNat_ofNat']
            exact Nat.mod_eq_of_lt (by omega)
          rw [place_closeString] at run
          refine below.trans (keepsScratch_adopt (fun o a' new => ?_) run)
          exact .of_newStringInPlace? (by omega) new
  · simp only [valid, Bool.false_eq_true, if_false, reduceCtorEq] at run

/-- Entities and literals are written below the limit. -/
theorem Sound.keepsScratch {h : Heap} {scratch : List Value}
    (sound : e.Sound h scratch) (small : e.arena.limit.toNat ≤ 2 ^ 29) (writes : e.Writes e') :
    e.arena.KeepsScratch e'.arena := by
  have used := sound.holds.used_le
  have inside : ∀ {o : UInt32} {en : Entity}, h.entity? o.toNat = some en →
      o.toNat + en.size ≤ e.arena.limit.toNat := fun found =>
    (sound.holds.record_le (sound.heap.at?_eq found)).trans used
  cases writes with
  | object run => exact keepsScratch_adopt (fun _ _ => .of_newObject?) (newObject_eq _ ▸ run)
  | string short run =>
    exact keepsScratch_adopt (fun _ _ => .of_newString? short) (newString_eq _ ▸ run)
  | property target run =>
    obtain ⟨first, parent, found⟩ := (sound.holds.startsObject_iff sound.heap).mp target
    have below := inside found
    have least := (Entity.object first parent).eight_le_size
    exact keepsScratch_adopt (fun _ _ => .of_newProperty? (by omega)) (newProperty_eq .. ▸ run)
  | @assign property value v e' target run =>
    obtain ⟨next, key, old, found⟩ := (sound.holds.startsProperty_iff sound.heap).mp target
    have below := inside found
    have size : (Entity.property next key old).size = 16 := rfl
    have eight : (8 : UInt32).toNat = 8 := by decide
    have returns (e : Engine) : (pure property : Action Value) e = .ok (property, e) := rfl
    simp only [Engine.assign, changeArena, bind, StateT.bind, Except.bind, returns] at run
    cases stored : e.arena.assign property.offset value with
    | error h => simp only [stored, reduceCtorEq] at run
    | ok a =>
      simp only [stored, Except.ok.injEq, Prod.mk.injEq] at run
      obtain ⟨-, rfl⟩ := run
      exact .of_store64 (by rw [toNat_add_of_lt (by omega)]; omega) stored
  | literal run => exact keepsScratch_placeString (by omega) run

end Engine

end ArenaScript
