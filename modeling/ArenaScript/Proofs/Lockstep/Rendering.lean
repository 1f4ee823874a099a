import Mathlib.Data.Finset.Card
import ArenaScript.Render
import ArenaScript.Proofs.Lockstep.Values

/-!
# Texts of related values

Related values are shown by the same text, whatever their offsets are: an object
inside itself is inside itself on all engines, and property lists are related in
order.  No path of objects is longer than a block, so every value has a text.

Main results:

- `World.Fits.renderWithin`: values inside related objects.
- `Alike.render`: all engines show a value by the same text.
-/

namespace ArenaScript

namespace Arena

/-- The text of a property inside the objects of a path. -/
def renderItem (a : Arena) (depth : Nat) (path : List UInt32) (property : UInt32) :
    Except Halt ByteArray := do
  let key ← a.stringBytes (← a.propertyKey property)
  let value ← a.renderWithin depth path (← a.propertyValue property)
  return quote key ++ Bytes.ofString ":" ++ value

/-- The text of an object that is not inside itself. -/
theorem renderWithin_object {a : Arena} {depth : Nat} {path : List UInt32} {v : Value}
    (kind : v.kind = .object) (outside : path.contains v.offset = false) :
    a.renderWithin (depth + 1) path v = do
      let items ← (← a.properties v.offset).mapM (a.renderItem depth (v.offset :: path))
      return Bytes.ofString "\x7b" ++ Bytes.joinWith (Bytes.ofString ",") items
        ++ Bytes.ofString "\x7d" := by
  rw [renderWithin, kind]
  simp only [outside]
  rfl

end Arena

namespace Lockstep

variable {ι : Type} [Rules ι]

/-- Distinct numbers below a bound are no more than the bound. -/
theorem length_le_of_nodup {l : List UInt32} (distinct : l.Nodup) {n : Nat}
    (below : ∀ o ∈ l, o.toNat < n) : l.length ≤ n := by
  have distinct' : (l.map UInt32.toNat).Nodup := distinct.map fun _ _ => UInt32.toNat_inj.mp
  rw [← List.length_map UInt32.toNat, ← List.toFinset_card_of_nodup distinct', ← Finset.card_range n]
  refine Finset.card_le_card fun k mem => ?_
  obtain ⟨o, here, rfl⟩ := List.mem_map.mp (List.mem_toFinset.mp mem)
  exact Finset.mem_range.mpr (below o here)

omit [Rules ι] in
/-- Steps that give the same for all indices do so along a list. -/
theorem mapM_eq_ok {α β : Type} {f : ι → α → Except Halt β} {list : List (ι → α)}
    (step : ∀ p ∈ list, ∃ b, ∀ i, f i (p i) = .ok b) :
    ∃ bs, ∀ i, (list.map fun p => p i).mapM (f i) = .ok bs := by
  induction list with
  | nil => exact ⟨[], fun _ => rfl⟩
  | cons p list ih =>
    obtain ⟨b, head⟩ := step p (List.mem_cons_self ..)
    obtain ⟨bs, tail⟩ := ih fun p' mem => step p' (List.mem_cons_of_mem p mem)
    refine ⟨b :: bs, fun i => ?_⟩
    rw [List.map_cons, List.mapM_cons, head i, ok_bind, tail i]
    rfl

namespace World.Fits

variable {w : World ι} {arena : ι → Arena}

/-- A path of related objects is on no engine longer than the block. -/
theorem length_path_le [Nonempty ι] (fits : w.Fits arena) {path : List (ι → UInt32)}
    (objects : ∀ p ∈ path, ∃ ages, w.rel (.object ages) p) (distinct : path.Nodup) :
    path.length ≤ w.size + 1 := by
  have i := Classical.arbitrary ι
  have apart : (path.map fun p => p i).Nodup := by
    refine List.Nodup.map_on (fun p mem p' mem' same => ?_) distinct
    obtain ⟨ages, rel⟩ := objects p mem
    obtain ⟨ages', rel'⟩ := objects p' mem'
    exact (fits.matched.unique i rel rel' same).2
  rw [← List.length_map fun p : ι → UInt32 => p i]
  refine length_le_of_nodup apart fun o mem => ?_
  obtain ⟨p, here, rfl⟩ := List.mem_map.mp mem
  obtain ⟨ages, rel⟩ := objects p here
  exact fits.lt_bound rel i

/-- Related objects are on a path together. -/
theorem contains_path (fits : w.Fits arena) {path : List (ι → UInt32)}
    (objects : ∀ p ∈ path, ∃ ages, w.rel (.object ages) p) {ages : List Nat} {a : ι → UInt32}
    (rel : w.rel (.object ages) a) (i : ι) :
    (path.map fun p => p i).contains (a i) = true ↔ a ∈ path := by
  rw [List.contains_iff_mem]
  constructor
  · intro mem
    obtain ⟨p, here, same⟩ := List.mem_map.mp mem
    obtain ⟨ages', rel'⟩ := objects p here
    rwa [← (fits.matched.unique i rel' rel same).2]
  · intro mem
    exact List.mem_map.mpr ⟨a, mem, rfl⟩

/-- Related values inside related objects have the same text. -/
theorem renderWithin [Nonempty ι] (fits : w.Fits arena) (depth : Nat) (path : List (ι → UInt32))
    (objects : ∀ p ∈ path, ∃ ages, w.rel (.object ages) p) (distinct : path.Nodup)
    (deep : w.size + 2 ≤ depth + path.length) {tag : Tag} {v : ι → Value}
    (related : w.Related tag v) (plain : tag.IsPlain) :
    ∃ text, ∀ i, (arena i).renderWithin depth (path.map fun p => p i) (v i) = .ok text := by
  induction depth generalizing path tag v with
  | zero =>
    have short := fits.length_path_le objects distinct
    omega
  | succ depth ih =>
    cases tag with
    | object ages =>
      have rel := World.Refers.offset related
      by_cases inside : (fun i => (v i).offset) ∈ path
      · refine ⟨Bytes.ofString "[Circular]", fun i => ?_⟩
        rw [Arena.renderWithin, World.Refers.kind related i]
        simp only [(fits.contains_path objects rel i).mpr inside, if_true]
      · obtain ⟨list, run, all⟩ := fits.properties rel
        let path' := (fun i => (v i).offset) :: path
        have objects' : ∀ p ∈ path', ∃ ages, w.rel (.object ages) p := fun p mem =>
          (List.mem_cons.mp mem).elim (fun eq => ⟨ages, eq ▸ rel⟩) (objects p)
        have items : ∀ p ∈ list, ∃ text, ∀ i,
            (arena i).renderItem depth (path'.map fun a => a i) (p i) = .ok text := by
          intro p mem
          obtain ⟨names, rel'⟩ := all p mem
          obtain ⟨age, name, key, keys, string, -⟩ := fits.propertyKey rel'
          obtain ⟨tag', v', values, related', plain'⟩ := fits.propertyValue rel'
          obtain ⟨text, shown⟩ := ih path' objects' (List.nodup_cons.mpr ⟨inside, distinct⟩)
            (by simp only [path', List.length_cons]; omega) related' plain'
          refine ⟨Arena.quote name ++ Bytes.ofString ":" ++ text, fun i => ?_⟩
          rw [Arena.renderItem, keys, ok_bind, fits.stringBytes string i, ok_bind, values, ok_bind,
            shown i]
          rfl
        obtain ⟨texts, shown⟩ := mapM_eq_ok items
        refine ⟨Bytes.ofString "\x7b" ++ Bytes.joinWith (Bytes.ofString ",") texts
          ++ Bytes.ofString "\x7d", fun i => ?_⟩
        have outside : (path.map fun p => p i).contains (v i).offset = false :=
          Bool.eq_false_iff.mpr fun mem => inside ((fits.contains_path objects rel i).mp mem)
        rw [Arena.renderWithin_object (World.Refers.kind related i) outside, run i, ok_bind]
        simp only [path', List.map_cons] at shown
        rw [shown i]
        rfl
    | property names => exact absurd rfl plain.1
    | string age text =>
      refine ⟨Arena.quote text, fun i => ?_⟩
      rw [Arena.renderWithin, World.Refers.kind related i]
      simp only [fits.stringBytes (World.Refers.offset related) i]
      rfl
    | function age text =>
      refine ⟨Bytes.ofString "function" ++ text, fun i => ?_⟩
      rw [Arena.renderWithin, World.Refers.kind related.1 i]
      simp only [fits.stringBytes (World.Refers.offset related.1) i]
      rfl
    | other x =>
      obtain ⟨bare, eq⟩ := related
      refine ⟨Arena.renderPlain x, fun i => ?_⟩
      rw [eq i, Arena.renderWithin]
      rw [Value.isEntity] at bare
      cases kind : x.kind with
      | object | string | function => simp [kind, Kind.isEntity] at bare
      | _ => rfl

end World.Fits

/-- All engines show a value by the same text. -/
theorem Alike.render [Nonempty ι] {w : World ι} {s : Standing ι} {c : Current} {e : ι → Engine}
    (alike : Alike w s c e) {tag : Tag} {v : ι → Value} (related : w.Related tag v)
    (plain : tag.IsPlain) : ∃ text, ∀ i, Engine.render (v i) (e i) = .ok (text, e i) := by
  by_cases error : tag.isError = true
  · obtain ⟨x, -, eq⟩ := related.eq_of_not_entity (by
      rw [Tag.isError, beq_iff_eq] at error
      rw [error]
      rfl)
    refine ⟨c.log.message x, fun i => ?_⟩
    rw [← alike.log i, ← eq i]
    simp only [Engine.render, related.isError i, error, if_true]
    rfl
  · obtain ⟨text, shown⟩ := alike.fits.renderWithin (w.size + 2) [] (List.forall_mem_nil _)
      List.nodup_nil
      (Nat.le_refl _) related plain
    refine ⟨text, fun i => ?_⟩
    have whole : (e i).arena.render (v i) = .ok text := by
      rw [Arena.render, show (e i).arena.bytes.size = w.size from alike.fits.size i]
      exact shown i
    simp only [Engine.render, related.isError i, error, Bool.false_eq_true, if_false,
      Engine.readArena, whole]

end Lockstep

end ArenaScript
