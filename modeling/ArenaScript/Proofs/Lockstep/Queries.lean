import ArenaScript.Dump
import ArenaScript.Host.Requests
import ArenaScript.Proofs.Lockstep.Operators
import ArenaScript.Proofs.Lockstep.Rendering

/-!
# Requests that only read

Engines that agree answer the questions of a host: properties are found, strings
and arguments are read, and the list of all entities is made from one entity to
the next until the last.

Main results:

- `Arena.Holds.dumpFrom_eq`: the walk along all entities.
- `Alike.getProperty`, `Alike.listProperties`, `Alike.stringBytes?`,
  `Alike.argument`, `Alike.dump`: the answers.
-/

namespace ArenaScript

namespace Arena.Holds

variable {a : Arena} {h : Heap} {scratch : List Value}

/-- An entity is described by what its record holds. -/
theorem describe?_eq (holds : a.Holds h scratch) {o : UInt32} {en : Entity}
    (found : h.at? o.toNat = some ⟨en, false⟩) :
    ∃ text, a.describe? o en.header = .ok (some text) := by
  have fits := holds.fits found
  cases en with
  | object first parent =>
    rw [describe?, if_pos (Entity.headerKind_object fits), holds.parent_eq found]
    exact ⟨_, rfl⟩
  | property next key value =>
    have kind := Entity.headerKind_property fits
    rw [describe?, if_neg (by rw [kind]; decide), if_pos kind, holds.propertyValue_eq found, ok_bind,
      holds.propertyKey_eq found]
    exact ⟨_, rfl⟩
  | string text =>
    have kind := Entity.headerKind_string fits
    rw [describe?, if_neg (by rw [kind]; decide), if_neg (by rw [kind]; decide), if_pos kind,
      holds.stringBytes_eq found]
    exact ⟨_, rfl⟩

/-- The walk along the entities from an offset on.  The induction is on the
records that are left. -/
theorem dumpFrom_eq {front back : Heap} {o : UInt32} {bound : Nat}
    (holds : a.Holds (front ++ back) scratch) (clear : ∀ r ∈ back, r.marked = false)
    (place : o.toNat = front.extent) (enough : back.length < bound) (out : ByteArray) :
    ∃ text, a.dumpFrom bound o out = .ok text := by
  induction back generalizing front o bound out with
  | nil =>
    obtain ⟨bound, rfl⟩ : ∃ n, bound = n + 1 := ⟨bound - 1, by simp at enough; omega⟩
    have stop : a.used ≤ o := by
      rw [UInt32.le_iff_toNat_le, ← holds.extent_eq, place, List.append_nil]
    exact ⟨out, by rw [dumpFrom, if_pos stop]⟩
  | cons r rest ih =>
    obtain ⟨bound, rfl⟩ : ∃ n, bound = n + 1 := ⟨bound - 1, by simp at enough; omega⟩
    obtain ⟨en, marked⟩ := r
    obtain rfl : marked = false := clear _ List.mem_cons_self
    have found : Heap.at? (front ++ ⟨en, false⟩ :: rest) o.toNat = some ⟨en, false⟩ := by
      rw [place]
      exact Heap.at?_middle _ _ _
    obtain ⟨text, described⟩ := holds.describe?_eq found
    have next : (o + entitySize en.header).toNat = Heap.extent (front ++ [⟨en, false⟩]) := by
      have size : (entitySize en.header).toNat = Record.size ⟨en, false⟩ :=
        Entity.toNat_entitySize (holds.fits found)
      have inside := holds.record_le found
      have small := a.used.toNat_lt
      rw [toNat_add_of_lt (by omega), size, place]
      simp [Heap.extent]
    have header : a.load32 o = .ok en.header := holds.load32_header found
    simp only [dumpFrom, if_neg (holds.not_used_le found), header, ok_bind, described]
    exact ih (by simpa using holds) (fun r mem => clear r (List.mem_cons_of_mem _ mem)) next
      (by simp at enough; omega) _

/-- A word of the scratch stack can be read. -/
theorem load64_scratch (holds : a.Holds h scratch) {k : Nat} {v : Value}
    (found : scratch[k]? = some v) : a.load64 (a.limit + UInt32.ofNat (8 * k)) = .ok v := by
  have there : k < scratch.length := (List.getElem?_eq_some_iff.mp found).1
  have room := holds.room
  have top := holds.top_le
  have bound := a.top.toNat_lt
  have word : (UInt32.ofNat (8 * k)).toNat = 8 * k := UInt32.toNat_ofNat_of_lt' (by
    show 8 * k < 2 ^ 32
    omega)
  rw [load64_eq, toNat_add_of_lt (by omega), word, if_pos (by omega), holds.words k v found]

end Arena.Holds

namespace Lockstep

open Engine

variable {ι : Type} [Rules ι] {w : World ι} {s : Standing ι} {c : Current} {e : ι → Engine}

/-- The arguments of a host program lie on top of the scratch stack. -/
def Standing.Offers (s : Standing ι) (offset : UInt32) (count : Nat) : Prop :=
  count = 0 ∨ (∀ i, s.limit i = offset) ∧ count ≤ s.scratch.length

namespace Alike

variable (alike : Alike w s c e)
include alike

theorem argument {offset : UInt32} {count : Nat}
    (offers : s.Offers offset count) (index : Int) (i : ι) :
    ∃ v, Engine.argument offset count index (e i) = .ok (v, e i) := by
  by_cases outside : index < 0 ∨ count ≤ index.toNat
  · simp only [Engine.argument, outside, if_true]
    exact ⟨_, rfl⟩
  · simp only [Engine.argument, outside, if_false]
    rcases offers with rfl | ⟨limit, enough⟩
    · exact absurd (.inr (Nat.zero_le _)) outside
    have there : index.toNat < (w.scratch i).length := by
      rw [alike.scratch.length_eq i]
      omega
    have load := (alike.fits.holds i).load64_scratch (List.getElem?_eq_getElem there)
    rw [alike.limit i, limit i] at load
    exact ⟨(w.scratch i)[index.toNat], by simp only [readArena, load]⟩

variable {v : ι → Value}

theorem getProperty [Nonempty ι] {tag : Tag} (related : w.Related tag v) (key : ByteArray) (i : ι) :
    ∃ x, Engine.getProperty (v i) key (e i) = .ok (x, e i) := by
  by_cases kind : tag.kind = .object
  · obtain ⟨ages, rfl⟩ := related.eq_object kind
    obtain ⟨r, run, link⟩ := alike.findProperty key (World.Refers.offset related)
    simp only [Engine.getProperty, related.kind i, kind, ne_eq, not_true_eq_false, if_false,
      Action.runs, run i]
    rcases alike.fits.matched.link_cases link with none | ⟨⟨names, rel⟩, some⟩
    · simp only [none i, if_true]
      exact ⟨_, rfl⟩
    · obtain ⟨_, x, values, -⟩ := alike.fits.propertyValue rel
      simp only [some i, if_false, readArena, values i]
      exact ⟨x i, rfl⟩
  · simp only [Engine.getProperty, related.kind i, kind, ne_eq, not_false_eq_true, if_true]
    exact ⟨_, rfl⟩

theorem listProperties [Nonempty ι] {tag : Tag} (related : w.Related tag v) (i : ι) :
    ∃ list, Engine.listProperties (v i) (e i) = .ok (list, e i) := by
  by_cases kind : tag.kind = .object
  · obtain ⟨ages, rfl⟩ := related.eq_object kind
    obtain ⟨list, run, all⟩ := alike.fits.properties (World.Refers.offset related)
    let item (property : UInt32) : Except Halt (ByteArray × Value) := do
      return (← (e i).arena.stringBytes (← (e i).arena.propertyKey property),
        ← (e i).arena.propertyValue property)
    have items : ∀ p ∈ list.map fun p (_ : Unit) => p i, ∃ x, ∀ u, item (p u) = .ok x := by
      intro p mem
      obtain ⟨p, here, rfl⟩ := List.mem_map.mp mem
      obtain ⟨names, rel⟩ := all p here
      obtain ⟨_, name, key, keys, string, -⟩ := alike.fits.propertyKey rel
      obtain ⟨_, x, values, -⟩ := alike.fits.propertyValue rel
      refine ⟨(name, x i), fun _ => ?_⟩
      simp only [item, keys i, ok_bind, alike.fits.stringBytes string i, values i]
      rfl
    obtain ⟨answer, eq⟩ := mapM_eq_ok items
    have eq : (list.map fun p => p i).mapM item = .ok answer := by
      simpa only [List.map_map, Function.comp_def] using eq ()
    have read : readArena (fun a => do
        (← a.properties (v i).offset).mapM fun property => do
          return (← a.stringBytes (← a.propertyKey property), ← a.propertyValue property)) (e i)
        = .ok (answer, e i) := by
      simp only [readArena, run i, ok_bind]
      rw [show _ = Except.ok answer from eq]
    simp only [Engine.listProperties, related.kind i, kind, ne_eq, not_true_eq_false, if_false]
    exact ⟨answer, read⟩
  · simp only [Engine.listProperties, related.kind i, kind, ne_eq, not_false_eq_true, if_true]
    exact ⟨_, rfl⟩

theorem stringBytes? {tag : Tag} (related : w.Related tag v) (i : ι) :
    ∃ text, Engine.stringBytes? (v i) (e i) = .ok (text, e i) := by
  by_cases kind : tag.kind = .string
  · obtain ⟨age, text, rfl⟩ := related.eq_string kind
    simp only [Engine.stringBytes?, related.kind i, kind, if_true, Action.runs,
      alike.stringBytes (World.Refers.offset related) i]
    exact ⟨_, rfl⟩
  · simp only [Engine.stringBytes?, related.kind i, kind, if_false]
    exact ⟨_, rfl⟩

theorem dump (i : ι) : ∃ text, Engine.dump (e i) = .ok (text, e i) := by
  have holds : (e i).arena.Holds ([] ++ w.heap i) (w.scratch i) := alike.fits.holds i
  have walk : ∀ out, ∃ text, (e i).arena.dumpFrom (e i).arena.chainBound 0 out = .ok text :=
    holds.dumpFrom_eq (alike.fits.good i).clear rfl holds.length_lt_chainBound
  simp only [Engine.dump, Action.runs, readArena]
  obtain ⟨text, eq⟩ := walk _
  rw [eq]
  exact ⟨text, rfl⟩

end Alike

end Lockstep

end ArenaScript
