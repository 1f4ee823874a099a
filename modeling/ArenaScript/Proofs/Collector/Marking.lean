import ArenaScript.Proofs.Arena.Contents

/-!
# Marking is a graph search

The collector sets every mark and then clears the marks of what it reaches
from a list of offsets.  The links of the entities make up a graph; the search
keeps a list of offsets still to be visited, and an entity loses its mark when
it is visited.  The invariant `Searching` splits into a part that says that only
reachable entities are cleared and a part that says that no link is forgotten.
The search ends because each visit either clears a mark or shortens the list.

Main results:

- `Arena.Stores.markAll_eq`: every mark is set.
- `Arena.Stores.unmark_eq`: the marks that are cleared are those of the reachable
  entities.
- `Remarked.bytes_eq`: bytes outside the first words of records never change.
-/

namespace ArenaScript

/-! ## The graph of entities -/

namespace Entity

/-- A link that is not 0. -/
def linkTo (l : UInt32) : List UInt32 := if l = 0 then [] else [l]

/-- The offsets an entity refers to. -/
def links : Entity → List UInt32
  | object first parent => parent :: linkTo first
  | property next key value => key :: Arena.valueLinks value ++ linkTo next
  | string _ => []

/-- An entity refers to at most three others. -/
theorem length_links_le (e : Entity) : e.links.length ≤ 3 := by
  have short : ∀ l, (linkTo l).length ≤ 1 := by
    intro l
    simp only [linkTo]
    split <;> simp
  have shortValue : ∀ v, (Arena.valueLinks v).length ≤ 1 := by
    intro v
    simp only [Arena.valueLinks]
    split <;> simp
  cases e with
  | object first parent =>
    have := short first
    simp only [links, List.length_cons]
    omega
  | property next key value =>
    have := short next
    have := shortValue value
    simp only [links, List.length_cons, List.length_append]
    omega
  | string text => simp [links]

end Entity

namespace Heap

/-- The offsets that can be reached from a list of offsets. -/
inductive Reaches (h : Heap) (roots : List UInt32) : UInt32 → Prop
  /-- The search starts at the roots. -/
  | root {o : UInt32} : o ∈ roots → Reaches h roots o
  /-- It follows the links of the entities. -/
  | link {o p : UInt32} {e : Entity} :
    Reaches h roots o → h.entity? o.toNat = some e → p ∈ e.links → Reaches h roots p

variable {h : Heap}

theorem Reaches.mono {roots roots' : List UInt32} {o : UInt32}
    (reached : h.Reaches roots o) (covered : ∀ p ∈ roots, h.Reaches roots' p) :
    h.Reaches roots' o := by
  induction reached with
  | root mem => exact covered _ mem
  | link _ found mem ih => exact ih.link found mem

/-- The entity at an offset has no mark. -/
def Clear (h : Heap) (o : UInt32) : Prop := ∃ e, h.at? o.toNat = some ⟨e, false⟩

/-- Two heaps hold the same entities, whatever their marks. -/
def SameEntities (h g : Heap) : Prop := h.map Record.entity = g.map Record.entity

theorem SameEntities.entity?_eq {h g : Heap} (same : h.SameEntities g) (o : Nat) :
    h.entity? o = g.entity? o := by
  induction h generalizing g o with
  | nil =>
    cases g with
    | nil => rfl
    | cons r rest => simp [SameEntities] at same
  | cons r rest ih =>
    cases g with
    | nil => simp [SameEntities] at same
    | cons r' rest' =>
      simp only [SameEntities, List.map_cons, List.cons.injEq] at same
      have size : r.size = r'.size := congrArg Entity.size same.1
      have tail := ih (g := rest') same.2
      simp only [entity?, at?, size] at tail ⊢
      split
      · exact congrArg some same.1
      · split
        · exact tail _
        · rfl

/-- Heaps with the same entities and no marks are the same. -/
theorem SameEntities.eq_of_clear {h g : Heap} (same : h.SameEntities g)
    (clear : ∀ r ∈ h, r.marked = false) (clear' : ∀ r ∈ g, r.marked = false) : h = g := by
  induction h generalizing g with
  | nil =>
    cases g with
    | nil => rfl
    | cons r rest => simp [SameEntities] at same
  | cons r rest ih =>
    cases g with
    | nil => simp [SameEntities] at same
    | cons r' rest' =>
      simp only [SameEntities, List.map_cons, List.cons.injEq] at same
      simp only [List.mem_cons, forall_eq_or_imp] at clear clear'
      have head : r = r' := by
        rcases r with ⟨e, m⟩
        rcases r' with ⟨e', m'⟩
        simp_all
      rw [head, ih (g := rest') same.2 clear.2 clear'.2]

/-- Replacing a record by one with the same entity. -/
theorem sameEntities_update {o : Nat} {r n : Record} (found : h.at? o = some r)
    (same : n.entity = r.entity) : (h.update o n).SameEntities h := by
  obtain ⟨front, back, rfl, rfl⟩ := exists_split_of_at? found
  simp [SameEntities, update_append, same]

/-- The number of marks. -/
def marks (h : Heap) : Nat := h.countP (·.marked)

/-- Clearing a mark leaves one less. -/
theorem marks_update {o : Nat} {e : Entity} (found : h.at? o = some ⟨e, true⟩) :
    (h.update o ⟨e, false⟩).marks + 1 = h.marks := by
  obtain ⟨front, back, rfl, rfl⟩ := exists_split_of_at? found
  simp only [marks, update_append, List.countP_append, List.countP_cons]
  simp only [Bool.false_eq_true, ↓reduceIte]
  omega

/-- Clearing the mark at an offset. -/
theorem clear_update {o p : UInt32} {e : Entity} (found : h.at? o.toNat = some ⟨e, true⟩) :
    (h.update o.toNat ⟨e, false⟩).Clear p ↔ p = o ∨ h.Clear p := by
  simp only [Clear, at?_update (n := ⟨e, false⟩) found rfl, UInt32.toNat_inj]
  by_cases here : p = o
  · simp [here]
  · simp [here]

end Heap

/-! ## Bytes outside the first words -/

/-- Two arenas differ in the first words of the records of a heap at most. -/
structure Remarked (h : Heap) (a a' : Arena) : Prop where
  /-- Only bytes change. -/
  rest : a' = { a with bytes := a'.bytes }
  /-- The block stays as long as it is. -/
  size_eq : a'.bytes.size = a.bytes.size
  /-- Bytes of bodies stay. -/
  bytes_eq : ∀ k, (∀ o e, h.entity? o = some e → k < o ∨ o + 4 ≤ k) →
    a'.bytes.get! k = a.bytes.get! k

namespace Remarked

theorem refl (h : Heap) (a : Arena) : Remarked h a a := ⟨rfl, rfl, fun _ _ => rfl⟩

theorem trans {h : Heap} {a b c : Arena} (first : Remarked h a b) (second : Remarked h b c) :
    Remarked h a c := by
  refine ⟨?_, second.size_eq.trans first.size_eq, fun k outside => ?_⟩
  · rw [second.rest, first.rest]
  · rw [second.bytes_eq k outside, first.bytes_eq k outside]

theorem sameBlock {h : Heap} {a b : Arena} (step : Remarked h a b) : a.SameBlock b := by
  refine ⟨step.size_eq, ?_, ?_⟩
  · rw [step.rest]
  · rw [step.rest]

/-- The heap matters only through its entities. -/
theorem congr {h g : Heap} {a b : Arena} (step : Remarked h a b) (same : h.SameEntities g) :
    Remarked g a b :=
  ⟨step.rest, step.size_eq, fun k outside => step.bytes_eq k fun o e found =>
    outside o e (by rw [← same.entity?_eq, found])⟩

/-- The scratch stack stays as well. -/
theorem holds {h g : Heap} {a a' : Arena} {scratch : List Value} (step : Remarked h a a')
    (holds : a.Holds h scratch) (stores : a'.Stores g) : a'.Holds g scratch := by
  refine stores.holds holds step.rest step.size_eq fun k above => step.bytes_eq k fun o e found => ?_
  rw [Heap.entity?, Option.map_eq_some_iff] at found
  obtain ⟨r, found, -⟩ := found
  have := holds.record_le found
  have := r.eight_le_size
  omega

/-- Writing the first word of a record. -/
theorem store {a : Arena} {h : Heap} {o : Nat} {r : Record} (found : h.at? o = some r)
    (w : UInt32) : Remarked h a { a with bytes := Arena.put32 a.bytes o w } := by
  refine ⟨rfl, Arena.size_put32 _ _ _, fun k outside => ?_⟩
  have away := outside o r.entity (by rw [Heap.entity?, found, Option.map_some])
  exact Arena.get!_put32_of_outside _ _ _ _ away

end Remarked

/-! ## Setting every mark -/

/-- A record with its mark set. -/
def Record.mark (r : Record) : Record := { r with marked := true }

namespace Arena

theorem size_mark (r : Record) : r.mark.size = r.size := rfl

theorem extent_map_mark (h : Heap) : Heap.extent (h.map Record.mark) = h.extent :=
  Heap.extent_map size_mark h

theorem sameEntities_map_mark (h : Heap) : Heap.SameEntities (h.map Record.mark) h := by
  simp only [Heap.SameEntities, List.map_map]
  rfl

/-- Marking from an offset on, with the records before it marked already. -/
theorem Stores.markFrom_eq {back front : Heap} {a : Arena} {o : UInt32} {bound : Nat}
    (stores : a.Stores (front.map Record.mark ++ back))
    (place : o.toNat = front.extent) (enough : back.length < bound)
    (clear : ∀ r ∈ back, r.marked = false) :
    ∃ a', markFrom bound o a = .ok a' ∧ a'.Stores ((front ++ back).map Record.mark)
      ∧ Remarked (front ++ back) a a' := by
  induction back generalizing front a o bound with
  | nil =>
    obtain ⟨bound, rfl⟩ : ∃ n, bound = n + 1 := ⟨bound - 1, by simp at enough; omega⟩
    have stop : a.used ≤ o := by
      rw [UInt32.le_iff_toNat_le, ← stores.extent_eq, place, List.append_nil,
        extent_map_mark]
    simp only [List.append_nil] at stores ⊢
    exact ⟨a, by rw [markFrom, if_pos stop], stores, .refl _ _⟩
  | cons r rest ih =>
    obtain ⟨bound, rfl⟩ : ∃ n, bound = n + 1 := ⟨bound - 1, by simp at enough; omega⟩
    have place' : o.toNat = Heap.extent (front.map Record.mark) := by
      rw [place, extent_map_mark]
    have found : Heap.at? (front.map Record.mark ++ r :: rest) o.toNat = some r := by
      rw [place']
      exact Heap.at?_middle _ _ _
    have go := stores.not_used_le found
    have unmarked : r.marked = false := clear r (List.mem_cons_self ..)
    have word : r.word = r.entity.header := by simp only [Record.word, unmarked]; rfl
    have word' : r.mark.word = r.word ||| markBit := by rw [word]; rfl
    have fits := stores.fits found
    obtain ⟨a₁, store, stores₁, rfl⟩ := stores.store32_header (n := r.mark) (l := r.entity.link)
      found fits (by simp [Record.mark])
    have updated : Heap.update (front.map Record.mark ++ r :: rest) o.toNat r.mark
        = front.map Record.mark ++ r.mark :: rest := by
      rw [place', Heap.update_append]
    rw [updated] at stores₁
    -- the walk goes on behind the record that was marked
    have next : (o + entitySize r.word).toNat = Heap.extent (front ++ [r]) := by
      have size : (entitySize r.word).toNat = r.size := by
        rw [word]
        exact Entity.toNat_entitySize fits
      have := stores.record_le found
      have := a.used.toNat_lt
      rw [toNat_add_of_lt (by omega), size, place]
      simp [Heap.extent]
    obtain ⟨a', run, stores', step⟩ := @ih (front ++ [r]) _ (o + entitySize r.word) bound
      (by simpa using stores₁) next (by simp at enough; omega)
      fun r' mem => clear r' (List.mem_cons_of_mem _ mem)
    rw [← List.append_cons] at stores' step
    refine ⟨a', ?_, stores', .trans ?_ step⟩
    · rw [markFrom, if_neg go, stores.load32_header found, ok_bind, ← word', store, ok_bind, run]
    · refine (Remarked.store found _).congr ?_
      simp [Heap.SameEntities, Record.mark]

/-- Marking sets every mark. -/
theorem Stores.markAll_eq {a : Arena} {h : Heap} (stores : a.Stores h)
    (clear : ∀ r ∈ h, r.marked = false) :
    ∃ a', a.markAll = .ok a' ∧ a'.Stores (h.map Record.mark) ∧ Remarked h a a' := by
  have enough := stores.length_lt_chainBound
  exact @Stores.markFrom_eq h [] a 0 (2 * a.chainBound) stores rfl (by omega) clear

/-! ## Following links -/

/-- The links read from the arena are those of the entity. -/
theorem Stores.links_eq {a : Arena} {h : Heap} (stores : a.Stores h) {o : UInt32} {e : Entity}
    (found : h.at? o.toNat = some ⟨e, false⟩) : a.links o e.header = .ok e.links := by
  have fits := stores.fits found
  cases e with
  | object first parent =>
    rw [links, if_pos (Entity.headerKind_object fits), stores.parent_eq found, ok_bind,
      linkOf, Entity.headerLink_object fits]
    rfl
  | property next key value =>
    have kind := Entity.headerKind_property fits
    rw [links, if_neg (by rw [kind]; decide), if_pos kind, stores.propertyKey_eq found, ok_bind,
      stores.propertyValue_eq found, ok_bind, linkOf, Entity.headerLink_property fits]
    rfl
  | string text =>
    have kind := Entity.headerKind_string fits
    rw [links, if_neg (by rw [kind]; decide), if_neg (by rw [kind]; decide)]
    rfl

end Arena

/-! ## The search -/

/-- The state of a search: the heap as it was, the offsets it started from, the
offsets still to be visited and the heap as it is now. -/
structure Searching (h : Heap) (roots work : List UInt32) (g : Heap) : Prop where
  /-- Only marks change. -/
  same : g.SameEntities h
  /-- What has lost its mark can be reached. -/
  clear_reached : ∀ o, g.Clear o → h.Reaches roots o
  /-- What is to be visited can be reached. -/
  work_reached : ∀ o ∈ work, h.Reaches roots o
  /-- Every root was visited or will be. -/
  roots_seen : ∀ o ∈ roots, g.Clear o ∨ o ∈ work
  /-- So was every link of an entity without a mark. -/
  links_seen : ∀ o e, g.Clear o → h.entity? o.toNat = some e → ∀ p ∈ e.links, g.Clear p ∨ p ∈ work

namespace Searching

variable {h g : Heap} {roots work : List UInt32} {o : UInt32}

/-- Before the first offset every mark is set. -/
theorem start (h : Heap) : Searching h [] [] (h.map Record.mark) := by
  have none : ∀ o, ¬ Heap.Clear (h.map Record.mark) o := by
    rintro o ⟨e, found⟩
    rw [Heap.at?_map Arena.size_mark, Option.map_eq_some_iff] at found
    obtain ⟨r, -, eq⟩ := found
    exact Bool.noConfusion (congrArg Record.marked eq)
  exact ⟨Arena.sameEntities_map_mark h, fun o clear => absurd clear (none o),
    by simp, by simp, fun o e clear => absurd clear (none o)⟩

/-- A search that has ended goes on from further offsets. -/
theorem resume (state : Searching h roots [] g) (offsets : List UInt32) :
    Searching h (roots ++ offsets) offsets g := by
  refine ⟨state.same, fun o clear => ?_, fun o mem => .root (List.mem_append_right _ mem), ?_, ?_⟩
  · exact (state.clear_reached o clear).mono fun p mem => .root (List.mem_append_left _ mem)
  · intro o mem
    exact (List.mem_append.mp mem).imp_left fun mem => (state.roots_seen o mem).resolve_right
      (by simp)
  · exact fun o e clear found p mem =>
      .inl ((state.links_seen o e clear found p mem).resolve_right (by simp))

/-- An entity that has lost its mark is passed over. -/
theorem skip (state : Searching h roots (o :: work) g) (clear : g.Clear o) :
    Searching h roots work g := by
  have still : ∀ p, g.Clear p ∨ p ∈ o :: work → g.Clear p ∨ p ∈ work := by
    rintro p (seen | seen)
    · exact .inl seen
    · rcases List.mem_cons.mp seen with rfl | seen
      · exact .inl clear
      · exact .inr seen
  exact ⟨state.same, state.clear_reached,
    fun p mem => state.work_reached p (List.mem_cons_of_mem _ mem),
    fun p mem => still p (state.roots_seen p mem),
    fun q e clear' found p mem => still p (state.links_seen q e clear' found p mem)⟩

/-- A marked entity loses its mark and its links are to be visited. -/
theorem visit (state : Searching h roots (o :: work) g) {e : Entity}
    (found : g.at? o.toNat = some ⟨e, true⟩) :
    Searching h roots (e.links ++ work) (g.update o.toNat ⟨e, false⟩) := by
  have reached := state.work_reached o (List.mem_cons_self ..)
  have entity : h.entity? o.toNat = some e := by
    rw [← state.same.entity?_eq, Heap.entity?, found, Option.map_some]
  have cleared := fun p => Heap.clear_update (p := p) found
  have still : ∀ p, g.Clear p ∨ p ∈ o :: work →
      (g.update o.toNat ⟨e, false⟩).Clear p ∨ p ∈ e.links ++ work := by
    rintro p (seen | seen)
    · exact .inl ((cleared p).mpr (.inr seen))
    · rcases List.mem_cons.mp seen with rfl | seen
      · exact .inl ((cleared _).mpr (.inl rfl))
      · exact .inr (List.mem_append_right _ seen)
  refine ⟨(Heap.sameEntities_update (n := ⟨e, false⟩) found rfl).trans state.same, ?_, ?_, ?_, ?_⟩
  · intro p clear
    rcases (cleared p).mp clear with rfl | clear
    · exact reached
    · exact state.clear_reached p clear
  · intro p mem
    rcases List.mem_append.mp mem with mem | mem
    · exact .link reached entity mem
    · exact state.work_reached p (List.mem_cons_of_mem _ mem)
  · exact fun p mem => still p (state.roots_seen p mem)
  · intro q e' clear entity' p mem
    rcases (cleared q).mp clear with rfl | clear
    · rw [entity] at entity'
      cases entity'
      exact .inr (List.mem_append_left _ mem)
    · exact still p (state.links_seen q e' clear entity' p mem)

/-- When nothing is left to be visited, the entities without a mark are the
reachable ones. -/
theorem clear_iff (state : Searching h roots [] g) (o : UInt32) :
    g.Clear o ↔ h.Reaches roots o := by
  refine ⟨state.clear_reached o, fun reached => ?_⟩
  induction reached with
  | root mem => exact (state.roots_seen _ mem).resolve_right (by simp)
  | link _ entity mem ih => exact (state.links_seen _ _ ih entity _ mem).resolve_right (by simp)

end Searching

namespace Arena

/-- The search runs to its end: each step uses up one of the steps allowed, and
the list together with four times the number of marks shrinks. -/
theorem Stores.unmarkBound_eq {h : Heap} {roots : List UInt32}
    (closed : ∀ o, h.Reaches roots o → ∃ e, h.entity? o.toNat = some e)
    {bound : Nat} {work : List UInt32} {a : Arena} {g : Heap} (stores : a.Stores g)
    (state : Searching h roots work g) (enough : work.length + 4 * g.marks ≤ bound) :
    ∃ a' g', unmarkBound bound work a = .ok a' ∧ a'.Stores g'
      ∧ Searching h roots [] g' ∧ Remarked h a a' := by
  induction bound generalizing work a g with
  | zero =>
    have none : work = [] := List.length_eq_zero_iff.mp (by omega)
    subst none
    exact ⟨a, g, by rw [unmarkBound], stores, state, .refl _ _⟩
  | succ bound ih =>
    cases work with
    | nil => exact ⟨a, g, by rw [unmarkBound], stores, state, .refl _ _⟩
    | cons o rest =>
      simp only [List.length_cons] at enough
      obtain ⟨_, entity⟩ := closed o (state.work_reached o (List.mem_cons_self ..))
      rw [← state.same.entity?_eq, Heap.entity?, Option.map_eq_some_iff] at entity
      obtain ⟨⟨e, m⟩, found, rfl⟩ := entity
      have fits := stores.fits found
      have go := stores.not_used_le found
      rw [unmarkBound, if_neg go, stores.load32_header found, ok_bind]
      cases m with
      | false =>
        rw [Record.isMarked_word fits, if_neg (by simp)]
        exact ih stores (state.skip ⟨e, found⟩) (by omega)
      | true =>
        have fewer := Heap.marks_update found
        have short := e.length_links_le
        obtain ⟨a₁, store, stores₁, rfl⟩ := stores.store32_header (n := ⟨e, false⟩) (l := e.link)
          found fits (by simp)
        have found₁ := Heap.at?_update_self (n := ⟨e, false⟩) found rfl
        obtain ⟨a', g', run, stores', state', step⟩ := ih stores₁ (state.visit found)
          (by rw [List.length_append]; omega)
        refine ⟨a', g', ?_, stores', state', .trans ?_ step⟩
        · rw [Record.isMarked_word fits, if_pos rfl, Record.unmarked_word fits]
          have word : Record.word ⟨e, false⟩ = e.header := rfl
          rw [word] at store stores₁ run
          simp only [store, ok_bind, stores₁.links_eq found₁, run]
        · exact (Remarked.store found _).congr state.same

/-- Clearing marks from further offsets: what is left without a mark is what can
be reached from these or from the ones before. -/
theorem Stores.unmark_eq {a : Arena} {h g : Heap} {roots offsets : List UInt32}
    (stores : a.Stores g) (state : Searching h roots [] g)
    (closed : ∀ o, h.Reaches (roots ++ offsets) o → ∃ e, h.entity? o.toNat = some e) :
    ∃ a' g', a.unmark offsets = .ok a' ∧ a'.Stores g' ∧ Searching h (roots ++ offsets) [] g'
      ∧ Remarked h a a' := by
  have marks : g.marks ≤ g.length := List.countP_le_length
  have records := Heap.length_le_extent g
  have extent := stores.extent_eq
  have used := stores.used_le_size
  exact stores.unmarkBound_eq closed (state.resume offsets) (by omega)

end Arena

end ArenaScript
