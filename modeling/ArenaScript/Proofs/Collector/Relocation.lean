import ArenaScript.Collector
import ArenaScript.Proofs.Collector.Compaction

/-!
# Relocation

Taking a record out of a heap maps the offsets of the records that stay by a
strictly increasing function.  `Relocation` says what such a map does to the
records and to the cursors over their texts.  Relocations compose, so a sweep,
which takes out one record after the other, is one relocation.

Main results:

- `Relocation.ofRemoval`, `Relocation.trans`: one removal, and removals in sequence.
- `Engine.sweep_eq`: a sweep takes out exactly the marked records.
-/

namespace ArenaScript

/-! ## Where records stand after a removal -/

section Removal

variable {front back : Heap} {d r : Record} {s n : UInt32}

/-- A record other than the removed one stands at its moved offset. -/
theorem Heap.at?_moved (place : s.toNat = front.extent) (size : n.toNat = d.size) {o : UInt32}
    (found : (front ++ d :: back).at? o.toNat = some r) (away : o ≠ s) :
    (front ++ back).at? (Arena.moved s n o).toNat = some r := by
  have gap : (front ++ d :: back).at? s.toNat = some d := by
    rw [place]
    exact at?_middle _ _ _
  have apart : o.toNat ≠ s.toNat := fun same => away (UInt32.toNat_inj.mp same)
  rw [Arena.moved]
  by_cases above : s < o
  · rw [UInt32.lt_iff_toNat_lt] at above
    have beyond := at?_disjoint gap found above
    have down : (o - n).toNat = o.toNat - n.toNat :=
      UInt32.toNat_sub_of_le _ _ (by rw [UInt32.le_iff_toNat_le]; omega)
    rw [if_pos (by rwa [UInt32.lt_iff_toNat_lt]), down, at?_append, if_neg (by omega), ← found,
      at?_append, if_neg (by omega), at?, if_neg (by omega), if_pos (by omega)]
    congr 1
    omega
  · rw [if_neg above]
    rw [UInt32.lt_iff_toNat_lt] at above
    rw [at?_append, if_pos (by omega)] at found ⊢
    exact found

/-- A record after a removal stood at some offset before. -/
theorem Heap.exists_at?_of_removed (place : s.toNat = front.extent) (size : n.toNat = d.size)
    (small : (front ++ d :: back).extent < 2 ^ 32) {p : Nat}
    (found : (front ++ back).at? p = some r) :
    ∃ o : UInt32, (front ++ d :: back).at? o.toNat = some r ∧ (Arena.moved s n o).toNat = p := by
  have eight := d.eight_le_size
  have bound := at?_le_extent found
  have positive := r.eight_le_size
  rw [extent_append, extent_cons] at small
  rw [extent_append] at bound
  rw [at?_append] at found
  by_cases before : p < front.extent
  · have word : (UInt32.ofNat p).toNat = p := UInt32.toNat_ofNat_of_lt'
      (by simp [UInt32.size]; omega)
    rw [if_pos before] at found
    refine ⟨UInt32.ofNat p, ?_, ?_⟩
    · rw [word, at?_append, if_pos before, found]
    · rw [Arena.moved, if_neg (by rw [UInt32.lt_iff_toNat_lt]; omega), word]
  · have word : (UInt32.ofNat (p + d.size)).toNat = p + d.size :=
      UInt32.toNat_ofNat_of_lt' (by simp [UInt32.size]; omega)
    rw [if_neg before] at found
    refine ⟨UInt32.ofNat (p + d.size), ?_, ?_⟩
    · rw [word, at?_append, if_neg (by omega), at?, if_neg (by omega), if_pos (by omega), ← found]
      congr 1
      omega
    · rw [Arena.moved, if_pos (by rw [UInt32.lt_iff_toNat_lt]; omega),
        UInt32.toNat_sub_of_le _ _ (by rw [UInt32.le_iff_toNat_le]; omega), word]
      omega

/-- Removal keeps the order of the records. -/
theorem Heap.moved_lt_moved (place : s.toNat = front.extent) (size : n.toNat = d.size)
    {o p : UInt32} {r' : Record} (found : (front ++ d :: back).at? o.toNat = some r)
    (found' : (front ++ d :: back).at? p.toNat = some r') (away : o ≠ s)
    (order : o < p) : Arena.moved s n o < Arena.moved s n p := by
  have gap : (front ++ d :: back).at? s.toNat = some d := by
    rw [place]
    exact at?_middle _ _ _
  have apart : o.toNat ≠ s.toNat := fun same => away (UInt32.toNat_inj.mp same)
  have eight := r.eight_le_size
  have down : ∀ q : UInt32, s < q → n.toNat ≤ q.toNat → (q - n).toNat = q.toNat - n.toNat :=
    fun q _ le => UInt32.toNat_sub_of_le _ _ (by rwa [UInt32.le_iff_toNat_le])
  simp only [UInt32.lt_iff_toNat_lt] at order down
  have apartRecords := at?_disjoint found found' order
  simp only [Arena.moved, UInt32.lt_iff_toNat_lt]
  by_cases low : s.toNat < o.toNat
  · have := at?_disjoint gap found low
    rw [if_pos low, if_pos (by omega), down o low (by omega), down p (by omega) (by omega)]
    omega
  · rw [if_neg low]
    by_cases high : s.toNat < p.toNat
    · have := at?_disjoint gap found' high
      have := at?_disjoint found gap (by omega)
      rw [if_pos high, down p high (by omega)]
      omega
    · rw [if_neg high]
      exact order

end Removal

/-! ## Removals in sequence -/

/-- The records without a mark refer to records without a mark. -/
structure Heap.Closed (h : Heap) : Prop where
  /-- The global scope stays. -/
  origin : h.Clear 0
  /-- Values refer by kind and offset alone. -/
  canonical : ∀ o e, h.at? o = some ⟨e, false⟩ → e.Canonical
  /-- No offset leads to a marked record. -/
  offsets : ∀ o e, h.at? o = some ⟨e, false⟩ → ∀ l ∈ e.offsets, h.Clear l

/-- What stays in a heap after records were taken out, with the map of the
offsets and the map of the cursors. -/
structure Relocation (h h' : Heap) (m : UInt32 → UInt32) (c : Cursor → Cursor) : Prop where
  /-- No link stays no link. -/
  zero : m 0 = 0
  /-- Every record without a mark stands at its new offset. -/
  places : ∀ o e, h.at? o.toNat = some ⟨e, false⟩ → h'.at? (m o).toNat = some ⟨e.move m, false⟩
  /-- There are no others without a mark. -/
  origins : ∀ p e', h'.at? p.toNat = some ⟨e', false⟩ →
    ∃ o e, h.at? o.toNat = some ⟨e, false⟩ ∧ m o = p
  /-- The order is kept. -/
  increasing : ∀ o p, h.Clear o → h.Clear p → o < p → m o < m p
  /-- The records without a mark are the old ones with their links mapped. -/
  kept : h'.filter (!·.marked) = (h.filter (!·.marked)).map (Record.move m)
  /-- Texts of the host stay where they are. -/
  host : ∀ k text start, k.origin = .host text start → c k = k
  /-- Texts inside a record move along with it. -/
  arena : ∀ k start o e, k.origin = .arena start → h.at? o.toNat = some ⟨e, false⟩ →
    o.toNat < start → start < o.toNat + e.size →
    c k = { k with origin := .arena (start - o.toNat + (m o).toNat) }

namespace Relocation

variable {h h₁ h₂ : Heap} {m m' : UInt32 → UInt32} {c c' : Cursor → Cursor}

/-- Taking out nothing. -/
theorem refl (closed : h.Closed) : Relocation h h id id := by
  refine ⟨rfl, ?_, fun p e found => ⟨p, e, found, rfl⟩, fun _ _ _ _ order => order, ?_,
    fun _ _ _ _ => rfl, ?_⟩
  · intro o e found
    rw [Entity.move_id (closed.canonical _ _ found)]
    exact found
  · refine (List.map_congr_left fun r mem => ?_).trans (List.map_id _) |>.symm
    obtain ⟨mem, clear⟩ := List.mem_filter.mp mem
    obtain ⟨o, found⟩ := Heap.exists_at?_of_mem mem
    rcases r with ⟨e, marked⟩
    simp only [Bool.not_eq_eq_eq_not, Bool.not_true] at clear
    subst clear
    rw [Record.move_clear, Entity.move_id (closed.canonical _ _ found), id]
  · intro k start o e origin found low high
    simp only [id]
    rw [Nat.sub_add_cancel (by omega), ← origin]

/-- Records without a mark stay without one. -/
theorem clear (moves : Relocation h h₁ m c) {o : UInt32} (clear : h.Clear o) : h₁.Clear (m o) := by
  obtain ⟨e, found⟩ := clear
  exact ⟨e.move m, moves.places o e found⟩

/-- The entity at a new offset. -/
theorem exists_of_at? (moves : Relocation h h₁ m c) {p : UInt32} {e' : Entity}
    (found : h₁.at? p.toNat = some ⟨e', false⟩) :
    ∃ o e, h.at? o.toNat = some ⟨e, false⟩ ∧ m o = p ∧ e' = e.move m := by
  obtain ⟨o, e, old, rfl⟩ := moves.origins p e' found
  rw [moves.places o e old] at found
  exact ⟨o, e, old, rfl, by cases found; rfl⟩

/-- What stays refers to what stays. -/
theorem closed (moves : Relocation h h₁ m c) (closed : h.Closed) (small : h₁.extent < 2 ^ 32) :
    h₁.Closed := by
  have word : ∀ o r, h₁.at? o = some r → (UInt32.ofNat o).toNat = o := by
    intro o r found
    have := Heap.at?_le_extent found
    have := r.eight_le_size
    exact UInt32.toNat_ofNat_of_lt' (by simp only [UInt32.size]; omega)
  refine ⟨moves.zero ▸ moves.clear closed.origin, ?_, ?_⟩
  · intro o e' found
    rw [← word o _ found] at found
    obtain ⟨-, e, -, -, rfl⟩ := moves.exists_of_at? found
    exact e.move_canonical m
  · intro o e' found l mem
    rw [← word o _ found] at found
    obtain ⟨p, e, old, -, rfl⟩ := moves.exists_of_at? found
    rw [Entity.offsets_move] at mem
    obtain ⟨l', mem', rfl⟩ := List.mem_map.mp mem
    exact moves.clear (closed.offsets _ _ old l' mem')

/-- Taking out records one after the other. -/
theorem trans (first : Relocation h h₁ m c) (second : Relocation h₁ h₂ m' c') :
    Relocation h h₂ (m' ∘ m) (c' ∘ c) := by
  refine ⟨?_, ?_, ?_, ?_, ?_, ?_, ?_⟩
  · simp only [Function.comp, first.zero, second.zero]
  · intro o e found
    rw [← Entity.move_move]
    exact second.places _ _ (first.places _ _ found)
  · intro p e' found
    obtain ⟨o₁, e₁, found₁, rfl⟩ := second.origins p e' found
    obtain ⟨o, e, old, rfl⟩ := first.origins o₁ e₁ found₁
    exact ⟨o, e, old, rfl⟩
  · intro o p clear clear' order
    exact second.increasing _ _ (first.clear clear) (first.clear clear')
      (first.increasing _ _ clear clear' order)
  · rw [second.kept, first.kept, List.map_map]
    refine List.map_congr_left fun r mem => ?_
    obtain ⟨-, clear⟩ := List.mem_filter.mp mem
    rcases r with ⟨e, marked⟩
    simp only [Bool.not_eq_eq_eq_not, Bool.not_true] at clear
    subst clear
    simp only [Function.comp_apply, Record.move_clear, Entity.move_move]
  · intro k text start origin
    rw [Function.comp, first.host k text start origin, second.host k text start origin]
  · intro k start o e origin found low high
    have moved := first.arena k start o e origin found low high
    have size := Entity.size_move m e
    rw [Function.comp, moved, second.arena _ _ _ _ rfl (first.places _ _ found) (by omega)
      (by omega),
      Nat.add_sub_cancel]
    rfl

/-- Taking out one marked record. -/
theorem ofRemoval {front back : Heap} {d : Record} {s n : UInt32}
    (place : s.toNat = front.extent) (size : n.toNat = d.size)
    (small : (front ++ d :: back).extent < 2 ^ 32) (garbage : d.marked = true) :
    Relocation (front ++ d :: back) ((front ++ back).map (Record.move (Arena.moved s n)))
      (Arena.moved s n) (·.relocate s n) := by
  have gap : (front ++ d :: back).at? s.toNat = some d := by
    rw [place]
    exact Heap.at?_middle _ _ _
  have away : ∀ {o : UInt32} {e : Entity},
      (front ++ d :: back).at? o.toNat = some ⟨e, false⟩ → o ≠ s := by
    rintro o e found rfl
    rw [gap, Option.some.injEq] at found
    simp [found] at garbage
  have sizes := Record.size_move (Arena.moved s n)
  refine ⟨?_, ?_, ?_, ?_, ?_, ?_, ?_⟩
  · rw [Arena.moved, if_neg (by simp)]
  · intro o e found
    rw [Heap.at?_map sizes, Heap.at?_moved place size found (away found)]
    rfl
  · intro p e' found
    rw [Heap.at?_map sizes, Option.map_eq_some_iff] at found
    obtain ⟨⟨e, marked⟩, found, same⟩ := found
    obtain ⟨o, old, new⟩ := Heap.exists_at?_of_removed place size small found
    have clear : (⟨e, marked⟩ : Record).marked = false := by
      rw [← Record.marked_move (Arena.moved s n), same]
    simp only at clear
    subst clear
    exact ⟨o, e, old, UInt32.toNat_inj.mp new⟩
  · rintro o p ⟨e, found⟩ ⟨e', found'⟩ order
    exact Heap.moved_lt_moved place size found found' (away found) order
  · rw [List.filter_append, List.filter_cons_of_neg (by simp [garbage]), ← List.filter_append,
      List.filter_map]
    congr 1
    exact List.filter_congr fun r _ => by simp
  · intro k text start origin
    simp only [Cursor.relocate, origin]
  · intro k start o e origin found low high
    have apart : o.toNat ≠ s.toNat := fun same => away found (UInt32.toNat_inj.mp same)
    have whole : Record.size ⟨e, false⟩ = e.size := rfl
    simp only [Cursor.relocate, origin, Arena.moved, UInt32.lt_iff_toNat_lt]
    by_cases above : s.toNat < o.toNat
    · have beyond := Heap.at?_disjoint gap found above
      rw [if_pos (by omega), if_pos above,
        UInt32.toNat_sub_of_le _ _ (by rw [UInt32.le_iff_toNat_le]; omega)]
      congr 2
      omega
    · have below := Heap.at?_disjoint found gap (by omega)
      rw [if_neg (by omega), if_neg above, Nat.sub_add_cancel (by omega), ← origin]

end Relocation

/-! ## Sweeping -/

namespace Engine

/-- An engine whose offsets are mapped, with the arena given. -/
def relocated (e : Engine) (arena : Arena) (m : UInt32 → UInt32) (c : Cursor → Cursor) : Engine :=
  { e with
    arena := arena
    scope := m e.scope
    pinned := m e.pinned
    result := e.result.move m
    roots := e.roots.map (·.move m)
    cursor := c e.cursor
    suspended := e.suspended.map c }

/-- The values an engine holds outside its arena refer by kind and offset
alone. -/
def Canonical (e : Engine) : Prop := e.result.Canonical ∧ ∀ v ∈ e.roots, v.Canonical

theorem relocated_id {e : Engine} (canonical : e.Canonical) : e.relocated e.arena id id = e := by
  have roots : e.roots.map (·.move id) = e.roots :=
    (List.map_congr_left fun v mem => Value.move_id (canonical.2 v mem)).trans (List.map_id _)
  simp only [relocated, Value.move_id canonical.1, roots, List.map_id, id]

theorem canonical_relocated (e : Engine) (arena : Arena) (m : UInt32 → UInt32)
    (c : Cursor → Cursor) : (e.relocated arena m c).Canonical := by
  refine ⟨e.result.move_canonical m, fun v mem => ?_⟩
  obtain ⟨w, -, rfl⟩ := List.mem_map.mp mem
  exact w.move_canonical m

theorem relocated_relocated (e : Engine) (a b : Arena) (m m' : UInt32 → UInt32)
    (c c' : Cursor → Cursor) :
    (e.relocated a m c).relocated b m' c' = e.relocated b (m' ∘ m) (c' ∘ c) := by
  simp only [relocated, Value.move_move, List.map_map, Function.comp_def]

variable {e : Engine} {scratch : List Value}

/-- Taking one marked record out. -/
theorem remove_eq {front back : Heap} {d : Record} {s n : UInt32}
    (holds : e.arena.Holds (front ++ d :: back) scratch)
    (closed : Heap.Closed (front ++ d :: back))
    (place : s.toNat = front.extent) (size : n.toNat = d.size) (garbage : d.marked = true) :
    ∃ arena, e.remove s n = .ok (e.relocated arena (Arena.moved s n) (·.relocate s n))
      ∧ arena.Holds ((front ++ back).map (Record.move (Arena.moved s n)))
        (scratch.map (Value.move (Arena.moved s n))) ∧ e.arena.SameBlock arena := by
  have small := holds.extent_lt
  have moves := Relocation.ofRemoval place size (small.trans (by decide)) garbage
  -- the links of what stays lead to records that stay, so they fit after the move
  have aligned : ∀ l, (front ++ d :: back).Clear l →
      (Arena.moved s n l).toNat % 4 = 0 ∧ (Arena.moved s n l).toNat < 2 ^ 31 := by
    rintro l ⟨e, found⟩
    have new := moves.places l e found
    have bound := Heap.at?_le_extent new
    rw [Heap.extent_map (Record.size_move _), Heap.extent_append] at bound
    rw [Heap.extent_append, Heap.extent_cons] at small
    have := Record.eight_le_size ⟨e.move (Arena.moved s n), false⟩
    exact ⟨Heap.at?_mod_four new, by omega⟩
  have fits : ∀ en, ⟨en, false⟩ ∈ front ++ d :: back → (en.move (Arena.moved s n)).Fits := by
    intro en mem
    obtain ⟨o, found⟩ := Heap.exists_at?_of_mem mem
    have offsets := closed.offsets o en found
    cases en with
    | object first parent => exact aligned first (offsets _ (List.mem_cons_self ..))
    | property next key value => exact aligned next (offsets _ (List.mem_cons_self ..))
    | string text => exact holds.fits found
  obtain ⟨a₁, run₁, holds₁, block₁⟩ := holds.relocate_eq fits
  rw [List.map_append, List.map_cons] at holds₁
  have sizes := Record.size_move (Arena.moved s n)
  obtain ⟨a₂, run₂, holds₂, block₂⟩ := holds₁.slide_eq (s := s) (n := n)
    (by rw [place, Heap.extent_map sizes]) (by rw [size, sizes])
  refine ⟨a₂, ?_, by rwa [List.map_append], block₁.trans block₂⟩
  have run₁' : (e.relocateRegisters s n).arena.relocate s n = .ok a₁ := run₁
  rw [remove, run₁', ok_bind, run₂]
  rfl

/-- Sweeping from an offset on, where the records before it have no mark. -/
theorem sweepFrom_eq {back front : Heap} {o : UInt32} {bound : Nat}
    (holds : e.arena.Holds (front ++ back) scratch) (closed : Heap.Closed (front ++ back))
    (canonical : e.Canonical) (canonical' : ∀ v ∈ scratch, v.Canonical)
    (clear : ∀ r ∈ front, r.marked = false) (place : o.toNat = front.extent)
    (enough : back.length < bound) :
    ∃ arena h' m c, sweepFrom bound o e = .ok (e.relocated arena m c)
      ∧ arena.Holds h' (scratch.map (Value.move m)) ∧ Relocation (front ++ back) h' m c
      ∧ (∀ r ∈ h', r.marked = false) ∧ e.arena.SameBlock arena := by
  induction bound generalizing e scratch back front o with
  | zero => omega
  | succ bound ih =>
    have same : scratch.map (Value.move id) = scratch :=
      (List.map_congr_left fun v mem => Value.move_id (canonical' v mem)).trans (List.map_id _)
    cases back with
    | nil =>
      rw [List.append_nil] at holds closed ⊢
      have stop : e.arena.used ≤ o := by
        rw [UInt32.le_iff_toNat_le, ← holds.extent_eq, place]
      refine ⟨e.arena, front, id, id, ?_, by rwa [same], .refl closed, clear, .refl _⟩
      rw [sweepFrom, if_pos stop, relocated_id canonical]
    | cons r rest =>
      have found : (front ++ r :: rest).at? o.toNat = some r := by
        rw [place]
        exact Heap.at?_middle _ _ _
      have fits := holds.fits found
      have go := holds.not_used_le found
      have size : (Arena.entitySize (Arena.unmarked r.word)).toNat = r.size := by
        rw [Record.unmarked_word fits]
        exact Entity.toNat_entitySize fits
      rw [sweepFrom, if_neg go, holds.load32_header found, ok_bind]
      simp only [List.length_cons] at enough
      simp only [Record.isMarked_word fits]
      by_cases garbage : r.marked = true
      · rw [if_pos garbage]
        obtain ⟨arena, run, holds₁, block₁⟩ := remove_eq holds closed place size garbage
        have moves := Relocation.ofRemoval place size (holds.extent_lt.trans (by decide)) garbage
        have closed₁ := moves.closed closed (holds₁.extent_lt.trans (by decide))
        rw [List.map_append] at holds₁ closed₁
        obtain ⟨arena', h', m, c, run', holds', moves', clear', block'⟩ := ih holds₁ closed₁
          (canonical_relocated ..) (List.forall_mem_map.mpr fun v _ => v.move_canonical _)
          (List.forall_mem_map.mpr fun r' mem => (Record.marked_move _ r').trans (clear r' mem))
          (by rw [place, Heap.extent_map (Record.size_move _)])
          (by rw [List.length_map]; omega)
        rw [← List.map_append] at moves'
        refine ⟨arena', h', _, _, ?_, ?_, moves.trans moves', clear', block₁.trans block'⟩
        · rw [run, ok_bind, run', relocated_relocated]
        · rwa [List.map_map, Value.move_comp_move] at holds'
      · rw [if_neg garbage]
        rw [Bool.not_eq_true] at garbage
        rw [List.append_cons] at holds closed ⊢
        refine ih holds closed canonical canonical' ?_ ?_ (by omega)
        · exact List.forall_mem_append.mpr ⟨clear, List.forall_mem_singleton.mpr garbage⟩
        · have := holds.record_le (h := front ++ [r] ++ rest)
            (by rw [← List.append_cons]; exact found)
          have := e.arena.used.toNat_lt
          rw [toNat_add_of_lt (by omega), size, place]
          simp [Heap.extent]

/-- A sweep takes out the marked records and maps all offsets by one
relocation. -/
theorem sweep_eq {h : Heap} (holds : e.arena.Holds h scratch) (closed : h.Closed)
    (canonical : e.Canonical) (canonical' : ∀ v ∈ scratch, v.Canonical) :
    ∃ arena h' m c, e.sweep = .ok (e.relocated arena m c)
      ∧ arena.Holds h' (scratch.map (Value.move m)) ∧ Relocation h h' m c
      ∧ (∀ r ∈ h', r.marked = false) ∧ e.arena.SameBlock arena :=
  @sweepFrom_eq e scratch h [] 0 e.arena.chainBound holds closed canonical canonical' (by simp) rfl
    holds.length_lt_chainBound

end Engine

end ArenaScript
