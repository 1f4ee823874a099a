import ArenaScript.Proofs.Arena.Typing
import ArenaScript.Proofs.Collector.Relocation

/-!
# One collection

A collection of a sound engine marks what cannot be reached from its registers
and sweeps it.  What is left is the part of the heap that can be reached, moved
together by a strictly increasing map, and the engine is sound again.

Main results:

- `Engine.liveOffsets_eq`: the search starts from offsets that reach what the
  registers reach.
- `Engine.markGarbage_eq`: only what can be reached is left without a mark.
- `Engine.collectNow_eq`: what a collection does to a sound engine.
-/

namespace ArenaScript

/-! ## Where the search starts -/

/-- The chain of scopes goes down to the global scope and can be reached from
its first one. -/
theorem Arena.Holds.scopeChain_eq {a : Arena} {h : Heap} {scratch : List Value}
    (holds : a.Holds h scratch) (good : h.WellFormed) {bound : Nat} {scope : UInt32}
    (object : h.IsObject scope) (enough : scope.toNat < bound) :
    ∃ scopes, a.scopeChain bound scope = .ok scopes ∧ scope ∈ scopes ∧ 0 ∈ scopes
      ∧ ∀ roots, scope ∈ roots → ∀ o ∈ scopes, h.Reaches roots o := by
  induction bound generalizing scope with
  | zero => omega
  | succ bound ih =>
    by_cases outermost : scope = 0
    · subst outermost
      exact ⟨[0], rfl, by simp, by simp, fun roots mem o mem' =>
        List.mem_singleton.mp mem' ▸ .root mem⟩
    · obtain ⟨first, parent, found⟩ := object
      obtain ⟨-, object', below⟩ := good.admits scope _ found
      have lower : parent.toNat < scope.toNat :=
        UInt32.lt_iff_toNat_lt.mp (below.resolve_right fun top => outermost top.1)
      obtain ⟨scopes, run, -, bottom, reached⟩ := ih object' (by omega)
      refine ⟨scope :: scopes, ?_, by simp, by simp [bottom], fun roots mem o mem' => ?_⟩
      · rw [scopeChain, if_neg outermost, holds.parent_eq (good.at?_eq found), ok_bind, run]
        rfl
      · rcases List.mem_cons.mp mem' with rfl | mem'
        · exact .root mem
        · refine (reached [parent] (by simp) o mem').mono fun p here => ?_
          rw [List.mem_singleton.mp here]
          exact .link (.root mem) found (List.mem_cons_self ..)

namespace Engine

/-- The offsets that the registers of an engine and its scratch stack hold. -/
def rootOffsets (e : Engine) (scratch : List Value) : List UInt32 :=
  e.scope :: Entity.linkTo e.pinned ++ (e.result :: e.roots ++ scratch).flatMap Arena.valueLinks

/-- An entity can be reached from the registers or the scratch stack. -/
def Live (e : Engine) (h : Heap) (scratch : List Value) (o : UInt32) : Prop :=
  h.Reaches (e.rootOffsets scratch) o

variable {e : Engine} {h : Heap} {scratch : List Value}

variable (sound : e.Sound h scratch)
include sound

/-- What can be reached is there. -/
theorem Sound.live_found {o : UInt32} (live : e.Live h scratch o) :
    ∃ en, h.entity? o.toNat = some en := by
  induction live with
  | root mem =>
    rcases List.mem_append.mp mem with mem | mem
    · rcases List.mem_cons.mp mem with rfl | mem
      · exact sound.scope.found
      · simp only [Entity.linkTo] at mem
        split at mem
        · simp at mem
        next nonzero =>
          rw [List.mem_singleton.mp mem]
          exact (sound.pinned.resolve_left nonzero).found
    · obtain ⟨v, mem, link⟩ := List.mem_flatMap.mp mem
      rcases List.mem_append.mp mem with mem | mem
      · rcases List.mem_cons.mp mem with rfl | mem
        · exact sound.result.1.found link
        · exact (sound.roots v mem).found link
      · exact (sound.scratch v mem).1.found link
  | link _ found mem _ => exact sound.heap.links_found found mem

/-- The search starts from offsets that reach what the registers reach, the
global scope among them. -/
theorem Sound.liveOffsets_eq : ∃ offsets, e.liveOffsets = .ok offsets ∧ 0 ∈ offsets
      ∧ ∀ o, h.Reaches offsets o ↔ e.Live h scratch o := by
  have enough : e.scope.toNat < e.arena.chainBound := by
    obtain ⟨first, parent, found⟩ := sound.scope
    exact sound.holds.lt_chainBound found
  obtain ⟨scopes, run, here, bottom, reached⟩ :=
    sound.holds.scopeChain_eq sound.heap sound.scope enough
  refine ⟨scopes ++ Entity.linkTo e.pinned
      ++ (e.result :: e.roots.reverse ++ scratch).flatMap Arena.valueLinks, ?_, ?_,
    fun o => ⟨fun r => r.mono fun p mem => ?_, fun r => r.mono fun p mem => ?_⟩⟩
  · rw [liveOffsets, run, ok_bind, sound.holds.scratch_eq, ok_bind]
    rfl
  · simp [bottom]
  · -- the chain of scopes can be reached from the active one
    rcases List.mem_append.mp mem with mem | mem
    · rcases List.mem_append.mp mem with mem | mem
      · exact reached _ (by simp [rootOffsets]) p mem
      · exact .root (by simp [rootOffsets, mem])
    · obtain ⟨v, mem, link⟩ := List.mem_flatMap.mp mem
      refine .root (List.mem_append_right _ (List.mem_flatMap.mpr ⟨v, ?_, link⟩))
      simpa using mem
  · refine .root ?_
    simp only [rootOffsets, List.mem_append, List.mem_cons, List.mem_flatMap] at mem ⊢
    rcases mem with (rfl | mem) | ⟨v, mem, link⟩
    · exact .inl (.inl here)
    · exact .inl (.inr mem)
    · exact .inr ⟨v, by simpa using mem, link⟩

/-! ## Marking garbage -/

/-- After marking, the entities without a mark are those that can be reached,
and bytes change in first words only. -/
theorem Sound.markGarbage_eq :
    ∃ arena g, e.markGarbage = .ok { e with arena := arena } ∧ arena.Holds g scratch
      ∧ g.SameEntities h ∧ (∀ o, g.Clear o ↔ e.Live h scratch o) ∧ g.Clear 0
      ∧ Remarked h e.arena arena := by
  obtain ⟨offsets, offsets_eq, bottom, same⟩ := sound.liveOffsets_eq
  obtain ⟨a₁, run₁, stores₁, step₁⟩ := sound.holds.stores.markAll_eq sound.heap.clear
  obtain ⟨a₂, g, run₂, stores₂, state, step₂⟩ := stores₁.unmark_eq (.start h)
    fun o (reached : h.Reaches offsets o) => sound.live_found ((same o).mp reached)
  have step := step₁.trans step₂
  refine ⟨a₂, g, ?_, step.holds sound.holds stores₂, state.same, fun o => ?_, ?_, step⟩
  · rw [markGarbage, offsets_eq, ok_bind, run₁, ok_bind, run₂]
    rfl
  · exact (state.clear_iff o).trans (same o)
  · exact (state.clear_iff 0).mpr (.root bottom)

/-- What is left without a mark refers to what is left without a mark. -/
theorem Sound.closed {g : Heap} (same : g.SameEntities h)
    (clear : ∀ o, g.Clear o ↔ e.Live h scratch o) (origin : g.Clear 0) (small : g.extent < 2 ^ 32) :
    g.Closed := by
  have entity : ∀ o en, g.at? o = some ⟨en, false⟩ → h.entity? o = some en := by
    intro o en found
    rw [← same.entity?_eq, Heap.entity?, found]
    rfl
  have word : ∀ o r, g.at? o = some r → ∃ w : UInt32, w.toNat = o := by
    intro o r found
    have := Heap.at?_le_extent found
    have := r.eight_le_size
    exact ⟨UInt32.ofNat o, UInt32.toNat_ofNat_of_lt' (by simp only [UInt32.size]; omega)⟩
  refine ⟨origin, fun o en found => ?_, fun o en found l mem => ?_⟩
  · obtain ⟨o, rfl⟩ := word o _ found
    exact sound.heap.canonical (entity _ _ found)
  · obtain ⟨o, rfl⟩ := word o _ found
    rcases Entity.mem_links_of_mem_offsets mem with rfl | mem
    · exact origin
    · exact (clear l).mpr (.link ((clear o).mp ⟨en, found⟩) (entity _ _ found) mem)

end Engine

/-! ## What is left -/

/-- The number of bytes of the records at offsets with a property. -/
def Heap.extentWhere (p : Nat → Prop) [DecidablePred p] : Heap → Nat → Nat
  | [], _ => 0
  | r :: rest, o => (if p o then r.size else 0) + extentWhere p rest (o + r.size)

/-- The records without a mark, counted by the offsets at which they stand. -/
theorem Heap.extent_filter_clear {p : Nat → Prop} [DecidablePred p] {g h : Heap}
    (same : g.SameEntities h) {o : Nat}
    (clear : ∀ k r, g.at? k = some r → (r.marked = false ↔ p (o + k))) :
    extent (g.filter (!·.marked)) = h.extentWhere p o := by
  induction g generalizing h o with
  | nil =>
    cases h with
    | nil => rfl
    | cons r rest => simp [SameEntities] at same
  | cons r rest ih =>
    cases h with
    | nil => simp [SameEntities] at same
    | cons r' rest' =>
      simp only [SameEntities, List.map_cons, List.cons.injEq] at same
      have size : r.size = r'.size := congrArg Entity.size same.1
      have head := clear 0 r rfl
      have tail := @ih rest' same.2 (o + r.size) fun k r'' found => by
        rw [Nat.add_assoc]
        refine clear (r.size + k) r'' ?_
        have := r.eight_le_size
        rw [at?, if_neg (by omega), if_pos (by omega), Nat.add_sub_cancel_left, found]
      rw [extentWhere, ← size, ← tail]
      simp only [Nat.add_zero] at head
      by_cases kept : p o
      · rw [if_pos kept, List.filter_cons_of_pos (by simp [head.mpr kept])]
        rfl
      · have garbage : r.marked = true := by
          rw [← Bool.not_eq_false, head]
          exact kept
        rw [if_neg kept, List.filter_cons_of_neg (by simp [garbage]), Nat.zero_add]

namespace Engine

open Classical in
/-- What a collection does to an engine: the heap and the engine before and
after it, the map of the offsets and the map of the cursors. -/
structure Collected (e : Engine) (h : Heap) (scratch : List Value) (e' : Engine) (h' : Heap)
    (m : UInt32 → UInt32) (c : Cursor → Cursor) : Prop where
  /-- The arena holds the new heap and the moved scratch words. -/
  holds : e'.arena.Holds h' (scratch.map (Value.move m))
  /-- The block is the same. -/
  block : e.arena.SameBlock e'.arena
  /-- There are no marks. -/
  clear : ∀ r ∈ h', r.marked = false
  /-- No link stays no link. -/
  zero : m 0 = 0
  /-- The global scope is never garbage. -/
  origin : e.Live h scratch 0
  /-- Every live entity stands at its new offset, with its offsets mapped. -/
  places : ∀ o en, e.Live h scratch o → h.entity? o.toNat = some en →
    h'.entity? (m o).toNat = some (en.move m)
  /-- There are no others. -/
  origins : ∀ p en, h'.entity? p.toNat = some en → ∃ o, e.Live h scratch o ∧ m o = p
  /-- The order is kept. -/
  increasing : ∀ o p, e.Live h scratch o → e.Live h scratch p → o < p → m o < m p
  /-- The live entities are packed. -/
  extent : h'.extent = h.extentWhere (fun o => e.Live h scratch (UInt32.ofNat o)) 0
  /-- Only counters and events change besides offsets. -/
  registers : ∃ deepest events,
    e' = { e.relocated e'.arena m c with
      deepest := deepest, collectPending := false, events := events }
  /-- Texts of the host stay where they are. -/
  host : ∀ k text start, k.origin = .host text start → c k = k
  /-- Texts inside a live entity move along with it. -/
  arena : ∀ k start o en, k.origin = .arena start → e.Live h scratch o →
    h.entity? o.toNat = some en → o.toNat < start → start < o.toNat + en.size →
    c k = { k with origin := .arena (start - o.toNat + (m o).toNat) }

variable {e : Engine} {h : Heap} {scratch : List Value}

/-- A sound engine does not depend on its counters. -/
theorem Sound.noteUse (sound : e.Sound h scratch) :
    Sound { e with
      collectPending := false, arena := e.arena.noteLow, deepest := max e.deepest e.depth }
      h scratch :=
  ⟨sound.holds.noteLow, sound.heap, sound.scope, sound.pinned, sound.result, sound.roots,
    sound.scratch⟩

/-- A collection runs to its end once its two phases do. -/
theorem collectNow_of_phases {g s : Engine}
    (mark : markGarbage { e with
      collectPending := false, arena := e.arena.noteLow, deepest := max e.deepest e.depth } = .ok g)
    (sweep : g.sweep = .ok s) : ∃ events, collectNow e = .ok ((), { s with events := events }) := by
  refine ⟨if s.tracing then s.events.push (.collected e.arena.noteLow.used s.arena.used)
    else s.events, ?_⟩
  have replaced (e : Engine) : (set s : Action Unit) e = .ok ((), s) := rfl
  simp only [collectNow, noteUse, report, bind, StateT.bind, modify, modifyGet,
    MonadStateOf.modifyGet, StateT.modifyGet, get, getThe, MonadStateOf.get, StateT.get, pure,
    Except.bind, Except.pure, liftM, monadLift, MonadLift.monadLift, StateT.lift, replaced,
    mark, sweep]
  split <;> rfl

/-- A collection of a sound engine. -/
theorem Sound.collectNow_eq (sound : e.Sound h scratch) :
    ∃ e' h' m c, collectNow e = .ok ((), e') ∧ Collected e h scratch e' h' m c := by
  obtain ⟨arena, g, mark, holds, same, clear, origin, step⟩ := sound.noteUse.markGarbage_eq
  have closed := sound.noteUse.closed same clear origin (holds.extent_lt.trans (by decide))
  obtain ⟨arena', h', m, c, sweep, holds', moves, none, block⟩ := sweep_eq
    (e := { e with
      collectPending := false, arena := arena, deepest := max e.deepest e.depth }) holds closed
    ⟨sound.result.1.1, fun v mem => (sound.roots v mem).1⟩ fun v mem => (sound.scratch v mem).1.1
  obtain ⟨events, run⟩ := collectNow_of_phases mark sweep
  have found : ∀ o en, e.Live h scratch o → h.entity? o.toNat = some en →
      g.at? o.toNat = some ⟨en, false⟩ := by
    intro o en live entity
    obtain ⟨en', there⟩ := (clear o).mpr live
    have entity' : g.entity? o.toNat = some en' := by rw [Heap.entity?, there]; rfl
    rw [same.entity?_eq, entity] at entity'
    cases entity'
    exact there
  refine ⟨_, h', m, c, run, ⟨holds', (e.arena.sameBlock_noteLow.trans step.sameBlock).trans block,
    none, moves.zero, (clear 0).mp origin, ?_, ?_, ?_, ?_, ?_,
    moves.host, ?_⟩⟩
  · intro o en live entity
    rw [Heap.entity?, moves.places o en (found o en live entity)]
    rfl
  · intro p en entity
    rw [Heap.entity?, Option.map_eq_some_iff] at entity
    obtain ⟨⟨en', marked⟩, there, -⟩ := entity
    have unmarked := none _ (Heap.mem_of_at? there)
    simp only at unmarked
    subst unmarked
    obtain ⟨o, en, old, rfl⟩ := moves.origins p en' there
    exact ⟨o, (clear o).mp ⟨en, old⟩, rfl⟩
  · intro o p live live' order
    exact moves.increasing o p ((clear o).mpr live) ((clear p).mpr live') order
  · have all : h'.filter (!·.marked) = h' :=
      List.filter_eq_self.mpr fun r mem => by simp [none r mem]
    rw [← all, moves.kept, Heap.extent_map (Record.size_move m)]
    classical
    refine Heap.extent_filter_clear same fun k r there => ?_
    have bound := Heap.at?_le_extent there
    have positive := r.eight_le_size
    have small := holds.extent_lt
    have word : (UInt32.ofNat k).toNat = k :=
      UInt32.toNat_ofNat_of_lt' (by simp only [UInt32.size]; omega)
    rw [Nat.zero_add]
    refine Iff.trans ?_ (clear (UInt32.ofNat k))
    rcases r with ⟨en, marked⟩
    simp only [Heap.Clear, word, there, Option.some.injEq, Record.mk.injEq, exists_eq_left']
  · exact ⟨_, _, rfl⟩
  · intro k start o en origin live entity low high
    exact moves.arena k start o en origin (found o en live entity) low high

end Engine

end ArenaScript
