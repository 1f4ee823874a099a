import ArenaScript.Host.Requests
import ArenaScript.Proofs.Collector.Soundness

/-!
# A collection takes all garbage

After a collection every entity can be reached, and the live entities are
packed without gaps.  So a second collection marks every entity, clears every
mark again and takes nothing out: not a byte of the arena changes.

Main results:

- `Engine.Collected.live`: every entity that is left can be reached.
- `Engine.Sound.collectNow_of_live`: a collection without garbage changes no byte.
- `Engine.collection_is_complete_and_idempotent`: both together.
-/

namespace ArenaScript

namespace Engine

variable {e e' : Engine} {h h' : Heap} {scratch : List Value} {m : UInt32 → UInt32}
  {c : Cursor → Cursor}

/-! ## What is left can be reached -/

namespace Collected

variable (done : Collected e h scratch e' h' m c)
include done

theorem mem_linkTo {l k : UInt32} (live : k = 0 ∨ e.Live h scratch k) (mem : l ∈ Entity.linkTo k) :
    m l ∈ Entity.linkTo (m k) := by
  simp only [Entity.linkTo] at mem ⊢
  split at mem
  · simp at mem
  next nonzero =>
    rw [List.mem_singleton.mp mem, if_neg (mt (done.eq_zero_iff live).mp nonzero)]
    simp

omit done in
theorem mem_valueLinks {l : UInt32} {v : Value} (mem : l ∈ Arena.valueLinks v) :
    m l ∈ Arena.valueLinks (v.move m) := by
  simp only [Arena.valueLinks, Value.isEntity_move] at mem ⊢
  split at mem
  next entity =>
    rw [if_pos entity, List.mem_singleton.mp mem, Value.offset_move m entity]
    simp
  next => simp at mem

/-- The links of a live entity are mapped. -/
theorem mem_links {o l : UInt32} {en : Entity}
    (live : e.Live h scratch o) (found : h.entity? o.toNat = some en) (mem : l ∈ en.links) :
    m l ∈ (en.move m).links := by
  have link := fun k => live_link (l := k) live found
  cases en with
  | object first parent =>
    rcases List.mem_cons.mp mem with rfl | mem
    · exact List.mem_cons_self ..
    · exact List.mem_cons_of_mem _ (done.mem_linkTo (link first (List.mem_cons_self ..)) mem)
  | property next key value =>
    rcases List.mem_append.mp mem with mem | mem
    · refine List.mem_append_left _ ?_
      rcases List.mem_cons.mp mem with rfl | mem
      · exact List.mem_cons_self ..
      · exact List.mem_cons_of_mem _ (mem_valueLinks mem)
    · exact List.mem_append_right _ (done.mem_linkTo (link next (List.mem_cons_self ..)) mem)
  | string text => simp [Entity.links] at mem

/-- The roots are mapped. -/
theorem mem_rootOffsets {o : UInt32}
    (mem : o ∈ e.rootOffsets scratch) : m o ∈ e'.rootOffsets (scratch.map (Value.move m)) := by
  obtain ⟨deepest, events, registers⟩ := done.registers
  have roots : e'.roots = e.roots.map (Value.move m) := by rw [registers]; rfl
  have result : e'.result = e.result.move m := by rw [registers]; rfl
  have scope : e'.scope = m e.scope := by rw [registers]; rfl
  have pinned : e'.pinned = m e.pinned := by rw [registers]; rfl
  have values : e'.result :: e'.roots ++ scratch.map (Value.move m)
      = (e.result :: e.roots ++ scratch).map (Value.move m) := by
    simp only [result, roots, List.map_append, List.map_cons]
  rw [rootOffsets, values, scope, pinned]
  rcases List.mem_append.mp mem with mem | mem
  · refine List.mem_append_left _ ?_
    rcases List.mem_cons.mp mem with rfl | mem
    · exact List.mem_cons_self ..
    · refine List.mem_cons_of_mem _ (done.mem_linkTo ?_ mem)
      by_cases none : e.pinned = 0
      · exact .inl none
      · exact .inr (.root (by simp [rootOffsets, Entity.linkTo, none]))
  · obtain ⟨v, mem, link⟩ := List.mem_flatMap.mp mem
    exact List.mem_append_right _ (List.mem_flatMap.mpr
      ⟨v.move m, List.mem_map_of_mem mem, mem_valueLinks link⟩)

/-- What was live is live after the collection. -/
theorem live {o : UInt32}
    (reached : e.Live h scratch o) : e'.Live h' (scratch.map (Value.move m)) (m o) := by
  induction reached with
  | root mem => exact .root (done.mem_rootOffsets mem)
  | link reached found mem ih =>
    exact ih.link (done.places _ _ reached found) (done.mem_links reached found mem)

end Collected

/-! ## A collection without garbage -/

end Engine

/-- Two arenas that differ in first words at most and hold the same heap are
the same. -/
theorem Remarked.eq_of_holds {a a' : Arena} {h : Heap} {scratch : List Value}
    (step : Remarked h a a') (holds : a.Holds h scratch) (holds' : a'.Holds h scratch) :
    a' = a := by
  have bytes : a'.bytes = a.bytes := by
    apply ByteArray.ext_getElem
    · exact step.size_eq
    · intro k hk hk'
      rw [← Arena.get!_eq_getElem, ← Arena.get!_eq_getElem]
      by_cases first : ∃ o e, h.entity? o = some e ∧ o ≤ k ∧ k < o + 4
      · obtain ⟨o, e, found, low, high⟩ := first
        rw [Heap.entity?, Option.map_eq_some_iff] at found
        obtain ⟨r, found, -⟩ := found
        obtain ⟨-, word, -⟩ := holds.records _ _ found
        obtain ⟨-, word', -⟩ := holds'.records _ _ found
        have := Arena.get!_eq_of_word32_eq (k := k - o) (by omega) (word'.trans word.symm)
        rwa [Nat.add_sub_cancel' low] at this
      · refine step.bytes_eq k fun o e found => ?_
        by_contra inside
        exact first ⟨o, e, found, by omega, by omega⟩
  rw [step.rest, bytes]

@[simp]
theorem Arena.bytes_noteLow (a : Arena) : a.noteLow.bytes = a.bytes := by
  rw [noteLow]
  split <;> rfl

@[simp]
theorem Arena.used_noteLow (a : Arena) : a.noteLow.used = a.used := by
  rw [noteLow]
  split <;> rfl

namespace Engine

variable {e : Engine} {h : Heap} {scratch : List Value}

/-- A sweep that meets no mark walks to the end of the entities. -/
theorem sweepFrom_of_clear {back front : Heap} {o : UInt32} {bound : Nat}
    (holds : e.arena.Holds (front ++ back) scratch) (clear : ∀ r ∈ back, r.marked = false)
    (place : o.toNat = front.extent) (enough : back.length < bound) :
    sweepFrom bound o e = .ok e := by
  induction bound generalizing back front o with
  | zero => omega
  | succ bound ih =>
    cases back with
    | nil =>
      rw [List.append_nil] at holds
      rw [sweepFrom, if_pos]
      rw [UInt32.le_iff_toNat_le, ← holds.extent_eq, place]
    | cons r rest =>
      have found : (front ++ r :: rest).at? o.toNat = some r := by
        rw [place]
        exact Heap.at?_middle _ _ _
      have fits := holds.fits found
      have bound_le := holds.record_le found
      have size : (Arena.entitySize (Arena.unmarked r.word)).toNat = r.size := by
        rw [Record.unmarked_word fits]
        exact Entity.toNat_entitySize fits
      have next : (o + Arena.entitySize (Arena.unmarked r.word)).toNat
          = Heap.extent (front ++ [r]) := by
        have := e.arena.used.toNat_lt
        rw [toNat_add_of_lt (by omega), size, place]
        simp [Heap.extent]
      rw [sweepFrom, if_neg (holds.not_used_le found), holds.load32_header found, ok_bind]
      simp only [Record.isMarked_word fits, clear r (List.mem_cons_self ..), Bool.false_eq_true,
        ↓reduceIte]
      rw [List.append_cons] at holds
      simp only [List.length_cons] at enough
      exact ih holds (fun r' mem => clear r' (List.mem_cons_of_mem _ mem)) next (by omega)

/-- A collection that finds no garbage changes no byte. -/
theorem Sound.collectNow_of_live (sound : e.Sound h scratch)
    (all : ∀ o en, h.entity? o.toNat = some en → e.Live h scratch o) :
    ∃ e', collectNow e = .ok ((), e') ∧ e'.arena.used = e.arena.used
      ∧ e'.arena.bytes = e.arena.bytes := by
  obtain ⟨arena, g, mark, holds, same, clear, -, step⟩ := sound.noteUse.markGarbage_eq
  have none : ∀ r ∈ g, r.marked = false := by
    intro r mem
    obtain ⟨o, found⟩ := Heap.exists_at?_of_mem mem
    have bound := Heap.at?_le_extent found
    have positive := r.eight_le_size
    have small := holds.extent_lt
    have word : (UInt32.ofNat o).toNat = o :=
      UInt32.toNat_ofNat_of_lt' (by simp only [UInt32.size]; omega)
    rw [← word] at found
    have entity : h.entity? (UInt32.ofNat o).toNat = some r.entity := by
      rw [← same.entity?_eq, Heap.entity?, found]
      rfl
    obtain ⟨en, found'⟩ := (clear _).mpr (all _ _ entity)
    rw [found, Option.some.injEq] at found'
    rw [found']
  -- the marks are where they were, so the bytes are what they were
  obtain rfl := same.eq_of_clear none sound.heap.clear
  obtain rfl := step.eq_of_holds sound.noteUse.holds holds
  have sweep := @sweepFrom_of_clear { e with
    collectPending := false, arena := e.arena.noteLow, deepest := max e.deepest e.depth }
    scratch g [] 0 _ holds none rfl holds.length_lt_chainBound
  obtain ⟨events, run⟩ := collectNow_of_phases mark sweep
  exact ⟨_, run, Arena.used_noteLow _, Arena.bytes_noteLow _⟩

/-- The digest of the statistics is that of the bytes in use. -/
theorem statsBy_eq (hash : ByteArray → Nat → UInt64) (e : Engine) :
    ∃ s e', statsBy hash e = .ok (s, e') ∧ s.digest = hash e.arena.bytes e.arena.used.toNat := by
  refine ⟨_, _, rfl, ?_⟩
  simp only [Arena.bytes_noteLow, Arena.used_noteLow]

open Classical in
/-- After a collection of a sound engine every entity can be reached from its
registers or its scratch stack, and the entities take as many bytes as the
live ones took before.  A second collection right after it changes neither the
end of the entities nor any byte, and so the digest of the statistics stays the
same, whatever the hash. -/
theorem collection_is_complete_and_idempotent (e : Engine) (h : Heap) (scratch : List Value)
    (sound : e.Sound h scratch) :
    ∃ (e' : Engine) (h' : Heap) (scratch' : List Value),
      collectNow e = .ok ((), e') ∧ e'.Sound h' scratch'
        ∧ (∀ o en, h'.entity? o.toNat = some en → e'.Live h' scratch' o)
        ∧ e'.arena.used.toNat = h.extentWhere (fun o => e.Live h scratch (UInt32.ofNat o)) 0
        ∧ ∃ e'', collectNow e' = .ok ((), e'') ∧ e''.arena.used = e'.arena.used
          ∧ e''.arena.bytes = e'.arena.bytes
          ∧ ∀ hash, ∃ s s' f f', statsBy hash e' = .ok (s, f)
            ∧ statsBy hash e'' = .ok (s', f') ∧ s'.digest = s.digest := by
  obtain ⟨e', h', m, c, run, done⟩ := sound.collectNow_eq
  have all : ∀ o en, h'.entity? o.toNat = some en →
      e'.Live h' (scratch.map (Value.move m)) o := by
    intro p en found
    obtain ⟨o, live, rfl⟩ := done.origins p en found
    exact done.live live
  obtain ⟨e'', run', used, bytes⟩ := (done.sound sound).collectNow_of_live all
  refine ⟨e', h', _, run, done.sound sound, all, ?_, e'', run', used, bytes, fun hash => ?_⟩
  · rw [← done.holds.extent_eq, done.extent]
  · obtain ⟨s, f, stats, digest⟩ := statsBy_eq hash e'
    obtain ⟨s', f', stats', digest'⟩ := statsBy_eq hash e''
    refine ⟨s, s', f, f', stats, stats', ?_⟩
    rw [digest, digest', used, bytes]

/-- A collection of an engine with a string that nobody refers to leaves only
what can be reached, and a second one changes nothing. -/
theorem littered_collection_is_complete :
    ∃ e, litter (initial 64) = .ok ((), e) ∧ e.Sound littered []
      ∧ ∃ (e' : Engine) (h' : Heap) (scratch' : List Value), collectNow e = .ok ((), e')
        ∧ e'.Sound h' scratch' ∧ (∀ o en, h'.entity? o.toNat = some en → e'.Live h' scratch' o)
        ∧ ∃ e'', collectNow e' = .ok ((), e'') ∧ e''.arena.used = e'.arena.used
          ∧ e''.arena.bytes = e'.arena.bytes := by
  obtain ⟨e, made, -, -, sound⟩ := littered_sound
  obtain ⟨e', h', scratch', run, sound', all, -, e'', run', used, bytes, -⟩ :=
    collection_is_complete_and_idempotent e littered [] sound
  exact ⟨e, made, sound, e', h', scratch', run, sound', all, e'', run', used, bytes⟩

end Engine

end ArenaScript
