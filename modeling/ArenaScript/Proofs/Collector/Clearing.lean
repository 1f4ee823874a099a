import ArenaScript.Proofs.Engine.Creation

/-!
# Clearing marks call by call

Once every mark is set, each call that clears marks goes on where the calls
before it have ended.  After any number of calls the entities without a mark are
those that can be reached from the offsets of all calls, and apart from the
marks the arena is what it was.

Main results:

- `Remarked.sameButMarks`: only marks change.
- `Arena.Stores.foldlM_unmark`: what a sequence of calls clears.
- `Arena.clearing_marks_is_a_search`: both at once.
-/

namespace ArenaScript

/-! ## Bytes and marks -/

/-- Two arenas differ in the marks of the entities of a heap at most.  A mark is
the top bit of the last byte of a header. -/
structure SameButMarks (h : Heap) (a a' : Arena) : Prop where
  /-- Only bytes change. -/
  rest : a' = { a with bytes := a'.bytes }
  /-- The block stays as long as it is. -/
  size_eq : a'.bytes.size = a.bytes.size
  /-- A byte without a mark stays. -/
  bytes_eq : ∀ k, (∀ o e, h.entity? o = some e → k ≠ o + 3) → a'.bytes.get! k = a.bytes.get! k
  /-- So do the bits below a mark. -/
  low_eq : ∀ k, (a'.bytes.get! k).toNat % 2 ^ 7 = (a.bytes.get! k).toNat % 2 ^ 7

/-- The bytes of two words that differ in the mark at most. -/
theorem Arena.get!_of_unmarked_eq {b b' : ByteArray} {o k : Nat} (hk : k < 4)
    (same : unmarked (word32 b' o) = unmarked (word32 b o)) :
    (b'.get! (o + k)).toNat % 2 ^ 7 = (b.get! (o + k)).toNat % 2 ^ 7
      ∧ (k ≠ 3 → b'.get! (o + k) = b.get! (o + k)) := by
  obtain ⟨r0, r1, r2, r3⟩ := get!_eq_shift_word32 b o
  obtain ⟨r0', r1', r2', r3'⟩ := get!_eq_shift_word32 b' o
  rw [← UInt32.toNat_inj, toNat_unmarked, toNat_unmarked] at same
  have cases : k = 0 ∨ k = 1 ∨ k = 2 ∨ k = 3 := by omega
  rcases cases with rfl | rfl | rfl | rfl
  all_goals
    simp only [← UInt8.toNat_inj, Nat.add_zero, *, UInt32.toNat_toUInt8, UInt32.toNat_shiftRight,
      UInt32.reduceToNat, Nat.reduceMod, Nat.shiftRight_eq_div_pow]
    omega

/-- Writing first words of records leaves everything but the marks when the
entities are the same. -/
theorem Remarked.sameButMarks {h g : Heap} {a a' : Arena} (step : Remarked h a a')
    (stores : a.Stores h) (stores' : a'.Stores g) (same : g.SameEntities h) :
    SameButMarks h a a' := by
  have near : ∀ k, (a'.bytes.get! k).toNat % 2 ^ 7 = (a.bytes.get! k).toNat % 2 ^ 7
      ∧ ((∀ o e, h.entity? o = some e → k ≠ o + 3) → a'.bytes.get! k = a.bytes.get! k) := by
    intro k
    by_cases first : ∃ o e, h.entity? o = some e ∧ o ≤ k ∧ k < o + 4
    · obtain ⟨o, e, found, low, high⟩ := first
      have there := found
      have there' := (same.entity?_eq o).trans found
      rw [Heap.entity?, Option.map_eq_some_iff] at there there'
      obtain ⟨r, there, rfl⟩ := there
      obtain ⟨r', there', entity⟩ := there'
      obtain ⟨fits, word, -⟩ := stores.records o r there
      obtain ⟨fits', word', -⟩ := stores'.records o r' there'
      have header : Arena.unmarked (Arena.word32 a'.bytes o)
          = Arena.unmarked (Arena.word32 a.bytes o) := by
        rw [word, word', Record.unmarked_word fits, Record.unmarked_word fits', entity]
      obtain ⟨bits, byte⟩ := Arena.get!_of_unmarked_eq (k := k - o) (by omega) header
      rw [Nat.add_sub_cancel' low] at bits byte
      exact ⟨bits, fun away => byte (by have := away o _ found; omega)⟩
    · have kept := step.bytes_eq k fun o e found => by
        by_contra inside
        exact first ⟨o, e, found, by omega, by omega⟩
      exact ⟨by rw [kept], fun _ => kept⟩
  exact ⟨step.rest, step.size_eq, fun k => (near k).2, fun k => (near k).1⟩

namespace Arena

/-! ## Calls in sequence -/

/-- Every call goes on where the one before it has ended. -/
theorem Stores.foldlM_unmark {h : Heap} (good : h.WellFormed) (calls : List (List UInt32))
    {a : Arena} {g : Heap} {roots : List UInt32} (stores : a.Stores g)
    (state : Searching h roots [] g)
    (entities : ∀ o ∈ roots ++ calls.flatten, ∃ e, h.entity? o.toNat = some e) :
    ∃ a' g', calls.foldlM unmark a = .ok a' ∧ a'.Stores g'
      ∧ Searching h (roots ++ calls.flatten) [] g' ∧ Remarked h a a' := by
  induction calls generalizing a g roots with
  | nil =>
    rw [List.flatten_nil, List.append_nil]
    exact ⟨a, g, rfl, stores, state, .refl _ _⟩
  | cons offsets calls ih =>
    rw [List.flatten_cons, ← List.append_assoc] at entities ⊢
    -- links of entities lead to entities, so the search never leaves the heap
    have closed : ∀ o, h.Reaches (roots ++ offsets) o → ∃ e, h.entity? o.toNat = some e := by
      intro o reached
      induction reached with
      | root mem => exact entities _ (List.mem_append_left _ mem)
      | link _ found mem _ => exact good.links_found found mem
    obtain ⟨a₁, g₁, run₁, stores₁, state₁, step₁⟩ := stores.unmark_eq state closed
    obtain ⟨a₂, g₂, run₂, stores₂, state₂, step₂⟩ := ih stores₁ state₁ entities
    refine ⟨a₂, g₂, ?_, stores₂, state₂, step₁.trans step₂⟩
    rw [List.foldlM_cons, run₁, ok_bind, run₂]

/-- In an arena of any size that stores a well-formed heap, every mark can be
set, and every call after it that clears marks from offsets of entities ends.
After any sequence of such calls the entities without a mark are those that can
be reached from the offsets of the calls made so far, and nothing else in the
arena has changed. -/
theorem clearing_marks_is_a_search (a : Arena) (h : Heap) (stores : a.Stores h)
    (good : h.WellFormed) (calls : List (List UInt32))
    (entities : ∀ o ∈ calls.flatten, ∃ e, h.entity? o.toNat = some e) :
    ∃ a₁ a₂, a.markAll = .ok a₁ ∧ calls.foldlM unmark a₁ = .ok a₂
      ∧ (∀ o e, h.entity? o.toNat = some e → ∃ header, a₂.load32 o = .ok header
          ∧ (isMarked header = false ↔ h.Reaches calls.flatten o))
      ∧ SameButMarks h a a₂ := by
  obtain ⟨a₁, run₁, stores₁, step₁⟩ := stores.markAll_eq good.clear
  obtain ⟨a₂, g, run₂, stores₂, state, step₂⟩ :=
    stores₁.foldlM_unmark good calls (.start h) entities
  refine ⟨a₁, a₂, run₁, run₂, fun o e found => ?_,
    (step₁.trans step₂).sameButMarks stores stores₂ state.same⟩
  rw [← state.same.entity?_eq, Heap.entity?, Option.map_eq_some_iff] at found
  obtain ⟨⟨e', m⟩, found, rfl⟩ := found
  refine ⟨_, stores₂.load32_header found, ?_⟩
  rw [Record.isMarked_word (stores₂.fits found)]
  refine Iff.trans ?_ (state.clear_iff o)
  simp [Heap.Clear, found]

/-- Of a global scope, a string that nobody refers to and an object above it, a
call for the object clears the object and the scope around it and passes over
the string. -/
theorem clearing_object_passes_string :
    ∃ e, Engine.litter (Engine.initial 64) = .ok ((), e) ∧ e.arena.Stores Engine.littered
      ∧ ∃ a₁ a₂ scope string, e.arena.markAll = .ok a₁ ∧ [[16]].foldlM unmark a₁ = .ok a₂
        ∧ a₂.load32 0 = .ok scope ∧ isMarked scope = false
        ∧ a₂.load32 8 = .ok string ∧ isMarked string = true := by
  obtain ⟨e, made, -, -, sound⟩ := Engine.littered_sound
  have object : Engine.littered.entity? (16 : UInt32).toNat = some (.object 0 0) := rfl
  obtain ⟨a₁, a₂, run₁, run₂, marks, -⟩ := clearing_marks_is_a_search e.arena Engine.littered
    sound.holds.stores sound.heap [[16]] fun o mem => ⟨_, List.mem_singleton.mp mem ▸ object⟩
  obtain ⟨scope, load, clear⟩ := marks 0 (.object 0 0) rfl
  obtain ⟨string, load', marked⟩ := marks 8 _ rfl
  have reached : ∀ o, Engine.littered.Reaches [16] o → o = 16 ∨ o = 0 := by
    intro o reached
    induction reached with
    | root mem => exact .inl (List.mem_singleton.mp mem)
    | link _ found mem ih =>
      obtain rfl | rfl := ih
      all_goals
        obtain rfl := Option.some.inj found
        exact .inr (List.mem_singleton.mp mem)
  refine ⟨e, made, sound.holds.stores, a₁, a₂, scope, string, run₁, run₂, load, clear.mpr ?_,
    load', ?_⟩
  · exact .link (.root (List.mem_singleton_self 16)) object (List.mem_cons_self ..)
  · rw [← Bool.not_eq_false, marked]
    exact fun there => absurd (reached 8 there) (by decide)

end Arena

end ArenaScript
