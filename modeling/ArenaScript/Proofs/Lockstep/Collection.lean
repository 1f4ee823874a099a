import ArenaScript.Proofs.Lockstep.Values

/-!
# Collections in step

Before a statement some engines collect and others do not, since their
thresholds and their garbage differ.  Either way an engine holds what it held,
perhaps elsewhere, so engines that agree go on to agree: their new offsets are
related if their old ones are, as long as these can be reached.

Main definitions:

- `Engine.Due`: a collection comes before the next statement.
- `Engine.Moved`: an engine that holds what it held, perhaps elsewhere.

Main results:

- `Alike.moved`: engines that agree still agree.
- `Alike.collectIfDue`: the collections before a statement.
-/

namespace ArenaScript

namespace Engine

/-- A collection comes before the next statement. -/
def Due (e : Engine) : Prop :=
  e.mode.dry = false ∧ (e.threshold < e.arena.used ∨ e.collectPending = true)

instance (e : Engine) : Decidable e.Due := inferInstanceAs (Decidable (_ ∧ (_ ∨ _)))

theorem due_iff {e : Engine} :
    (!e.mode.dry && (e.threshold < e.arena.used || e.collectPending)) = true ↔ e.Due := by
  simp only [Due, Bool.and_eq_true, Bool.not_eq_true', Bool.or_eq_true, decide_eq_true_eq]

/-- An engine that holds what it held, perhaps elsewhere: the heap and the
engine before and after, the map of the offsets, the map of the cursors and the
offsets that are kept. -/
structure Moved (e : Engine) (h : Heap) (scratch : List Value) (e' : Engine) (h' : Heap)
    (m : UInt32 → UInt32) (k : Cursor → Cursor) (kept : UInt32 → Prop) : Prop where
  sound : e'.Sound h' (scratch.map (Value.move m))
  block : e.arena.SameBlock e'.arena
  zero : m 0 = 0
  /-- What can be reached is kept. -/
  live : ∀ o, e.Live h scratch o → kept o
  /-- What is kept is there. -/
  found : ∀ o, kept o → ∃ en, h.entity? o.toNat = some en
  /-- What is linked to what is kept is kept. -/
  closed : ∀ o en l, kept o → h.entity? o.toNat = some en → l ∈ en.links → kept l
  places : ∀ o en, kept o → h.entity? o.toNat = some en →
    h'.entity? (m o).toNat = some (en.move m)
  /-- There are no others. -/
  origins : ∀ p en, h'.entity? p.toNat = some en → ∃ o, kept o ∧ m o = p
  increasing : ∀ o p, kept o → kept p → o < p → m o < m p
  registers : ∃ deepest pending events, e' = { e.relocated e'.arena m k with
    deepest := deepest, collectPending := pending, events := events }
  host : ∀ u text start, u.origin = .host text start → k u = u
  arena : ∀ u start o en, u.origin = .arena start → kept o →
    h.entity? o.toNat = some en → o.toNat < start → start < o.toNat + en.size →
    k u = { u with origin := .arena (start - o.toNat + (m o).toNat) }

variable {e e' : Engine} {h h' : Heap} {scratch : List Value} {m : UInt32 → UInt32}
  {k : Cursor → Cursor} {kept : UInt32 → Prop}

theorem Sound.live_zero (sound : e.Sound h scratch) : e.Live h scratch 0 := by
  obtain ⟨offsets, -, bottom, same⟩ := sound.liveOffsets_eq
  exact (same 0).mp (.root bottom)

/-- The order of what is kept is the old one. -/
theorem Moved.lt_iff (done : Moved e h scratch e' h' m k kept) {o p : UInt32} (first : kept o)
    (second : kept p) : m o < m p ↔ o < p := by
  refine ⟨fun less => ?_, done.increasing o p first second⟩
  by_contra not_less
  rcases UInt32.lt_or_eq_of_le (UInt32.not_lt.mp not_less) with more | rfl
  · exact UInt32.lt_asymm less (done.increasing p o second first more)
  · exact UInt32.lt_irrefl _ less

theorem Moved.injective (done : Moved e h scratch e' h' m k kept) {o p : UInt32} (first : kept o)
    (second : kept p) (same : m o = m p) : o = p := by
  have less := mt (done.lt_iff first second).mpr
  have more := mt (done.lt_iff second first).mpr
  rw [same] at less more
  exact UInt32.le_antisymm (UInt32.not_lt.mp (more (UInt32.lt_irrefl _)))
    (UInt32.not_lt.mp (less (UInt32.lt_irrefl _)))

/-- A link of what is kept is 0 or kept. -/
theorem Moved.kept_link (done : Moved e h scratch e' h' m k kept) {o l : UInt32} {en : Entity}
    (here : kept o) (found : h.entity? o.toNat = some en) (mem : l ∈ en.offsets) :
    l = 0 ∨ kept l :=
  (Entity.mem_links_of_mem_offsets mem).imp_right (done.closed o en l here found)

theorem Collected.moved (done : Collected e h scratch e' h' m k) (sound : e.Sound h scratch) :
    Moved e h scratch e' h' m k (e.Live h scratch) where
  sound := done.sound sound
  block := done.block
  zero := done.zero
  live := fun _ live => live
  found := fun _ live => sound.live_found live
  closed := fun _ _ _ live found mem => .link live found mem
  places := done.places
  origins := done.origins
  increasing := done.increasing
  registers := by
    obtain ⟨deepest, events, eq⟩ := done.registers
    exact ⟨deepest, false, events, eq⟩
  host := done.host
  arena := done.arena

/-- Without a collection nothing moves and all is kept. -/
theorem Sound.unmoved (sound : e.Sound h scratch) :
    Moved e h scratch e h id id fun o => ∃ en, h.entity? o.toNat = some en where
  sound := by
    have same : scratch.map (Value.move id) = scratch :=
      (List.map_congr_left fun v mem => Value.move_id (sound.scratch v mem).1.1).trans
        (List.map_id _)
    rw [same]
    exact sound
  block := .refl _
  zero := rfl
  live := fun _ live => sound.live_found live
  found := fun _ there => there
  closed := fun _ _ _ _ found mem => sound.heap.links_found found mem
  places := by
    intro o en _ found
    rw [Entity.move_id (sound.heap.canonical found)]
    exact found
  origins := fun p en found => ⟨p, ⟨en, found⟩, rfl⟩
  increasing := fun _ _ _ _ less => less
  registers := by
    refine ⟨e.deepest, e.collectPending, e.events, ?_⟩
    rw [relocated_id ⟨sound.result.1.1, fun v mem => (sound.roots v mem).1⟩]
  host := fun _ _ _ _ => rfl
  arena := by
    intro u start o en origin _ _ low _
    simp only [id]
    rw [Nat.sub_add_cancel (by omega), ← origin]

/-- A collection before a statement, or none. -/
theorem Sound.collectIfDue_eq (sound : e.Sound h scratch) :
    ∃ e' h' m k kept, collectIfDue e = .ok ((), e') ∧ Moved e h scratch e' h' m k kept
      ∧ ∀ may : Engine → Prop, (e.Due → may e) → Lockstep.World.Sweeps may h scratch h' m kept := by
  by_cases due : e.Due
  · obtain ⟨e', h', m, k, run, done⟩ := sound.collectNow_eq
    refine ⟨e', h', m, k, _, ?_, done.moved sound,
      fun _ allowed => .one (allowed due) sound run done⟩
    simp only [collectIfDue, Action.runs, if_pos (due_iff.mpr due)]
    exact run
  · refine ⟨e, h, id, id, _, ?_, sound.unmoved, fun _ _ => .none⟩
    simp only [collectIfDue, Action.runs, if_neg (mt due_iff.mp due)]

end Engine

namespace Lockstep

open Engine

variable {ι : Type} [Rules ι] {w : World ι} {s : Standing ι} {c : Current} {e e' : ι → Engine}
  {heap : ι → Heap} {m : ι → UInt32 → UInt32} {k : ι → Cursor → Cursor} {kept : ι → UInt32 → Prop}

omit [Rules ι] in
/-- Members of lists in step are members of the lists. -/
theorem Listed.attach {α β : Type} {P : α → (ι → β) → Prop} {xs : List α} {vs : ι → List β}
    (listed : Listed P xs vs) : Listed (fun x v => P x v ∧ ∀ i, v i ∈ vs i) xs vs := by
  suffices all : ∀ ws : ι → List β, (∀ i, vs i ⊆ ws i) →
      Listed (fun x v => P x v ∧ ∀ i, v i ∈ ws i) xs vs from all vs fun _ _ mem => mem
  intro ws inside
  induction xs generalizing vs with
  | nil => exact listed
  | cons x xs ih =>
    obtain ⟨v, vs', eq, head, tail⟩ := listed
    refine ⟨v, vs', eq, ⟨head, fun i => inside i ?_⟩, ih tail fun i b mem => inside i ?_⟩
    · rw [eq i]
      exact List.mem_cons_self ..
    · rw [eq i]
      exact List.mem_cons_of_mem _ mem

/-- Values that refer to what is kept are related after the moves. -/
theorem World.Related.moved {tag : Tag} {v : ι → Value} (related : w.Related tag v)
    (live : ∀ i, ∀ o ∈ Arena.valueLinks (v i), kept i o) :
    (w.moved heap m kept).Related tag fun i => (v i).move (m i) := by
  have refers : ∀ {kind : Kind} {sh : Shape}, kind.isEntity = true → w.Refers kind sh v →
      (w.moved heap m kept).Refers kind sh fun i => (v i).move (m i) := by
    rintro kind sh entity ⟨a, rel, eq⟩
    refine ⟨fun i => m i (a i), ⟨a, rel, fun i => live i _ ?_, rfl⟩, fun i => ?_⟩
    · rw [eq i, Arena.valueLinks, if_pos (by rw [Value.isEntity, Value.kind_ref, entity]),
        Value.offset_ref]
      exact List.mem_singleton_self _
    · show (v i).move (m i) = .ref kind (m i (a i))
      rw [eq i, Value.move_ref _ entity]
  cases tag with
  | object ages => exact refers rfl related
  | property names => exact refers rfl related
  | string age text => exact refers rfl related
  | function age text => exact ⟨refers rfl related.1, related.2⟩
  | other x =>
    obtain ⟨bare, eq⟩ := related
    refine ⟨bare, fun i => ?_⟩
    show (v i).move (m i) = x
    rw [eq i, Value.move, bare, if_neg Bool.false_ne_true]

section

variable
  (done : ∀ i, Moved (e i) (w.heap i) (w.scratch i) (e' i) (heap i) (m i) (k i) (kept i))
include done

/-- Lists of properties that are kept have the same names after the moves. -/
theorem World.Lists.moved (matched : w.Matched) {names : Names} {l : ι → UInt32}
    (lists : w.Lists names l) (live : ∀ i, l i = 0 ∨ kept i (l i)) :
    (w.moved heap m kept).Lists names fun i => m i (l i) := by
  cases names with
  | nil =>
    intro i
    show m i (l i) = 0
    rw [lists i]
    exact (done i).zero
  | cons name rest =>
    have some := matched.ne_zero lists nofun
    exact ⟨l, lists, fun i => (live i).resolve_left (some i), rfl⟩

/-- What stands at the new offsets. -/
theorem World.Content.moved (matched : w.Matched) {sh : Shape} {a : ι → UInt32}
    (live : ∀ i, kept i (a i)) (content : w.Content sh a) :
    (w.moved heap m kept).Content sh fun i => m i (a i) := by
  cases sh with
  | object ages =>
    obtain ⟨first, parent, there, link, up⟩ := content
    obtain ⟨names, lists⟩ := matched.exists_lists link
    have links := fun i (l : UInt32) mem => (done i).kept_link (l := l) (live i) (there i) mem
    refine ⟨fun i => m i (first i), fun i => m i (parent i),
      fun i => (done i).places _ _ (live i) (there i),
      (lists.moved done matched fun i => links i _ (List.mem_cons_self ..)).link,
      parent, up, fun i => ?_, rfl⟩
    exact (done i).closed _ _ _ (live i) (there i) (List.mem_cons_self ..)
  | property names =>
    obtain ⟨next, key, value, age, text, tag, there, head, lists, string, related, plain⟩ := content
    have links := fun i (l : UInt32) mem => (done i).kept_link (l := l) (live i) (there i) mem
    refine ⟨fun i => m i (next i), fun i => m i (key i), fun i => (value i).move (m i), age, text,
      tag,
      fun i => (done i).places _ _ (live i) (there i), head,
      lists.moved done matched fun i => links i _ (List.mem_cons_self ..),
      ⟨key, string, fun i => ?_, rfl⟩, related.moved fun i o mem => ?_, plain⟩
    · exact (done i).closed _ _ _ (live i) (there i) (List.mem_cons_self ..)
    · exact (done i).closed _ _ _ (live i) (there i)
        (List.mem_append_left _ (List.mem_cons_of_mem _ mem))
  | string age text => exact fun i => (done i).places _ _ (live i) (content i)

/-- Frozen objects stay frozen. -/
theorem World.Freezes.moved (matched : w.Matched) {ages : List Nat} {names : Names}
    (freezes : w.Freezes ages names) : (w.moved heap m kept).Freezes ages names := by
  refine ⟨freezes.1, ?_⟩
  rintro _ ⟨a, rel, live, rfl⟩
  obtain ⟨first, parent, there, lists⟩ := freezes.2 a rel
  refine ⟨fun i => m i (first i), fun i => m i (parent i),
    fun i => (done i).places _ _ (live i) (there i), lists.moved done matched fun i => ?_⟩
  exact (done i).kept_link (live i) (there i) (List.mem_cons_self ..)

theorem World.Matched.moved (matched : w.Matched)
    (sound : ∀ i, (e i).Sound (w.heap i) (w.scratch i)) : (w.moved heap m kept).Matched where
  origin := by
    refine ⟨fun _ => 0, matched.origin, fun i => (done i).live 0 (sound i).live_zero, ?_⟩
    funext i
    exact (done i).zero.symm
  unique := by
    rintro sh sh' _ _ i ⟨a, rel, live, rfl⟩ ⟨b, rel', live', rfl⟩ same
    have same := (done i).injective (live i) (live' i) same
    obtain ⟨rfl, rfl⟩ := matched.unique i rel rel' same
    exact ⟨rfl, rfl⟩
  order := by
    rintro sh sh' _ _ i ⟨a, rel, live, rfl⟩ ⟨b, rel', live', rfl⟩
    exact ((done i).lt_iff (live i) (live' i)).trans (matched.order i rel rel')
  counted := by
    rintro sh _ ⟨a, rel, -, -⟩
    exact matched.counted rel
  full := by
    intro lone i p en there
    obtain ⟨o, here, rfl⟩ := (done i).origins p en there
    obtain ⟨en', found⟩ := (done i).found o here
    obtain ⟨sh, a, rel, rfl⟩ := matched.full lone i o en' found
    refine ⟨sh, _, ⟨a, rel, fun j => ?_, rfl⟩, rfl⟩
    obtain rfl := Subsingleton.elim i j
    exact here
  content := by
    rintro sh _ ⟨a, rel, live, rfl⟩
    exact (matched.content rel).moved done matched live

/-- Cursors move along with the texts they read. -/
theorem World.Reads.moved (fits : w.Fits fun i => (e i).arena) {g : Ground} {t : Spot}
    {u : ι → Cursor} (reads : w.Reads (fun i => (e i).roots) g t u) :
    (w.moved heap m kept).Reads (fun i => (e i).roots.map (Value.move (m i))) g t
      fun i => k i (u i) := by
  have cursor := reads.cursor
  have lies := reads.lies
  unfold World.Lies at lies
  cases site : g.site with
  | host full start =>
    simp only [site] at lies
    have same : ∀ i, k i (u i) = u i := fun i => (done i).host _ _ _ (lies.1 i)
    refine ⟨fun i => ?_, ?_, reads.inside⟩
    · rw [same i]
      exact cursor i
    · simpa only [World.Lies, site, same] using lies
  | kept height d =>
    simp only [site] at lies
    obtain ⟨a, age, text, rel, anchored, origin, bound, content⟩ := lies
    have live : ∀ i, kept i (a i) := by
      intro i
      refine (done i).live _ (Collected.live_value (v := .ref .function (a i)) ?_ ?_)
      · exact List.mem_append_left _ (List.mem_cons_of_mem _ (anchored i).mem)
      · rw [Arena.valueLinks, if_pos (by rw [Value.isEntity, Value.kind_ref]; rfl),
          Value.offset_ref]
        exact List.mem_singleton_self _
    have whole : (Entity.string text).size = 4 + (text.size + 4) / 4 * 4 := rfl
    have moved : ∀ i, k i (u i) = { u i with origin := .arena ((m i (a i)).toNat + 4 + d) } := by
      intro i
      have there := fits.matched.content rel i
      rw [(done i).arena (u i) _ (a i) _ (origin i) (live i) there (by omega) (by omega)]
      congr 2
      omega
    refine ⟨fun i => ?_, ?_, reads.inside⟩
    · rw [moved i]
      conv => lhs; rw [cursor i]
      rfl
    · simp only [World.Lies, site]
      exact ⟨fun i => m i (a i), age, text, ⟨a, rel, live, rfl⟩, fun i => (anchored i).map (m i),
        fun i => by rw [moved i], bound, content⟩

/-- Engines that agree still agree when they hold what they held elsewhere. -/
theorem Alike.moved (alike : Alike w s c e)
    (sweeps : ∀ i, World.Sweeps (MayCollect ι) (w.heap i) (w.scratch i) (heap i) (m i) (kept i)) :
    Alike (w.moved heap m kept) s c e' := by
  choose deepest pending events registers using fun i => (done i).registers
  have value : ∀ {tag : Tag} {v : ι → Value}, w.Related tag v →
      (∀ i, v i ∈ (e i).result :: (e i).roots ++ w.scratch i) →
      (w.moved heap m kept).Related tag fun i => (v i).move (m i) :=
    fun related mem => related.moved fun i o link =>
      (done i).live o (Collected.live_value (mem i) link)
  have fits : (w.moved heap m kept).Fits fun i => (e' i).arena :=
    ⟨alike.fits.small, fun i => (done i).block.size_eq.trans (alike.fits.size i),
      fun i => (done i).sound.holds, fun i => (done i).sound.heap,
      alike.fits.matched.moved done alike.sound,
      fun w₀ start => (alike.fits.followed w₀ start).tail (.sweeps sweeps)⟩
  have limit : ∀ i, (e' i).arena.limit = s.limit i :=
    fun i => (done i).block.limit_eq.trans (alike.limit i)
  generalize hArena : (fun i => (e' i).arena) = arena at fits
  have arena_eq : ∀ i, (e' i).arena = arena i := fun i => congrFun hArena i
  simp only [arena_eq] at limit registers
  obtain rfl : e' = _ := funext registers
  exact {
    fits := fits
    limit := limit
    scope := ⟨_, alike.scope, fun i => (done i).live _ Collected.live_scope, rfl⟩
    pinned := by
      have pins := alike.pinned
      cases known : s.registers.pinned with
      | none =>
        rw [known] at pins
        have none : ∀ i, (e i).pinned = 0 := pins
        intro i
        show m i (e i).pinned = 0
        rw [none i]
        exact (done i).zero
      | some string =>
        rw [known] at pins
        refine ⟨_, pins, fun i => (done i).live _ (.root ?_), rfl⟩
        have nonzero := alike.fits.matched.ne_zero pins nofun i
        simp [rootOffsets, Entity.linkTo, nonzero]
    free := alike.free
    result := by
      obtain ⟨tag, related, plain⟩ := alike.result
      exact ⟨tag, value related fun i => by simp, plain⟩
    roots := by
      refine Listed.map (fun tag v h => ?_) alike.roots.attach
      exact value h.1 fun i => by simp [h.2 i]
    scratch := by
      refine Listed.map (fun tag v h => ?_) alike.scratch.attach
      exact ⟨value h.1.1 fun i => by simp [h.2 i], h.1.2⟩
    cursor := alike.cursor.moved done alike.fits
    suspended := Listed.map (fun f u reads => reads.moved done alike.fits) alike.suspended
    depth := alike.depth
    evaluations := alike.evaluations
    mode := alike.mode
    log := alike.log
    maxDepth := alike.maxDepth
    natives := alike.natives
    known := alike.known
    hosted := alike.hosted
    frozen := fun f mem => (alike.frozen f mem).moved done alike.fits.matched
    still := alike.still }

end

/-- Collections before a statement.  In a dry run there are none. -/
theorem Alike.collectIfDue (alike : Alike w s c e) (may : ∀ i, (e i).Due → MayCollect ι (e i)) :
    ∃ (w' : World ι) (e' : ι → Engine), (∀ i, Engine.collectIfDue (e i) = .ok ((), e' i))
      ∧ Alike w' s c e' ∧ (c.mode.dry = true → w.Le w') := by
  by_cases dry : c.mode.dry = true
  · refine ⟨w, e, fun i => ?_, alike, fun _ => .refl w⟩
    simp only [Engine.collectIfDue, Action.runs, alike.mode, dry, Bool.not_true, Bool.false_and]
    rfl
  · choose e' heap m k kept run done sweeps using fun i => (alike.sound i).collectIfDue_eq
    have sweeps := fun i => sweeps i (MayCollect ι) (may i)
    exact ⟨w.moved heap m kept, e', run, alike.moved done sweeps, fun h => absurd h dry⟩

end Lockstep

end ArenaScript
