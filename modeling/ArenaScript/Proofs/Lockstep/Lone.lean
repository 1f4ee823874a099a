import ArenaScript.Proofs.Lockstep.Sessions

/-!
# Engines on their own

A well-formed engine agrees with itself.  The world it stands in is read off its
heap: the age of an entity is its offset, since entities stand in the order of
their making.

Main definitions:

- `Engine.WellFormed`: an engine that is sound and reads texts that are there.
- `Heap.HasShape`: the shapes of the entities of a heap.

Main results:

- `Engine.WellFormed.exists_alike`: a well-formed engine agrees with itself.
- `Lockstep.Alike.wellFormed`: engines that agree are well formed.
-/

namespace ArenaScript

open Lockstep

/-! ## Well-formed engines -/

/-- The text of a cursor is that of a host, or it lies inside a string that a
function among some values keeps.  The place and the token are in it. -/
structure Heap.Shows (h : Heap) (roots : List Value) (k : Cursor) : Prop where
  pos : k.pos ≤ k.length
  token : k.tokenStart + k.tokenLength ≤ k.length
  number : k.number.kind = .number
  text : match k.origin with
    | .host full start => start + k.length ≤ full.size
    | .arena _ => ∃ o, .ref .function o ∈ roots ∧ h.Covers o k

/-- An engine that is sound and reads texts that are there, over a block in which no
string reaches the mark of a header. -/
def Engine.WellFormed (e : Engine) : Prop :=
  e.arena.bytes.size ≤ 2 ^ 29
    ∧ ∃ h scratch, e.Sound h scratch ∧ ∀ k ∈ e.cursor :: e.suspended, h.Shows e.roots k

/-! ## Shapes -/

namespace Heap

/-- The shape of the entity at an offset.  Ages are offsets. -/
inductive HasShape (h : Heap) : Shape → UInt32 → Prop
  | origin : HasShape h (.object []) 0
  | object {o first parent : UInt32} {ages : List Nat} (inner : o ≠ 0)
      (found : h.entity? o.toNat = some (.object first parent))
      (up : HasShape h (.object ages) parent) : HasShape h (.object (o.toNat :: ages)) o
  | last {o key : UInt32} {value : Value} {text : ByteArray}
      (found : h.entity? o.toNat = some (.property 0 key value))
      (string : h.entity? key.toNat = some (.string text)) :
      HasShape h (.property [(o.toNat, text)]) o
  | property {o next key : UInt32} {value : Value} {text : ByteArray} {names : Names}
      (found : h.entity? o.toNat = some (.property next key value)) (goesOn : next ≠ 0)
      (string : h.entity? key.toNat = some (.string text))
      (rest : HasShape h (.property names) next) :
      HasShape h (.property ((o.toNat, text) :: names)) o
  | string {o : UInt32} {text : ByteArray} (found : h.entity? o.toNat = some (.string text)) :
      HasShape h (.string o.toNat text) o

namespace HasShape

variable {h : Heap} {sh sh' : Shape} {o : UInt32}

theorem age_eq (shape : h.HasShape sh o) : sh.age = o.toNat := by
  cases shape <;> rfl

/-- An entity has one shape. -/
theorem unique (good : h.WellFormed) (shape : h.HasShape sh o) (shape' : h.HasShape sh' o) :
    sh = sh' := by
  obtain ⟨first₀, parent₀, start⟩ := good.origin
  induction shape generalizing sh' with
  | origin =>
    cases shape' with
    | origin => rfl
    | object inner => exact absurd rfl inner
    | last found => cases start.symm.trans found
    | property found => cases start.symm.trans found
    | string found => cases start.symm.trans found
  | object inner found _ ih =>
    cases shape' with
    | origin => exact absurd rfl inner
    | object _ found' up =>
      cases found.symm.trans found'
      rw [Shape.object.inj (ih up)]
    | last found' => cases found.symm.trans found'
    | property found' => cases found.symm.trans found'
    | string found' => cases found.symm.trans found'
  | last found string =>
    cases shape' with
    | origin => cases start.symm.trans found
    | object _ found' => cases found.symm.trans found'
    | last found' string' =>
      cases found.symm.trans found'
      cases string.symm.trans string'
      rfl
    | property found' goesOn =>
      cases found.symm.trans found'
      exact absurd rfl goesOn
    | string found' => cases found.symm.trans found'
  | property found goesOn string _ ih =>
    cases shape' with
    | origin => cases start.symm.trans found
    | object _ found' => cases found.symm.trans found'
    | last found' =>
      cases found.symm.trans found'
      exact absurd rfl goesOn
    | property found' _ string' rest =>
      cases found.symm.trans found'
      cases string.symm.trans string'
      rw [Shape.property.inj (ih rest)]
    | string found' => cases found.symm.trans found'
  | string found =>
    cases shape' with
    | origin => cases start.symm.trans found
    | object _ found' => cases found.symm.trans found'
    | last found' => cases found.symm.trans found'
    | property found' => cases found.symm.trans found'
    | string found' =>
      cases found.symm.trans found'
      rfl

end HasShape

namespace WellFormed

variable {h : Heap}

/-- Every object has a shape; the induction follows the scopes around it, which
stand below it. -/
theorem exists_ages (good : h.WellFormed) {o : UInt32} (there : h.IsObject o) :
    ∃ ages, h.HasShape (.object ages) o := by
  induction rank : o.toNat using Nat.strongRecOn generalizing o with
  | ind n ih =>
    obtain ⟨first, parent, found⟩ := there
    obtain ⟨-, above, order⟩ := good.admits o _ found
    by_cases top : o = 0
    · exact ⟨[], top ▸ .origin⟩
    · have lower := order.resolve_right fun both => top both.1
      rw [UInt32.lt_iff_toNat_lt] at lower
      obtain ⟨ages, up⟩ := ih parent.toNat (rank ▸ lower) above rfl
      exact ⟨_, .object top found up⟩

/-- Every property has a shape; the induction follows its list downwards. -/
theorem exists_names (good : h.WellFormed) {o : UInt32} (there : h.IsProperty o) :
    ∃ names, h.HasShape (.property names) o := by
  induction rank : o.toNat using Nat.strongRecOn generalizing o with
  | ind n ih =>
    obtain ⟨next, key, value, found⟩ := there
    obtain ⟨link, ⟨⟨text, string⟩, -⟩, -⟩ := good.admits o _ found
    by_cases ends : next = 0
    · exact ⟨_, .last (ends ▸ found) string⟩
    · obtain ⟨below, lower⟩ := link.resolve_left ends
      rw [UInt32.lt_iff_toNat_lt] at lower
      obtain ⟨names, rest⟩ := ih next.toNat (rank ▸ lower) below rfl
      exact ⟨_, .property found ends string rest⟩

theorem exists_shape (good : h.WellFormed) {o : UInt32} {e : Entity}
    (found : h.entity? o.toNat = some e) : ∃ sh, h.HasShape sh o := by
  cases e with
  | object first parent =>
    obtain ⟨ages, shape⟩ := good.exists_ages ⟨first, parent, found⟩
    exact ⟨_, shape⟩
  | property next key value =>
    obtain ⟨names, shape⟩ := good.exists_names ⟨next, key, value, found⟩
    exact ⟨_, shape⟩
  | string text => exact ⟨_, .string found⟩

end WellFormed

end Heap

/-! ## The world of a heap -/

namespace Lockstep

/-- The world of one heap: its entities have their shapes. -/
def World.ofHeap (size : Nat) (h : Heap) (scratch : List Value) : World Unit where
  size := size
  heap := fun _ => h
  scratch := fun _ => scratch
  made := 2 ^ 32
  rel := fun sh a => h.HasShape sh (a ())

section

variable (size : Nat) {h : Heap} (scratch : List Value)

theorem World.ofHeap_rel {size : Nat} {scratch : List Value} {sh : Shape} {o : UInt32}
    (shape : h.HasShape sh o) :
    (World.ofHeap size h scratch).rel sh fun _ => o := shape

/-- Links lead nowhere, or to a property. -/
theorem World.ofHeap_link (good : h.WellFormed) {o : UInt32} (link : o = 0 ∨ h.IsProperty o) :
    (World.ofHeap size h scratch).Link fun _ => o := by
  rcases link with zero | there
  · exact .inl fun _ => zero
  · obtain ⟨names, shape⟩ := good.exists_names there
    exact .inr ⟨names, shape⟩

variable [Rules Unit]

variable (lax : ¬ Strict Unit)
include lax

/-- Values that refer to entities of their kinds have tags. -/
theorem World.ofHeap_related (good : h.WellFormed) {v : Value} (typed : h.Types v) :
    ∃ tag : Tag, (World.ofHeap size h scratch).Related tag fun _ => v := by
  obtain ⟨canonical, there⟩ := typed
  by_cases entity : v.isEntity = true
  · have eq := canonical entity
    cases kind : v.kind with
    | object =>
      rw [kind] at there eq
      obtain ⟨ages, shape⟩ := good.exists_ages there
      exact ⟨.object ages, _, ofHeap_rel shape, fun _ => eq⟩
    | property =>
      rw [kind] at there eq
      obtain ⟨names, shape⟩ := good.exists_names there
      exact ⟨.property names, _, ofHeap_rel shape, fun _ => eq⟩
    | string =>
      rw [kind] at there eq
      obtain ⟨text, found⟩ := there
      exact ⟨.string v.offset.toNat text, _, ofHeap_rel (.string found), fun _ => eq⟩
    | function =>
      rw [kind] at there eq
      obtain ⟨text, found⟩ := there
      exact ⟨.function v.offset.toNat text, ⟨_, ofHeap_rel (.string found), fun _ => eq⟩,
        fun strict => absurd strict lax⟩
    | _ => simp only [Value.isEntity, kind, Kind.isEntity, Bool.false_eq_true] at entity
  · exact ⟨.other v, Bool.eq_false_iff.mpr entity, fun _ => rfl⟩

/-- The value of a property has a plain tag. -/
theorem World.ofHeap_plain (good : h.WellFormed) {v : Value} (typed : h.Types v)
    (plain : v.IsPlain) :
    ∃ tag : Tag, (World.ofHeap size h scratch).Related tag (fun _ => v) ∧ tag.IsPlain := by
  obtain ⟨tag, related⟩ := ofHeap_related size scratch lax good typed
  refine ⟨tag, related, ?_⟩
  rw [Tag.IsPlain, ← related.kind ()]
  exact plain

/-- The entities of a well-formed heap hold what their shapes say. -/
theorem World.ofHeap_content (good : h.WellFormed) {sh : Shape} {o : UInt32}
    (shape : h.HasShape sh o) : (World.ofHeap size h scratch).Content sh fun _ => o := by
  cases shape with
  | origin =>
    obtain ⟨first, parent, found⟩ := good.origin
    obtain ⟨link, -, order⟩ := good.admits 0 _ found
    have top : parent = 0 := order.elim (fun lower => absurd lower UInt32.not_lt_zero) And.right
    exact ⟨_, _, fun _ => found, ofHeap_link size scratch good link, top ▸ ofHeap_rel .origin⟩
  | object inner found up =>
    obtain ⟨link, -⟩ := good.admits _ _ found
    exact ⟨_, _, fun _ => found, ofHeap_link size scratch good link, ofHeap_rel up⟩
  | last found string =>
    obtain ⟨-, -, typed, plain⟩ := good.admits _ _ found
    obtain ⟨tag, related, plain⟩ := ofHeap_plain size scratch lax good typed plain
    exact ⟨_, _, _, _, _, tag, fun _ => found, rfl, fun _ => rfl, ofHeap_rel (.string string),
      related, plain⟩
  | @property o next key value text names found goesOn string rest =>
    obtain ⟨-, -, typed, plain⟩ := good.admits _ _ found
    obtain ⟨tag, related, plain⟩ := ofHeap_plain size scratch lax good typed plain
    refine ⟨_, _, _, _, _, tag, fun _ => found, rfl, ?_, ofHeap_rel (.string string), related, plain⟩
    cases names with
    | nil => cases rest
    | cons name names => exact ofHeap_rel rest
  | string found => exact fun _ => found

theorem World.ofHeap_matched (good : h.WellFormed) : (World.ofHeap size h scratch).Matched where
  origin := .origin
  unique := by
    intro sh sh' a b _ shape shape' same
    have shape : h.HasShape sh (a ()) := shape
    have shape' : h.HasShape sh' (b ()) := shape'
    rw [← same] at shape'
    exact ⟨shape.unique good shape', funext fun _ => same⟩
  order := by
    intro sh sh' a b _ shape shape'
    rw [shape.age_eq, shape'.age_eq]
    exact UInt32.lt_iff_toNat_lt
  counted := by
    intro sh a shape
    rw [shape.age_eq]
    exact UInt32.toNat_lt _
  full := by
    intro _ _ o en found
    obtain ⟨sh, shape⟩ := good.exists_shape found
    exact ⟨sh, fun _ => o, shape, rfl⟩
  content := World.ofHeap_content size scratch lax good

end

/-- Members that each have a property on their own. -/
theorem Listed.exists {α β : Type} {P : α → (Unit → β) → Prop} {vs : List β}
    (each : ∀ v ∈ vs, ∃ x, P x fun _ => v) : ∃ xs, Listed P xs fun _ => vs := by
  induction vs with
  | nil => exact ⟨[], fun _ => rfl⟩
  | cons v vs ih =>
    obtain ⟨x, head⟩ := each v (List.mem_cons_self ..)
    obtain ⟨xs, tail⟩ := ih fun v mem => each v (List.mem_cons_of_mem _ mem)
    exact ⟨x :: xs, .cons head tail⟩

/-- The place of a cursor. -/
def Spot.ofCursor (k : Cursor) : Spot where
  pos := k.pos
  tokenStart := k.tokenStart
  tokenLength := k.tokenLength
  token := k.token
  consumed := k.consumed
  number := k.number

/-- A cursor whose text is there reads it. -/
theorem World.exists_reads [Rules Unit] (lax : ¬ Strict Unit) (size : Nat) {h : Heap}
    (scratch : List Value) {roots : List Value} {k : Cursor} (shows : h.Shows roots k) :
    ∃ f : Ground × Spot,
      (World.ofHeap size h scratch).Reads (fun _ => roots) f.1 f.2 fun _ => k := by
  have inside : ∀ n, k.length = n → (Spot.ofCursor k).Inside n := by
    rintro _ rfl
    exact ⟨shows.pos, shows.token, shows.number⟩
  have cursor : ∀ n, k.length = n → k = (Spot.ofCursor k).cursor k.origin n := by
    rintro _ rfl
    rfl
  have there := shows.text
  cases origin : k.origin with
  | host full start =>
    rw [origin] at there
    obtain ⟨text, content, size⟩ : ∃ text, full.extract start (start + k.length) = text
        ∧ k.length = text.size := ⟨_, rfl, by rw [ByteArray.size_extract]; omega⟩
    rw [size] at there content
    exact ⟨(⟨text, .host full start⟩, .ofCursor k), fun _ => cursor _ size,
      ⟨fun _ => origin, ⟨rfl, there, content⟩, fun strict => absurd strict lax⟩, inside _ size⟩
  | arena start =>
    rw [origin] at there
    obtain ⟨o, held, start', text, origin', found, low, high⟩ := there
    obtain ⟨upper, lower, rfl⟩ := List.append_of_mem held
    obtain rfl : start = start' := Origin.arena.inj (origin.symm.trans origin')
    obtain ⟨d, rfl⟩ : ∃ d, start = o.toNat + 4 + d := ⟨start - (o.toNat + 4), by omega⟩
    obtain ⟨part, content, size⟩ : ∃ part, text.extract d (d + k.length) = part
        ∧ k.length = part.size := ⟨_, rfl, by rw [ByteArray.size_extract]; omega⟩
    rw [size] at high content
    exact ⟨(⟨part, .kept lower.length d⟩, .ofCursor k), fun _ => cursor _ size,
      ⟨fun _ => o, o.toNat, text, ofHeap_rel (.string found), fun _ => ⟨upper, lower, rfl, rfl⟩,
        fun _ => origin, by dsimp only; omega, content⟩, inside _ size⟩

/-- The rules for an engine that has no natives. -/
abbrev quietRules : Rules Unit where
  strict := False
  hosted := False
  lone := fun h => h.elim False.elim False.elim

end Lockstep

namespace Engine.WellFormed

variable {e : Engine}

/-- A well-formed engine agrees with itself, and none of its objects need be frozen. -/
theorem exists_alike [Rules Unit] (lax : ¬ Strict Unit) (unfollowed : Unfollowed Unit)
    (good : e.WellFormed) (hosted : e.natives = #[] ∨ Hosted Unit) :
    ∃ (w : World Unit) (s : Standing Unit) (c : Current),
      s.frozen = [] ∧ Alike w s c fun _ => e := by
  obtain ⟨small, h, scratch, sound, shows⟩ := good
  let w := World.ofHeap e.arena.bytes.size h scratch
  have matched : w.Matched := World.ofHeap_matched _ _ lax sound.heap
  obtain ⟨ages, scope⟩ := sound.heap.exists_ages sound.scope
  obtain ⟨result, related, plain⟩ : ∃ tag : Tag, w.Related tag (fun _ => e.result) ∧ tag.IsPlain :=
    World.ofHeap_plain _ _ lax sound.heap sound.result.1 sound.result.2
  obtain ⟨roots, listed⟩ : ∃ tags, Listed w.Related tags fun _ => e.roots :=
    Listed.exists fun v mem => World.ofHeap_related _ _ lax sound.heap (sound.roots v mem)
  obtain ⟨words, pushed⟩ : ∃ tags, Listed (fun tag v => w.Related tag v ∧ tag.IsPlain) tags
      fun _ => scratch := Listed.exists fun v mem =>
    World.ofHeap_plain _ _ lax sound.heap (sound.scratch v mem).1 (sound.scratch v mem).2
  obtain ⟨here, reads⟩ := World.exists_reads lax e.arena.bytes.size scratch
    (shows e.cursor (List.mem_cons_self ..))
  obtain ⟨suspended, others⟩ : ∃ fs, Listed
      (fun (f : Ground × Spot) => w.Reads (fun _ => e.roots) f.1 f.2) fs fun _ => e.suspended :=
    Listed.exists fun k mem => World.exists_reads lax _ _ (shows k (List.mem_cons_of_mem _ mem))
  obtain ⟨pinned, pins⟩ : ∃ known, w.Pins known fun _ => e.pinned := by
    rcases sound.pinned with nothing | ⟨text, found⟩
    · exact ⟨none, fun _ => nothing⟩
    · exact ⟨some (_, text), World.ofHeap_rel (.string found)⟩
  let s : Standing Unit :=
    { registers := ⟨ages, pinned, none⟩
      ground := here.1
      roots := roots
      scratch := words
      suspended := suspended
      depth := e.depth
      evaluations := e.evaluations
      limit := fun _ => e.arena.limit
      natives := []
      frozen := [] }
  exact ⟨w, s, ⟨e.mode, e.log, e.maxDepth, e.natives, here.2⟩, rfl, {
    fits := ⟨small, fun _ => rfl, fun _ => sound.holds, fun _ => sound.heap, matched,
      w.followed_of_unfollowed unfollowed⟩
    limit := fun _ => rfl
    scope := scope
    pinned := pins
    result := ⟨result, related, plain, nofun⟩
    free := fun _ => rfl
    roots := listed
    scratch := pushed
    cursor := reads
    suspended := others
    depth := fun _ => rfl
    evaluations := fun _ => rfl
    mode := fun _ => rfl
    log := fun _ => rfl
    maxDepth := fun _ => rfl
    natives := fun _ => rfl
    known := List.nil_prefix
    hosted := hosted
    frozen := nofun
    still := .inl rfl }⟩

end Engine.WellFormed

namespace Lockstep

variable {ι : Type} [Rules ι] {w : World ι} {s : Standing ι} {c : Current} {e : ι → Engine}

/-- The text of a cursor that reads with others is there. -/
theorem World.Reads.covered {arena : ι → Arena} (fits : w.Fits arena) {roots : ι → List Value}
    {g : Ground} {t : Spot} {k : ι → Cursor} (reads : w.Reads roots g t k) (i : ι) :
    (w.heap i).Shows (roots i) (k i) := by
  have cursor := reads.cursor i
  have length : (k i).length = g.text.size := by
    rw [cursor]
    rfl
  have lies := reads.lies
  refine ⟨?_, ?_, ?_, ?_⟩
  · rw [cursor]
    exact reads.inside.pos
  · rw [cursor]
    exact reads.inside.token
  · rw [cursor]
    exact reads.inside.number
  · unfold World.Lies at lies
    cases site : g.site with
    | host full start =>
      simp only [site] at lies
      obtain ⟨origin, shown, -⟩ := lies
      rw [origin i, length]
      exact shown.inside
    | kept height d =>
      simp only [site] at lies
      obtain ⟨a, age, text, rel, anchored, origin, inside, -⟩ := lies
      rw [origin i]
      exact ⟨a i, (anchored i).mem, _, text, origin i, fits.matched.content rel i, by omega,
        by omega⟩

/-- Engines that agree are well formed. -/
theorem Alike.wellFormed (alike : Alike w s c e) (i : ι) : (e i).WellFormed := by
  refine ⟨alike.fits.size_le i, w.heap i, w.scratch i, alike.sound i, fun k mem => ?_⟩
  rcases List.mem_cons.mp mem with rfl | mem
  · exact alike.cursor.covered alike.fits i
  · obtain ⟨f, k', reads, rfl⟩ := alike.suspended.mem mem
    exact reads.covered alike.fits i

end Lockstep

theorem Engine.initial_wellFormed {length : Nat} (small : length ≤ 2 ^ 29) (room : 8 ≤ length) :
    (Engine.initial length).WellFormed :=
  (Alike.initial unfollowed small room (fun _ => _) 0 fun _ => false).wellFormed ()

end ArenaScript
