import Mathlib.Data.List.Forall2
import ArenaScript.Proofs.Lockstep.Sessions

/-!
# Evaluations are balanced

However an evaluation ends, it leaves an engine as it found it: the mode, the
nesting, the number of evaluations and the room for entities are the same, and
so is all that the registers, the stacks and the cursors hold.  Only collections
in the course of the evaluation may have moved the entities, and then everything
that refers to them has moved along.

The entities an engine holds before and after an evaluation correspond by their
ages, which a run of the engine on its own keeps track of.

Main definitions:

- `Production.Collects`: the collections in the course of a production.
- `Engine.Passage`: where such collections have taken the entities of an engine.
- `Engine.Balanced`: what an engine holds is the same, wherever it has been taken.
- `Engine.Idle`: nothing is under way.

Main results:

- `Lockstep.World.Matched.exists_descends`: entities of the same age are those that
  collections have taken from one offset to the other.
- `Lockstep.Alike.balanced`: engines with the same standing are balanced.
- `Lockstep.Alike.idle`: between the requests of a session nothing is under way.
-/

namespace ArenaScript

/-! ## Collections in the course of a run -/

/-- A collection takes place on an engine in the course of a production: before a
statement, if it is due, or at the request of a native outside of all evaluations. -/
def Production.Collects (q : Production) (e e₁ : Engine) : Prop :=
  q.Within e .statement e₁ ∧ e₁.Due ∨
    ∃ index count e' p e'' next, q.Within e (.pushArguments index count) e'
      ∧ e'.CallsNative index count p e''
      ∧ p.Comes e''.arena.limit count.toNat e'' (.collect next) e₁ ∧ e₁.evaluations = 0

/-- A collection takes place in the course of a routine. -/
def Progress.Collects {α : Type} (p : Progress α) (e₁ : Engine) : Prop :=
  ∃ q e, p.Asks q e ∧ q.Collects e e₁

/-- The heaps and the scratch words of two engines, with the offsets where entities
stood and stand.  Only collections of some engines have moved them. -/
structure Engine.Passage (collects : Engine → Prop) (e e' : Engine) where
  heap : Heap
  words : List Value
  sound : e.Sound heap words
  heap' : Heap
  words' : List Value
  sound' : e'.Sound heap' words'
  path : UInt32 → UInt32 → Prop
  descends : heap.Descends collects heap' path

/-! ## Moved entities -/

/-- A value that refers to an entity goes where it goes; others stay as they are. -/
def Value.Moved (path : UInt32 → UInt32 → Prop) (v v' : Value) : Prop :=
  if v.isEntity then ∃ o, path v.offset o ∧ v' = .ref v.kind o else v' = v

/-- A cursor over a text of the host stays as it is; a cursor over a text inside a
string goes where the string goes. -/
def Cursor.Moved (h : Heap) (path : UInt32 → UInt32 → Prop) (u u' : Cursor) : Prop :=
  match u.origin with
  | .host _ _ => u' = u
  | .arena start => ∃ o text o', h.entity? o.toNat = some (.string text) ∧ path o o'
      ∧ o.toNat + 4 ≤ start ∧ start + u.length ≤ o.toNat + 4 + text.size
      ∧ u' = { u with origin := .arena (start - o.toNat + o'.toNat) }

/-- An engine holds what another one did, in the same mode.  Collections of some
engines may have moved it. -/
structure Engine.Balanced (collects : Engine → Prop) (e e' : Engine) : Prop where
  mode : e'.mode = e.mode
  depth : e'.depth = e.depth
  evaluations : e'.evaluations = e.evaluations
  limit : e'.arena.limit = e.arena.limit
  /-- What is held is the same, wherever it stands. -/
  held : ∃ r : e.Passage collects e', r.path e.scope e'.scope ∧ r.path e.pinned e'.pinned
    ∧ Value.Moved r.path e.result e'.result
    ∧ List.Forall₂ (Value.Moved r.path) e.roots e'.roots
    ∧ List.Forall₂ (Value.Moved r.path) r.words r.words'
    ∧ Cursor.Moved r.heap r.path e.cursor e'.cursor
    ∧ List.Forall₂ (Cursor.Moved r.heap r.path) e.suspended e'.suspended

/-- Nothing is under way. -/
structure Engine.Idle (e : Engine) : Prop where
  scope : e.scope = 0
  mode : e.mode = {}
  roots : e.roots = []
  suspended : e.suspended = []
  /-- The scratch stack is empty. -/
  limit : e.arena.limit = e.arena.top

namespace Lockstep

/-! ## Following entities -/

section

variable {ι : Type} [rules : Rules ι] {w : World ι} {s : Standing ι} {c : Current}
  {e : ι → Engine} {may : Engine → Prop}

theorem World.Matched.following (matched : w.Matched) (w₀ : World ι) (may : Engine → Prop) :
    @World.Matched ι (rules.following w₀ may) w := by
  obtain ⟨origin, unique, order, counted, full, content⟩ := matched
  let := rules.following w₀ may
  exact ⟨origin, unique, order, counted, full, content⟩

theorem World.Reads.following {roots : ι → List Value} {g : Ground} {t : Spot} {k : ι → Cursor}
    (reads : w.Reads roots g t k) (w₀ : World ι) (may : Engine → Prop) :
    @World.Reads ι (rules.following w₀ may) w roots g t k := by
  obtain ⟨cursor, lies, inside⟩ := reads
  let := rules.following w₀ may
  exact ⟨cursor, lies, inside⟩

/-- Entities can be followed from any world on. -/
theorem Alike.following (alike : Alike w s c e) (may : Engine → Prop) :
    @Alike ι (rules.following w may) w s c e := by
  have matched := alike.fits.matched.following w may
  have cursor := alike.cursor.following w may
  have suspended := alike.suspended.mono fun _ _ _ reads => reads.following w may
  obtain ⟨⟨small, size, holds, good, -, -⟩, limit, scope, pinned, result, free, roots, scratch, -, -,
    depth, evaluations, mode, log, maxDepth, natives, known, hosted, frozen, still⟩ := alike
  let := rules.following w may
  have fits : w.Fits fun i => (e i).arena :=
    ⟨small, size, holds, good, matched, fun _ start => Option.some.inj start ▸ .refl⟩
  exact ⟨fits, limit, scope, pinned, result, free, roots, scratch, cursor, suspended, depth,
    evaluations, mode, log, maxDepth, natives, known, hosted, frozen, still⟩

theorem Ready.following {q : ι → Production} {role : Role ι} (ready : Ready w s c q role)
    (w₀ : World ι) (may : Engine → Prop) :
    @Ready ι (rules.following w₀ may) w s c q role := by
  let := rules.following w₀ may
  cases ready with
  | expression => exact .expression
  | assignment deep => exact .assignment deep
  | assignmentRest deep related operand => exact .assignmentRest deep related operand
  | conditional deep => exact .conditional deep
  | logical deep op => exact .logical deep op
  | logicalRest deep op mode related operand dry free =>
    exact .logicalRest deep op mode related operand dry free
  | binary deep level => exact .binary deep level
  | binaryRest deep level related operand => exact .binaryRest deep level related operand
  | unary deep => exact .unary deep
  | access deep => exact .access deep
  | accessRest deep related operand => exact .accessRest deep related operand
  | members roots object => exact .members roots object
  | parameters afterComma => exact .parameters afterComma
  | argumentList afterComma dry => exact .argumentList afterComma dry
  | bindParameters pos roots leads spares => exact .bindParameters pos roots leads spares
  | pushArguments index count hosted enough known =>
    exact .pushArguments index count hosted enough known
  | statement isOpen => exact .statement isOpen
  | block inScope isOpen => exact .block inScope isOpen
  | blockRest related plain isOpen => exact .blockRest related plain isOpen
  | bindings execute spares => exact .bindings execute spares
  | rounds mode marks dry free inside returned behind isOpen =>
    exact .rounds mode marks dry free inside returned behind isOpen
  | script related plain isOpen => exact .script related plain isOpen
  | evaluate text small spares => exact .evaluate text small spares

/-- Nothing goes wrong either while entities are followed, if all engines that collect
may. -/
theorem Calm.following {q : Production} {e : Engine} (calm : Calm ι q e) (w : World ι)
    (all : ∀ e₁, q.Collects e e₁ → may e₁) : @Calm ι (rules.following w may) q e := by
  obtain ⟨keeps, room, -⟩ := calm
  refine @Calm.mk ι (rules.following w may) q e ?_ room fun e₁ within due =>
    all e₁ (.inl ⟨within, due⟩)
  intro hosted index count e' p e₁ within calls p' e₂ comes
  obtain ⟨fair, prudent, -⟩ := keeps hosted index count e' p e₁ within calls p' e₂ comes
  refine @Rule.mk ι (rules.following w may) e₂ p' fair prudent fun next eq idle => ?_
  exact all e₂ (.inr ⟨index, count, e', p, e₁, next, within, calls, eq ▸ comes, idle⟩)

end

/-! ## Entities of the same age -/

namespace World

variable [Rules Unit] {w w' : World Unit} {a a' : Arena} {o o' o'' : UInt32}

/-- The entities at two offsets have the same shape. -/
def Succeeds (w w' : World Unit) (o o' : UInt32) : Prop :=
  ∃ sh, w.rel sh (fun _ => o) ∧ w'.rel sh fun _ => o'

/-- Entities of the same age are those that steps have led from one to the other; the
induction is on the steps. -/
theorem Matched.exists_descends (matched : w.Matched) (leads : Relation.ReflTransGen Step w w') :
    w.made ≤ w'.made ∧ ∃ path, (w.heap ()).Descends (MayCollect Unit) (w'.heap ()) path
      ∧ (∀ o o', w.Succeeds w' o o' → path o o')
      ∧ ∀ o o' en, path o o' → (w.heap ()).entity? o.toNat = some en → w.Succeeds w' o o' := by
  induction leads with
  | refl =>
    refine ⟨Nat.le_refl _, _, .start, ?_, ?_⟩
    · rintro o o' ⟨sh, rel, rel'⟩
      exact congrFun (matched.eq_of_age rel' rel rfl) ()
    · intro o o' en same found
      obtain rfl : o' = o := same
      obtain ⟨sh, a, rel, rfl⟩ := matched.full inferInstance () o' en found
      exact ⟨sh, rel, rel⟩
  | @tail w₁ _ _ step ih =>
    obtain ⟨made, path, descends, onto, back⟩ := ih
    cases step with
    | alters alters =>
      refine ⟨Nat.le_trans made alters.made, path, .alter descends (alters.heap ()), ?_, ?_⟩
      · rintro o o' ⟨sh, rel, rel'⟩
        exact onto o o' ⟨sh, rel,
          alters.old sh _ (Nat.lt_of_lt_of_le (matched.counted rel) made) rel'⟩
      · intro o o' en here found
        obtain ⟨sh, rel, rel'⟩ := back o o' en here found
        exact ⟨sh, rel, alters.le sh _ rel'⟩
    | @sweeps heap m kept each =>
      have each := each ()
      refine ⟨made, ?_⟩
      generalize hm : m () = f at each
      generalize hk : kept () = stays at each
      have moved : ∀ {o o'}, w.Succeeds (w₁.moved heap m kept) o o' →
          ∃ p, path o p ∧ stays p ∧ o' = f p := by
        rintro o o' ⟨sh, rel, a, rel', live, eq⟩
        exact ⟨a (), onto _ _ ⟨sh, rel, rel'⟩, hk ▸ live (), hm ▸ congrFun eq ()⟩
      have succeeds : ∀ {o p en}, path o p → stays p → (w.heap ()).entity? o.toNat = some en →
          w.Succeeds (w₁.moved heap m kept) o (f p) := by
        intro o p en here live found
        obtain ⟨sh, rel, rel'⟩ := back o p en here found
        exact ⟨sh, rel, _, rel', fun _ => hk ▸ live, funext fun _ => hm ▸ rfl⟩
      show ∃ path, (w.heap ()).Descends (MayCollect Unit) (heap ()) path ∧ _
      generalize heap () = h' at each
      cases each with
      | none =>
        refine ⟨path, descends, fun o o' here => ?_, fun o o' en here found => ?_⟩
        · obtain ⟨p, here, -, rfl⟩ := moved here
          exact here
        · exact succeeds here (descends.found here found) found
      | one allowed sound run done =>
        exact ⟨_, .collect descends allowed sound run done, fun o o' here => moved here,
          fun o o' en ⟨p, here, live, eq⟩ found => eq ▸ succeeds here live found⟩

end World

/-! ## What engines hold -/

section

variable [rules : Rules Unit] {w w' : World Unit} {path : UInt32 → UInt32 → Prop}

/-- Values with one tag. -/
theorem World.Related.succeeds (onto : ∀ o o', w.Succeeds w' o o' → path o o')
    {tag : Tag} {v v' : Value} (related : w.Related tag fun _ => v)
    (related' : w'.Related tag fun _ => v') : Value.Moved path v v' := by
  have refers : ∀ {kind : Kind} {sh : Shape}, kind.isEntity = true →
      w.Refers kind sh (fun _ => v) → w'.Refers kind sh (fun _ => v') → Value.Moved path v v' := by
    rintro kind sh entity ⟨a, rel, eq⟩ ⟨a', rel', eq'⟩
    obtain rfl : v = .ref kind (a ()) := eq ()
    obtain rfl : v' = .ref kind (a' ()) := eq' ()
    rw [Value.Moved, Value.isEntity, Value.kind_ref, if_pos entity, Value.offset_ref]
    exact ⟨a' (), onto _ _ ⟨sh, rel, rel'⟩, rfl⟩
  cases tag with
  | object ages => exact refers rfl related related'
  | property age => exact refers rfl related related'
  | string age text => exact refers rfl related related'
  | function age text => exact refers rfl related.1 related'.1
  | other x =>
    obtain ⟨bare, eq⟩ := related
    obtain rfl : v = x := eq ()
    obtain rfl : v' = v := related'.2 ()
    rw [Value.Moved, bare]
    exact rfl

omit rules in
/-- Lists that correspond to one list. -/
theorem Listed.forall₂ {α β : Type} {P P' : α → (Unit → β) → Prop} {R : β → β → Prop}
    (step : ∀ x v v', P x (fun _ => v) → P' x (fun _ => v') → R v v') {xs : List α}
    {vs vs' : List β} (listed : Listed P xs fun _ => vs) (listed' : Listed P' xs fun _ => vs') :
    List.Forall₂ R vs vs' := by
  induction xs generalizing vs vs' with
  | nil =>
    rw [show vs = [] from listed (), show vs' = [] from listed' ()]
    exact .nil
  | cons x xs ih =>
    obtain ⟨v, rest, eq, head, tail⟩ := listed
    obtain ⟨v', rest', eq', head', tail'⟩ := listed'
    rw [show vs = v () :: rest () from eq (), show vs' = v' () :: rest' () from eq' ()]
    exact .cons (step x _ _ head head') (ih tail tail')

omit rules in
/-- Values at one height of two stacks. -/
theorem forall₂_middle {α : Type} {R : α → α → Prop} {x x' : α} {upper lower upper' lower' : List α}
    (related : List.Forall₂ R (upper ++ x :: lower) (upper' ++ x' :: lower'))
    (height : lower.length = lower'.length) : R x x' := by
  induction upper generalizing upper' with
  | nil =>
    cases upper' with
    | nil => cases related; assumption
    | cons u' upper' =>
      have length := related.length_eq
      simp only [List.nil_append, List.cons_append, List.length_cons, List.length_append] at length
      omega
  | cons u upper ih =>
    cases upper' with
    | nil =>
      have length := related.length_eq
      simp only [List.nil_append, List.cons_append, List.length_cons, List.length_append] at length
      omega
    | cons u' upper' =>
      cases related with
      | cons _ rest => exact ih rest

/-- Cursors at one place of one text. -/
theorem World.Reads.succeeds (matched : w.Matched) {roots roots' : List Value}
    (held : List.Forall₂ (Value.Moved path) roots roots')
    {g : Ground} {t : Spot} {u u' : Cursor} (reads : w.Reads (fun _ => roots) g t fun _ => u)
    (reads' : w'.Reads (fun _ => roots') g t fun _ => u') :
    Cursor.Moved (w.heap ()) path u u' := by
  have here := reads.cursor ()
  have there := reads'.cursor ()
  have lies := reads.lies
  have lies' := reads'.lies
  have same : u' = { u with origin := u'.origin } := by
    rw [there, here]
    rfl
  have length : u.length = g.text.size := by
    rw [here]
    rfl
  unfold World.Lies at lies lies'
  cases site : g.site with
  | host full start =>
    simp only [site] at lies lies'
    have origin := lies.1 ()
    have origin' := lies'.1 ()
    simp only [Cursor.Moved, origin]
    rw [same, origin', ← origin]
  | kept height d =>
    simp only [site] at lies lies'
    obtain ⟨o, age, text, rel, anchored, origin, inside, -⟩ := lies
    obtain ⟨o', -, -, -, anchored', origin', -⟩ := lies'
    obtain ⟨upper, lower, rfl, low⟩ := anchored ()
    obtain ⟨upper', lower', rfl, low'⟩ := anchored' ()
    have goes := forall₂_middle held (low.trans low'.symm)
    have entity : (Value.ref .function (o ())).isEntity = true := by
      rw [Value.isEntity, Value.kind_ref]
      rfl
    rw [Value.Moved, if_pos entity, Value.offset_ref] at goes
    obtain ⟨p, goes, eq⟩ := goes
    have moved : o' () = p := by
      rw [← Value.offset_ref .function (o' ()), eq, Value.offset_ref]
    simp only [Cursor.Moved, origin ()]
    refine ⟨o (), text, o' (), matched.content rel (), moved ▸ goes, by omega, by omega, ?_⟩
    rw [same, origin' ()]
    congr 2
    omega

/-- What engines hold that agree with themselves in two worlds, if entities have been
followed from the first to the second. -/
theorem Alike.exists_passage {s s' : Standing Unit} {c c' : Current} {e e' : Engine}
    (start : Rules.start = some w) (alike : Alike w s c fun _ => e)
    (alike' : Alike w' s' c' fun _ => e') :
    ∃ r : e.Passage (MayCollect Unit) e', r.heap = w.heap () ∧ r.words = w.scratch ()
      ∧ r.words' = w'.scratch () ∧ (∀ o o', w.Succeeds w' o o' → r.path o o')
      ∧ ∀ o o' en, r.path o o' → (w.heap ()).entity? o.toNat = some en → w.Succeeds w' o o' := by
  obtain ⟨-, path, descends, onto, back⟩ :=
    alike.fits.matched.exists_descends (alike'.fits.followed w start)
  exact ⟨⟨_, _, alike.sound (), _, _, alike'.sound (), path, descends⟩, rfl, rfl, rfl, onto, back⟩

/-- Engines with the same standing hold the same. -/
theorem Alike.balanced {s : Standing Unit} {c c' : Current} {e e' : Engine} {result : Tag}
    (start : Rules.start = some w) (alike : Alike w s c fun _ => e)
    (alike' : Alike w' s c' fun _ => e') (mode : c'.mode = c.mode) (spot : c'.spot = c.spot)
    (before : w.Related result fun _ => e.result) (after : w'.Related result fun _ => e'.result) :
    e.Balanced (MayCollect Unit) e' where
  mode := (alike'.mode ()).trans (mode.trans (alike.mode ()).symm)
  depth := (alike'.depth ()).trans (alike.depth ()).symm
  evaluations := (alike'.evaluations ()).trans (alike.evaluations ()).symm
  limit := (alike'.limit ()).trans (alike.limit ()).symm
  held := by
    obtain ⟨r, heap, words, words', onto, -⟩ := alike.exists_passage start alike'
    have roots := alike.roots.forall₂ (fun _ _ _ => World.Related.succeeds onto) alike'.roots
    refine ⟨r, onto _ _ ⟨_, alike.scope, alike'.scope⟩, ?_, before.succeeds onto after, roots, ?_,
      ?_, ?_⟩
    · have pinned := alike.pinned
      have pinned' := alike'.pinned
      cases known : s.registers.pinned with
      | none =>
        rw [known] at pinned pinned'
        rw [show e.pinned = 0 from pinned (), show e'.pinned = 0 from pinned' ()]
        exact r.descends.zero
      | some string =>
        rw [known] at pinned pinned'
        exact onto _ _ ⟨_, pinned, pinned'⟩
    · have step : ∀ tag v v', w.Related tag (fun _ => v) ∧ tag.IsPlain →
          w'.Related tag (fun _ => v') ∧ tag.IsPlain → Value.Moved r.path v v' :=
        fun _ _ _ here there => here.1.succeeds onto there.1
      rw [words, words']
      exact Listed.forall₂ step alike.scratch alike'.scratch
    · rw [heap]
      exact alike.cursor.succeeds alike.fits.matched roots (spot ▸ alike'.cursor)
    · rw [heap]
      exact alike.suspended.forall₂ (fun _ _ _ => World.Reads.succeeds alike.fits.matched roots)
        alike'.suspended

/-- The evaluation of a text is balanced; entities are followed from its start. -/
theorem Alike.evaluation_balanced {s : Standing Unit} {c : Current} {e : Engine}
    (alike : Alike w s c fun _ => e) {text : ByteArray}
    (small : Strict Unit → text.size < 2 ^ 24) (spares : s.Spares s.registers.scope)
    (calm : Calm Unit (.evaluate text) e) {o : Value × Engine}
    (performs : (Production.evaluate text).Performs e o) :
    e.Balanced ((Production.evaluate text).Collects e) o.2 := by
  have alike := alike.following ((Production.evaluate text).Collects e)
  have calm := calm.following w fun _ collects => collects
  let : Rules Unit := rules.following w ((Production.evaluate text).Collects e)
  obtain ⟨w', c', result, -, alike', mode, spot, before, after, -⟩ :=
    alike.evaluated small spares calm performs
  exact alike.balanced rfl alike' mode spot before after

/-- An engine with nothing under way. -/
theorem Alike.idle {limit : Unit → UInt32} {c : Current} {e : Engine}
    (alike : Alike w (.idle limit) c fun _ => e) (mode : c.mode = {}) : e.Idle where
  scope := congrFun (alike.fits.matched.eq_of_age alike.scope alike.fits.matched.origin rfl) ()
  mode := (alike.mode ()).trans mode
  roots := alike.roots ()
  suspended := alike.suspended ()
  limit := by
    have room := (alike.fits.holds ()).room
    rw [show w.scratch () = [] from alike.scratch ()] at room
    exact UInt32.toNat_inj.mp room

end

end Lockstep

end ArenaScript
