import ArenaScript.Proofs.Host.Conduct
import ArenaScript.Proofs.Lockstep.Queries
import ArenaScript.Proofs.Lockstep.Statements

/-!
# Natives

Host programs run on an engine of their own, not on several in step.  As long as
a program keeps to the rules, every request leaves an engine that agrees with
itself: sound, with all it held still there.  What natives leave on the scratch
stack is what was there before their arguments.

Main results:

- `Alike.request`: the answer to a request.
- `Alike.ofProgram`: the answers to all requests of a careful program.
- `Alike.pushArguments`: the call of a native.
-/

namespace ArenaScript

/-- A word more on the scratch stack. -/
theorem Arena.push?_shape {a a' : Arena} {v : Value} (pushed : a.push? v = .ok (some a')) :
    a'.limit = a.limit - 8 ∧ a'.bytes.size = a.bytes.size := by
  rw [push?] at pushed
  by_cases room : a.hasRoom = true
  · rw [if_pos room, push, store64_eq] at pushed
    by_cases inside : (a.limit - 8).toNat + 8 ≤ a.bytes.size
    · rw [if_pos inside, map_ok] at pushed
      obtain rfl := Option.some.inj (Except.ok.inj pushed)
      exact ⟨rfl, size_putValue _ _ _⟩
    · rw [if_neg inside] at pushed
      cases pushed
  · rw [if_neg room] at pushed
    cases pushed

namespace Lockstep

open Engine

variable {ι : Type} [Rules ι] {w : World ι} {s : Standing ι} {c : Current} {e : ι → Engine}

namespace Together

variable {α : Type} {L L' : α → Prop} {P : (ι → α) → Prop} {p : ι → Progress α}

/-- An engine on its own is never lost. -/
theorem lossless (lone : Subsingleton ι) (together : Together L P p) : Together L' P p := by
  induction together with
  | finished r eq holds => exact .finished r eq holds
  | halted lax i h eq => exact .halted lax i h eq
  | lost several => exact absurd lone several
  | waiting q e k eq ready alike _ ih => exact .waiting q e k eq ready alike ih

/-- On its own, an action with a value needs no thought of a loss. -/
theorem andThenAlone {β : Type} {L : β → Prop} {P : (ι → β) → Prop} (lone : Subsingleton ι)
    {gives : Tag → Prop} {p : ι → Progress (Value × Engine)}
    {f : ι → Value × Engine → Progress β} (first : Together LostValue (Placed w s c gives) p)
    (next : ∀ (w' : World ι) (c' : Current) (tag : Tag) (v : ι → Value) (e' : ι → Engine),
      w.Le w' → Alike w' s c' e' → c'.mode = c.mode → w'.Related tag v → gives tag →
        Together L P fun i => f i (v i, e' i)) :
    Together L P fun i => (p i).bind (f i) := by
  have first : Together (fun _ => False) (Placed w s c gives) p := first.lossless lone
  refine first.bind (fun r placed => ?_) fun _ _ lost => lost.elim
  obtain ⟨w', c', tag, v, e', eq, le, alike, unmoved, related, given⟩ := placed
  obtain rfl : r = fun i => (v i, e' i) := funext eq
  exact next w' c' tag v e' le alike unmoved.mode related given

end Together

namespace World.Matched

variable {a : ι → UInt32}

/-- Where an object stands, an object is related. -/
theorem eq_object (matched : w.Matched) {sh : Shape} (rel : w.rel sh a) (i : ι)
    {first parent : UInt32} (found : (w.heap i).entity? (a i).toNat = some (.object first parent)) :
    ∃ ages, sh = .object ages := by
  have content := matched.content rel
  cases sh with
  | object ages => exact ⟨ages, rfl⟩
  | property names =>
    obtain ⟨next, key, value, _, text, tag, there, -⟩ := content
    cases found.symm.trans (there i)
  | string age text => cases found.symm.trans (content i)

/-- Where a string stands, a string is related. -/
theorem eq_string (matched : w.Matched) {sh : Shape} (rel : w.rel sh a) (i : ι)
    {text : ByteArray} (found : (w.heap i).entity? (a i).toNat = some (.string text)) :
    ∃ age, sh = .string age text := by
  have content := matched.content rel
  cases sh with
  | object ages =>
    obtain ⟨first, parent, there, -⟩ := content
    cases found.symm.trans (there i)
  | property names =>
    obtain ⟨next, key, value, _, text, tag, there, -⟩ := content
    cases found.symm.trans (there i)
  | string age text' =>
    cases found.symm.trans (content i)
    exact ⟨age, rfl⟩

end World.Matched

namespace Listed

variable {α β : Type} {P : α → (ι → β) → Prop} {xs ys : List α} {vs us : ι → List β}

omit [Rules ι] in
theorem append (first : Listed P xs vs) (second : Listed P ys us) :
    Listed P (xs ++ ys) fun i => vs i ++ us i := by
  induction xs generalizing vs with
  | nil => simpa only [first _, List.nil_append] using second
  | cons x xs ih =>
    obtain ⟨v, vs', eq, head, tail⟩ := first
    exact ⟨v, _, fun i => by simp only [eq i, List.cons_append], head, ih tail⟩

omit [Rules ι] in
theorem reverse (listed : Listed P xs vs) : Listed P xs.reverse fun i => (vs i).reverse := by
  induction xs generalizing vs with
  | nil =>
    intro i
    simp only [listed i, List.reverse_nil]
  | cons x xs ih =>
    obtain ⟨v, vs', eq, head, tail⟩ := listed
    have last : Listed P [x] fun i => [v i] := ⟨v, fun _ => [], fun _ => rfl, head, fun _ => rfl⟩
    simpa only [eq, List.reverse_cons] using (ih tail).append last

omit [Rules ι] in
theorem take (listed : Listed P xs vs) (n : Nat) : Listed P (xs.take n) fun i => (vs i).take n := by
  induction n generalizing xs vs with
  | zero => exact fun i => List.take_zero
  | succ n ih =>
    cases xs with
    | nil =>
      intro i
      simp only [listed i, List.take_nil]
    | cons x xs =>
      obtain ⟨v, vs', eq, head, tail⟩ := listed
      exact ⟨v, _, fun i => by simp only [eq i, List.take_succ_cons], head, ih tail⟩

omit [Rules ι] in
theorem drop (listed : Listed P xs vs) (n : Nat) : Listed P (xs.drop n) fun i => (vs i).drop n := by
  induction n generalizing xs vs with
  | zero => simpa only [List.drop_zero] using listed
  | succ n ih =>
    cases xs with
    | nil =>
      intro i
      simp only [listed i, List.drop_nil]
    | cons x xs =>
      obtain ⟨v, vs', eq, -, tail⟩ := listed
      simpa only [eq, List.drop_succ_cons] using ih tail

end Listed

omit [Rules ι] in
theorem World.le_withScratch (w : World ι) (scratch : ι → List Value) :
    w.Le (w.withScratch scratch) := fun _ _ rel => rel

/-- The same words are related. -/
theorem Listed.withScratch {scratch us : ι → List Value} {tags : List Tag}
    (listed : Listed (fun tag v => w.Related tag v ∧ tag.IsPlain) tags us) :
    Listed (fun tag v => (w.withScratch scratch).Related tag v ∧ tag.IsPlain) tags us :=
  listed.mono fun _ _ _ both => ⟨both.1.mono (w.le_withScratch scratch), both.2⟩

theorem World.Fits.withScratch {arena arena' : ι → Arena} (fits : w.Fits arena)
    {scratch : ι → List Value} (holds : ∀ i, (arena' i).Holds (w.heap i) (scratch i))
    (size : ∀ i, (arena' i).bytes.size = (arena i).bytes.size) :
    (w.withScratch scratch).Fits arena' where
  small := fits.small
  size := fun i => (size i).trans (fits.size i)
  holds := holds
  good := fits.good
  matched := by
    obtain ⟨origin, unique, order, counted, full, content⟩ := fits.matched
    refine ⟨origin, unique, order, counted, full, fun {sh a} rel => ?_⟩
    exact (content rel).mono (fun _ _ rel => rel) fun _ => rfl
  followed := fits.followed.alters (w.alters_withScratch scratch)

omit [Rules ι] in
/-- What is frozen does not depend on the scratch words. -/
theorem World.Freezes.withScratch {ages : List Nat} {names : Names} (freezes : w.Freezes ages names)
    (scratch : ι → List Value) : (w.withScratch scratch).Freezes ages names :=
  freezes.mono (w.le_withScratch scratch) (Nat.le_refl _) (fun _ rel => rel) fun _ _ _ => rfl

/-- Without the topmost scratch words. -/
def Standing.dropped (s : Standing ι) (count : UInt32) : Standing ι :=
  { s with scratch := s.scratch.drop count.toNat, limit := fun i => s.limit i + 8 * count }

/-- With the topmost scratch words turned around. -/
def Standing.turned (s : Standing ι) (count : UInt32) : Standing ι :=
  { s with scratch := (s.scratch.take count.toNat).reverse ++ s.scratch.drop count.toNat }

/-- What is asked of the first request of a host program. -/
structure Rule (ι : Type) [Rules ι] (e : Engine) (p : HostProgram) : Prop where
  fair : p.Fair e
  prudent : Strict ι → p.Prudent e
  collects : ∀ next, p = .collect next → e.evaluations = 0 → MayCollect ι e

/-- How a request ends: whatever the answer is, all is left as it was. -/
def Served {α : Type} (s : Standing ι) (mode : Mode) (r : ι → α × Engine) : Prop :=
  ∃ w c, Alike w s c (fun i => (r i).2) ∧ c.mode = mode

namespace Alike

/-! ## Requests -/

variable (alike : Alike w s c e) {count offset : UInt32} {p : HostProgram}
include alike

theorem reading {α : Type} {a : Action α} (answers : ∀ i, ∃ x, a (e i) = .ok (x, e i)) :
    Together (fun _ => False) (Served s c.mode) fun i => .ofExcept (a (e i)) := by
  choose x eq using answers
  exact .finished (fun i => (x i, e i)) (fun i => by rw [eq]; rfl) ⟨w, c, alike, rfl⟩

omit alike in
/-- New entities are placed at the request of a host. -/
theorem served (lone : Subsingleton ι) {gives : Tag → Prop} {p : ι → Progress (Value × Engine)}
    (placed : Together LostValue (Placed w s c gives) p) :
    Together (fun _ => False) (Served s c.mode) p := by
  refine (placed.lossless lone).mono fun r placed => ?_
  obtain ⟨w', c', tag, v, e', eq, -, alike', unmoved, -⟩ := placed
  refine ⟨w', c', ?_, unmoved.mode⟩
  simpa only [eq] using alike'

/-- A value that an engine on its own knows is related to itself. -/
theorem valued [Nonempty ι] (lone : Subsingleton ι) {v : Value}
    (knows : ∀ i, (e i).Knows v) (calls : Strict ι → ∀ i, (e i).CanCall v) : ∃ tag, w.Related tag
      (fun _ => v) ∧ tag.IsPlain := by
  have i := Classical.arbitrary ι
  have matched := alike.fits.matched
  obtain ⟨canonical, plain, types⟩ := knows i
  obtain ⟨-, types⟩ := ((alike.fits.holds i).types_iff (alike.fits.good i)).mpr ⟨canonical, types⟩
  -- what stands at the offset of the value is related to itself
  have there : ∀ en, (w.heap i).entity? v.offset.toNat = some en →
      ∃ sh, w.rel sh (fun _ => v.offset) := by
    intro en found
    obtain ⟨sh, a, rel, eq⟩ := matched.full lone i v.offset en found
    have same : a = fun _ => v.offset := funext fun j => by rw [← Subsingleton.elim i j, eq]
    exact ⟨sh, same ▸ rel⟩
  have refers : ∀ {sh : Shape}, v.isEntity = true → w.rel sh (fun _ => v.offset) →
      w.Refers v.kind sh fun _ => v := fun entity rel => ⟨_, rel, fun _ => canonical entity⟩
  have entity : v.isEntity = v.kind.isEntity := rfl
  have bare : v.kind.isEntity = false → ∃ tag, w.Related tag (fun _ => v) ∧ tag.IsPlain :=
    fun bare => ⟨.other v, World.related_other w bare, plain⟩
  have plain : v.kind ≠ .property ∧ v.kind ≠ .span := plain
  have calls : Strict ι → ∀ i, v.kind = .function → ∀ text,
      (e i).arena.stringBytes v.offset = .ok text → Source.Callable text := calls
  revert types plain bare entity refers calls
  generalize v.kind = kind
  intro types
  cases kind with
  | object =>
    intro refers entity _ plain _
    obtain ⟨first, parent, found⟩ := types
    obtain ⟨sh, rel⟩ := there _ found
    obtain ⟨ages, rfl⟩ := matched.eq_object rel i found
    exact ⟨.object ages, refers entity rel, plain⟩
  | property => exact fun _ _ _ plain _ => absurd rfl plain.1
  | string =>
    intro refers entity _ plain _
    obtain ⟨text, found⟩ := types
    obtain ⟨sh, rel⟩ := there _ found
    obtain ⟨age, rfl⟩ := matched.eq_string rel i found
    exact ⟨.string age text, refers entity rel, plain⟩
  | function =>
    intro refers entity _ plain calls
    obtain ⟨text, found⟩ := types
    obtain ⟨sh, rel⟩ := there _ found
    obtain ⟨age, rfl⟩ := matched.eq_string rel i found
    refine ⟨.function age text, ⟨refers entity rel, fun strict => ?_⟩, plain⟩
    exact calls strict i rfl text (alike.fits.stringBytes rel i)
  | _ => exact fun _ _ bare _ _ => bare rfl

/-- A property is set at the request of a host. -/
theorem setProperty [Nonempty ι] (lone : Subsingleton ι)
    (thawed : s.frozen = []) {object value : Value} {key : ByteArray}
      {next : Option SetError → HostProgram}
    (rule : ∀ i, Rule ι (e i) (.set object key value next)) :
    Together (fun _ => False) (Served s c.mode)
      fun i => .ofExcept (Engine.setProperty object key value (e i)) := by
  obtain ⟨tag, related, -⟩ := alike.valued lone (fun i => (rule i).fair.1)
    fun strict i => ((rule i).prudent strict).1
  obtain ⟨tag', related', plain'⟩ := alike.valued lone (fun i => (rule i).fair.2)
    fun strict i => ((rule i).prudent strict).2.2
  have short : Strict ι → key.size + 8 < 2 ^ 32 := fun strict =>
    ((rule (Classical.arbitrary ι)).prudent strict).2.1
  simp only [Engine.setProperty, Action.steps]
  by_cases kind : object.kind = .object
  · obtain ⟨ages, rfl⟩ := related.eq_object ((related.kind (Classical.arbitrary ι)).symm.trans kind)
    simp only [kind, ne_eq, not_true_eq_false, if_false]
    refine .andThenAlone lone (alike.newString key short) ?_
    intro w' c' t name e' le alike' mode rk given
    simp only [rk.isError]
    by_cases error : t.isError = true
    · simp only [error, if_true]
      exact .finished _ (fun _ => rfl) ⟨w', c', alike', mode⟩
    · obtain rfl := given.resolve_right error
      simp only [error, Routine.steps]
      have target := World.Refers.offset (related.mono le)
      obtain ⟨names, placed⟩ :=
        alike'.newProperty target (.of_thawed thawed) rk (related'.mono le) plain'
      refine .andThenAlone lone placed ?_
      intro w'' c'' _ _ e'' _ alike'' mode' _ _
      exact .finished _ (fun _ => rfl) ⟨w'', c'', alike'', mode'.trans mode⟩
  · simp only [kind, ne_eq, not_false_eq_true, if_true]
    exact .finished _ (fun _ => rfl) ⟨w, c, alike, rfl⟩

/-- A native is registered. -/
theorem registerNative (hosted : Hosted ι) (thawed : s.frozen = []) (native : Native) :
    Together (fun _ => False) (Served s c.mode)
      fun i => .ofExcept (Engine.registerNative native (e i)) := by
  have more : Alike w s { c with natives := c.natives.push native }
      fun i => { e i with natives := (e i).natives.push native } :=
    { alike with
      natives := fun i => by rw [← alike.natives i]
      known := by
        rw [Array.toList_push]
        exact alike.known.trans (List.prefix_append _ _)
      hosted := .inr hosted
      still := .inl thawed }
  obtain ⟨e', reported, alike'⟩ := more.report fun i => .nativeRegistered (e i).natives.size
  simp only [Engine.registerNative, Action.steps, reported]
  exact .finished _ (fun _ => rfl) ⟨w, _, alike', rfl⟩

/-- A collection is asked for: it takes place at once or is put off. -/
theorem collect (may : ∀ i, (e i).evaluations = 0 → MayCollect ι (e i)) :
    Together (fun _ => False) (Served s c.mode) fun i => .ofExcept (Engine.collect (e i)) := by
  simp only [Engine.collect, Action.steps]
  by_cases active : 0 < s.evaluations
  · have known : ∀ i, 0 < (e i).evaluations := fun i => alike.evaluations i ▸ active
    have pending := alike.withRest (fun i => (e i).threshold) (fun i => (e i).deepest)
      (fun _ => true) (fun i => (e i).tracing) (fun i => (e i).events) fun i => (e i).output
    obtain ⟨e', reported, alike'⟩ := pending.report fun _ => .collectionDeferred
    simp only [known, if_true, reported, Action.steps]
    exact .finished _ (fun _ => rfl) ⟨w, c, alike', rfl⟩
  · have known : ∀ i, ¬ 0 < (e i).evaluations := fun i => alike.evaluations i ▸ active
    choose e' heap m k run done using fun i => (alike.sound i).collectNow_eq
    simp only [known, if_false, run, Action.steps]
    have moved := alike.moved (fun i => (done i).moved (alike.sound i)) fun i =>
      .one (may i (Nat.eq_zero_of_not_pos (known i))) (alike.sound i) (run i) (done i)
    exact .finished _ (fun _ => rfl) ⟨_, c, moved, rfl⟩

/-- The answer to a request that keeps to the rules, unless a text is to be
evaluated. -/
theorem request [Nonempty ι] (hosted : Hosted ι)
    (thawed : s.frozen = []) {count : Nat} (offers : s.Offers offset count) {r : HostProgram.Request}
    (first : p.first? offset count = some r) (rule : ∀ i, Rule ι (e i) p)
    (other : ∀ text next, p ≠ .evaluate text next) :
    Together (fun _ => False) (Served s c.mode) fun i => r.routine (e i) := by
  have i := Classical.arbitrary ι
  have lone := hosted.lone
  have fair := fun i => (rule i).fair
  have prudent := fun strict i => (rule i).prudent strict
  cases p with
  | done value => cases first
  | argument index next => cases first; exact alike.reading (alike.argument offers index)
  | makeString text next =>
    cases first
    exact served lone (alike.newString text fun strict => prudent strict i)
  | makeObject next =>
    cases first
    exact served lone (alike.newObject alike.fits.matched.origin)
  | makeError message next =>
    cases first
    exact served lone (alike.failAll (.native message) fun _ _ => trivial)
  | register native next => cases first; exact alike.registerNative hosted thawed ⟨native⟩
  | set object key value next => cases first; exact alike.setProperty lone thawed rule
  | get object key next =>
    cases first
    obtain ⟨tag, related, -⟩ := alike.valued lone fair prudent
    exact alike.reading (alike.getProperty related key)
  | properties object next =>
    cases first
    obtain ⟨tag, related, -⟩ := alike.valued lone fair prudent
    exact alike.reading (alike.listProperties related)
  | stringBytes value next =>
    cases first
    obtain ⟨tag, related, -⟩ := alike.valued lone fair prudent
    exact alike.reading (alike.stringBytes? related)
  | render value next =>
    cases first
    obtain ⟨tag, related, plain⟩ := alike.valued lone fair prudent
    obtain ⟨text, shown⟩ := alike.render related plain
    exact alike.reading fun i => ⟨text, shown i⟩
  | isTruthy value next =>
    cases first
    obtain ⟨tag, related, -⟩ := alike.valued lone fair prudent
    obtain ⟨b, told⟩ := alike.isTruthy related
    exact alike.reading fun i => ⟨b, told i⟩
  | collect next => cases first; exact alike.collect fun i => (rule i).collects next rfl
  | stats next =>
    cases first
    obtain ⟨e', noted, alike'⟩ := alike.noteUse
    simp only [Engine.stats, Engine.statsBy, Routine.steps, Action.steps, noted]
    exact .finished _ (fun _ => rfl) ⟨w, c, alike', rfl⟩
  | dump next => cases first; exact alike.reading alike.dump
  | setThreshold size next =>
    cases first
    exact .finished _ (fun _ => rfl) ⟨w, c, alike.withRest (fun _ => size)
      (fun i => (e i).deepest) (fun i => (e i).collectPending) (fun i => (e i).tracing)
      (fun i => (e i).events) (fun i => (e i).output), rfl⟩
  | setMaxDepth depth next =>
    cases first
    exact .finished _ (fun _ => rfl)
      ⟨w, { c with maxDepth := depth }, { alike with maxDepth := fun _ => rfl }, rfl⟩
  | evaluate text next => exact absurd rfl (other text next)
  | write text next =>
    cases first
    exact .finished _ (fun _ => rfl) ⟨w, c, alike.withRest (fun i => (e i).threshold)
      (fun i => (e i).deepest) (fun i => (e i).collectPending) (fun i => (e i).tracing)
      (fun i => (e i).events) (fun i => (e i).output ++ text), rfl⟩

/-- The answer to any request that keeps to the rules. -/
theorem answer [Nonempty ι] (hosted : Hosted ι)
    (thawed : s.frozen = []) {count : Nat} (offers : s.Offers offset count) {r : HostProgram.Request}
    (first : p.first? offset count = some r) (rule : ∀ i, Rule ι (e i) p) :
    Together (fun _ => False) (fun x => ∃ mode, Served s mode x) fun i => r.routine (e i) := by
  by_cases evaluates : ∃ text next, p = .evaluate text next
  · obtain ⟨text, next, rfl⟩ := evaluates
    cases first
    have called : Together (fun _ => False) (Out w (.anywhere s)) _ :=
      .call alike (.evaluate text (rule (Classical.arbitrary ι)).prudent (.of_thawed thawed))
    refine called.mono fun r out => ?_
    obtain ⟨w', _, c', tag, v, e', eq, alike', rfl, -⟩ := out
    refine ⟨c'.mode, w', c', ?_, rfl⟩
    simpa only [eq] using alike'
  · refine (alike.request hosted thawed offers first rule fun text next eq => evaluates
      ⟨text, next, eq⟩).mono ?_
    exact fun x served => ⟨c.mode, served⟩

/-- The answers to all requests of a careful program. -/
theorem ofProgram [Nonempty ι] (hosted : Hosted ι) {count : Nat}
    (thawed : s.frozen = []) (offers : s.Offers offset count)
    (careful : ∀ i, p.Keeps (Rule ι) offset count (e i)) :
    Together LostValue (Out w (.anywhere s)) fun i => Routine.ofProgram offset count p (e i) := by
  have lone := hosted.lone
  induction p using HostProgram.induction offset count generalizing w c e with
  | step p ih =>
  have rule := fun i => careful i p (e i) .start
  cases first : p.first? offset count with
  | none =>
    obtain ⟨v, rfl⟩ : ∃ v, p = .done v := by
      cases p with
      | done v => exact ⟨v, rfl⟩
      | _ => cases first
    obtain ⟨tag, related, plain⟩ := alike.valued lone (fun i => (rule i).fair)
      fun strict i => (rule i).prudent strict
    exact .done alike rfl (.never _ _ _) related ⟨plain, fun _ => trivial⟩
  | some r =>
    simp only [Routine.ofProgram_eq first]
    refine (alike.answer hosted thawed offers first rule).ends.bind (fun x served => ?_) fun _ _
      lost => lost.elim
    obtain ⟨⟨_, w', c', alike', -⟩, ends⟩ := served
    have i := Classical.arbitrary ι
    have same : ∀ j, (x j).1 = (x i).1 := fun j => by rw [Subsingleton.elim j i]
    simp only [same]
    refine (ih r first (x i).1 alike' fun j p' e' comes => careful j p' e' ?_).within rfl
      False.elim fun _ _ given => given
    refine .later first ?_ comes
    rw [← same j]
    exact ends j

/-! ## Calls -/

/-- Arguments are dropped. -/
theorem dropArguments (enough : count.toNat ≤ s.scratch.length) :
    ∃ (w' : World ι) (e' : ι → Engine), w.Le w'
      ∧ (∀ i, Routine.dropArguments count (e i) = .ok ((), e' i))
      ∧ Alike w' (s.dropped count) c e' := by
  have fits : (w.withScratch fun i => (w.scratch i).drop count.toNat).Fits
      fun i => (e i).arena.pop count :=
    alike.fits.withScratch (fun i => (alike.fits.holds i).pop_eq
      (by rw [alike.scratch.length_eq i]; exact enough)) fun _ => rfl
  refine ⟨_, _, w.le_withScratch _, fun _ => rfl,
    alike.withStore (w.le_withScratch _) fits (alike.scratch.drop count.toNat).withScratch ?_
      fun _ _ freezes => freezes.withScratch _⟩
  intro i
  show (e i).arena.limit + 8 * count = _
  rw [alike.limit i]

/-- Arguments are turned around. -/
theorem turnArguments (enough : count.toNat ≤ s.scratch.length) :
    ∃ (w' : World ι) (e' : ι → Engine),
      (∀ i, changeArena (·.reverse count) (e i) = .ok ((), e' i))
      ∧ Alike w' (s.turned count) c e' := by
  choose arena run block holds using fun i => (alike.fits.holds i).reverse_eq (n := count)
    (by rw [alike.scratch.length_eq i]; exact enough)
  refine ⟨_, _, fun i => ?_, alike.withStore (w.le_withScratch _)
    (alike.fits.withScratch holds fun i => (block i).size_eq)
    ((alike.scratch.take count.toNat).reverse.append
      (alike.scratch.drop count.toNat)).withScratch
    (fun i => (block i).limit_eq.trans (alike.limit i)) fun _ _ freezes => freezes.withScratch _⟩
  simp only [changeArena, run]

/-- A native runs on the arguments that have been pushed. -/
theorem runNative [Nonempty ι] (hosted : Hosted ι) {index : Nat}
    (enough : count.toNat ≤ s.scratch.length) (known : index < s.natives.length)
    (careful : ∀ i e₁ native, changeArena (·.reverse count) (e i) = .ok ((), e₁) →
      e₁.natives[index]? = some native →
      (native.program count.toNat).Keeps (Rule ι) e₁.arena.limit count.toNat e₁) :
    Together LostValue (Out w (.anywhere (s.dropped count)))
      fun i => Routine.runNative index count (e i) := by
  have lone := hosted.lone
  obtain ⟨w₁, e₁, turned, alike₁⟩ := alike.turnArguments enough
  simp only [Routine.runNative, Routine.steps, turned, alike₁.natives]
  have there : index < c.natives.size := Nat.lt_of_lt_of_le known alike.known.length_le
  obtain ⟨native, found⟩ : ∃ native, c.natives[index]? = some native :=
    ⟨_, Array.getElem?_eq_getElem there⟩
  have i := Classical.arbitrary ι
  have same : ∀ j, (e₁ j).arena.limit = (e₁ i).arena.limit := fun j => by
    rw [Subsingleton.elim j i]
  simp only [found, Routine.steps, same]
  have keeps : ∀ j,
      (native.program count.toNat).Keeps (Rule ι) (e₁ i).arena.limit count.toNat (e₁ j) :=
    fun j => same j ▸ careful j (e₁ j) native (turned j) (by rw [alike₁.natives j, found])
  have length : ((s.scratch.take count.toNat).reverse).length = count.toNat := by
    rw [List.length_reverse, List.length_take, Nat.min_eq_left enough]
  have room : count.toNat ≤ (s.turned count).scratch.length := by
    simp only [Standing.turned, List.length_append, length]
    omega
  have offers : (s.turned count).Offers (e₁ i).arena.limit count.toNat :=
    .inr ⟨fun j => by rw [← alike₁.limit j, same j], room⟩
  have thawed : s.frozen = [] := alike.still.resolve_right fun none => by
    rw [none] at there
    exact Nat.not_lt_zero _ there
  have answered := alike₁.ofProgram hosted thawed offers keeps
  have answered : Together (fun _ => False) (Out w₁ (.anywhere (s.turned count))) _ :=
    answered.lossless lone
  refine answered.after ?_ fun _ _ lost => lost.elim
  intro w₂ c₂ tag v e₂ alike₂ _ related plain
  obtain ⟨e₃, noted, alike₃⟩ := alike₂.noteUse
  obtain ⟨w₄, e₄, le, dropped, alike₄⟩ := alike₃.dropArguments room
  simp only [noted, dropped, Routine.steps]
  have back : (s.turned count).dropped count = s.dropped count := by
    simp only [Standing.turned, Standing.dropped, List.drop_left' length]
  exact .done (back ▸ alike₄) rfl (.never _ _ _) (related.mono le) plain

/-- An argument is placed on the scratch stack of an engine, if it fits. -/
theorem pushArgument [Nonempty ι] (lone : Subsingleton ι) {tag : Tag}
    {v : ι → Value} (related : w.Related tag v) (plain : tag.IsPlain) :
    (∀ i, Routine.pushArgument (v i) (e i) = .ok (false, e i)) ∨
      ∃ (w' : World ι) (e' : ι → Engine),
        (∀ i, Routine.pushArgument (v i) (e i) = .ok (true, e' i))
        ∧ Alike w' { s with scratch := tag :: s.scratch, limit := fun i => s.limit i - 8 } c e' := by
  have i := Classical.arbitrary ι
  have all : ∀ {P : ι → Prop}, P i → ∀ j, P j := fun here j => Subsingleton.elim i j ▸ here
  rcases (alike.fits.holds i).push?_eq (v i) with none | ⟨a, pushed, holds, -⟩
  · left
    refine all ?_
    simp only [Routine.pushArgument_eq, none]
  · right
    have pushes : ∀ j, ∃ a', (e j).arena.push? (v j) = .ok (some a')
        ∧ a'.Holds (w.heap j) (v j :: w.scratch j) := all ⟨a, pushed, holds⟩
    choose arena pushed holds using pushes
    have shape := fun j => Arena.push?_shape (pushed j)
    refine ⟨_, _, fun j => ?_, alike.withStore (w.le_withScratch _)
      (alike.fits.withScratch holds fun j => (shape j).2)
      (alike.scratch.cons (P := fun tag v => w.Related tag v ∧ tag.IsPlain)
        ⟨related, plain⟩).withScratch
      (fun j => by rw [(shape j).1, alike.limit j]) fun _ _ freezes => freezes.withScratch _⟩
    simp only [Routine.pushArgument_eq, pushed]

/-- The arguments of a native are pushed one by one, then it runs. -/
theorem pushArguments [Nonempty ι] (hosted : Hosted ι) {index : Nat}
    (enough : count.toNat ≤ s.scratch.length) (known : index < s.natives.length)
    (careful : ∀ i p e₁, (e i).CallsNative index count p e₁ →
      p.Keeps (Rule ι) e₁.arena.limit count.toNat e₁) :
    Together LostNext (Goes w (.anywhere (s.dropped count)))
      fun i => Routine.pushArguments index count (e i) := by
  simp only [Routine.pushArguments, Routine.steps, alike.length, alike.pos]
  by_cases isOver : s.ground.text.size ≤ c.spot.pos
  · simp only [isOver, if_true]
    refine .ended (.next _ _) (alike.runNative hosted enough known fun i e₁ native run found => ?_)
    refine careful i _ e₁ ⟨e i, native, .inl ⟨?_, rfl⟩, run, found, rfl⟩
    rw [alike.length i, alike.pos i]
    exact isOver
  obtain ⟨e₁, token, alike₁⟩ := alike.token
  simp only [isOver, token, Routine.steps]
  by_cases paren : (c.spot.advance s.ground.text).token = .rightParen
  · simp only [paren, if_true]
    refine .ended (.next _ _) (alike₁.runNative hosted enough known fun i e₂ native run found => ?_)
    refine careful i _ e₂ ⟨e₁ i, native, .inr ⟨?_, ?_⟩, run, found, rfl⟩
    · rw [alike.length i, alike.pos i]
      exact Nat.lt_of_not_le isOver
    · rw [token i, paren]
  simp only [paren, if_false]
  refine .afterCall .expression alike₁ fun w₂ c₂ tag v e₂ alike₂ _ related given₂ => ?_
  obtain ⟨t, r, resolved, rr, plain, -⟩ := alike₂.resolve related
  simp only [resolved, Routine.steps, rr.isError]
  by_cases error : t.isError = true
  · obtain ⟨w₃, e₃, le, dropped, alike₃⟩ := alike₂.dropArguments enough
    simp only [error, dropped, Routine.steps]
    exact .give alike₃ rfl (.never _ _ _) (rr.mono le) ⟨plain given₂.1, fun _ => trivial⟩
  simp only [error, Routine.steps]
  rcases alike₂.pushArgument hosted.lone rr (plain given₂.1) with none | ⟨w₃, e₃, pushed, alike₃⟩
  · obtain ⟨w₃, e₃, le, dropped, alike₃⟩ := alike₂.dropArguments enough
    simp only [none, dropped, Routine.steps]
    exact alike₃.failing (.next _ _) .argumentsTooLarge rfl (.never _ _ _)
  obtain ⟨e₄, token, alike₄⟩ := alike₃.token
  simp only [pushed, token, Routine.steps]
  -- one argument more to drop
  have small : count.toNat + 1 < 2 ^ 32 := by
    have i := Classical.arbitrary ι
    have length := alike.scratch.length_eq i
    have room := (alike.fits.holds i).room
    have top := (alike.fits.holds i).top_le
    have size := alike.fits.size_le i
    omega
  have next : (count + 1).toNat = count.toNat + 1 := toNat_add_of_lt small
  have ready : ∀ c' : Current, Ready w₃
      { s with scratch := t :: s.scratch, limit := fun i => s.limit i - 8 } c'
      (fun _ => .pushArguments index (count + 1)) _ :=
    fun c' =>
      .pushArguments index (count + 1) hosted (by rw [next]; exact Nat.succ_le_succ enough) known
  have back : ∀ s' : Standing ι,
      s' = { s with
        scratch := (t :: s.scratch).drop (count + 1).toNat
        limit := fun i => s.limit i - 8 + 8 * (count + 1) } → s' = s.dropped count := by
    rintro s' rfl
    have limit : ∀ l : UInt32, l - 8 + 8 * (count + 1) = l + 8 * count := fun l => by
      rw [UInt32.mul_add, UInt32.mul_one, UInt32.add_comm (8 * count), ← UInt32.add_assoc,
        UInt32.sub_add_cancel]
    simp only [Standing.dropped, next, List.drop_succ_cons, limit]
  by_cases comma : (c₂.spot.advance s.ground.text).token = .comma
  · obtain ⟨e₅, use, alike₅⟩ := alike₄.use
    simp only [comma, use, Routine.steps]
    exact .goOn (ready _) alike₅ back False.elim fun _ _ given => given
  · simp only [comma, if_false]
    exact .goOn (ready _) alike₄ back False.elim fun _ _ given => given

end Alike

end Lockstep

end ArenaScript
