import ArenaScript.Proofs.Lockstep.Texts

/-!
# Engines that agree

Engines are alike when their arenas fit a world, all that they hold outside
their arenas is related in it, and all that does not refer to an arena is the
same.  What is the same falls into two parts: what every production leaves as
it found it, and what changes from token to token.

Main definitions:

- `Registers`, `Standing`: what a production leaves as it found it.
- `Current`: what changes.
- `Alike`: engines that agree.

Main results:

- `Alike.sound`: engines that agree are sound.
- `Alike.goTo`, `Alike.read`: another place, another text.
- `Alike.hold`, `Alike.unhold`: values held for later.
- `Alike.withArena`: another arena.
-/

namespace ArenaScript.Lockstep

variable {ι : Type}

/-- What the registers hold.  The result of a function under way is left out:
return statements change it. -/
structure Registers where
  /-- The ages of the active scope and of those around it. -/
  scope : List Nat
  /-- The age and the text of the pinned entity. -/
  pinned : Option (Nat × ByteArray)
  /-- The tag of the result. -/
  result : Option Tag

/-- Offsets that pin nothing, or related strings. -/
def World.Pins (w : World ι) : Option (Nat × ByteArray) → (ι → UInt32) → Prop
  | none, a => ∀ i, a i = 0
  | some (age, text), a => w.rel (.string age text) a

theorem World.Pins.mono {w w' : World ι} (le : w.Le w') {known : Option (Nat × ByteArray)}
    {a : ι → UInt32} (pins : w.Pins known a) : w'.Pins known a := by
  cases known with
  | none => exact pins
  | some string => exact le _ _ pins

/-- What every production leaves as it found it. -/
structure Standing (ι : Type) where
  /-- The registers. -/
  registers : Registers
  /-- The text that is being read. -/
  ground : Ground
  /-- The tags of the values held for later. -/
  roots : List Tag
  /-- The tags of the scratch words. -/
  scratch : List Tag
  /-- The places set aside. -/
  suspended : List (Ground × Spot)
  /-- The nesting. -/
  depth : Nat
  /-- The number of evaluations under way. -/
  evaluations : Nat
  /-- The lower ends of the scratch stacks. -/
  limit : ι → UInt32
  /-- The natives registered first. -/
  natives : List Native
  /-- The ages of objects that get no more properties, with the names they have. -/
  frozen : List (List Nat × Names)

/-- What changes from token to token. -/
structure Current where
  mode : Mode
  log : ErrorLog
  maxDepth : Int
  natives : Array Native
  spot : Spot

variable [Rules ι]

/-- Engines that agree: their arenas fit a world, their registers are related in
it, and the rest is the same. -/
structure Alike (w : World ι) (s : Standing ι) (c : Current) (e : ι → Engine) : Prop where
  fits : w.Fits fun i => (e i).arena
  limit : ∀ i, (e i).arena.limit = s.limit i
  scope : w.rel (.object s.registers.scope) fun i => (e i).scope
  pinned : w.Pins s.registers.pinned fun i => (e i).pinned
  result : ∃ tag, w.Related tag (fun i => (e i).result) ∧ tag.IsPlain
    ∧ ∀ known, s.registers.result = some known → tag = known
  free : c.mode.inCall = true → s.registers.result = none
  roots : Listed w.Related s.roots fun i => (e i).roots
  scratch : Listed (fun tag v => w.Related tag v ∧ tag.IsPlain) s.scratch w.scratch
  cursor : w.Reads (fun i => (e i).roots) s.ground c.spot fun i => (e i).cursor
  suspended : Listed (fun f => w.Reads (fun i => (e i).roots) f.1 f.2) s.suspended
    fun i => (e i).suspended
  depth : ∀ i, (e i).depth = s.depth
  evaluations : ∀ i, (e i).evaluations = s.evaluations
  mode : ∀ i, (e i).mode = c.mode
  log : ∀ i, (e i).log = c.log
  maxDepth : ∀ i, (e i).maxDepth = c.maxDepth
  natives : ∀ i, (e i).natives = c.natives
  known : s.natives <+: c.natives.toList
  hosted : c.natives = #[] ∨ Hosted ι
  frozen : ∀ f ∈ s.frozen, w.Freezes f.1 f.2
  /-- A native may give a property to any object. -/
  still : s.frozen = [] ∨ c.natives = #[]

/-- Inside a scope of an age. -/
def Standing.inScope (s : Standing ι) (age : Nat) : Standing ι :=
  { s with registers := { s.registers with scope := age :: s.registers.scope } }

/-- An object of some ages may get more properties. -/
def Standing.Spares (s : Standing ι) (ages : List Nat) : Prop := ∀ f ∈ s.frozen, f.1 ≠ ages

omit [Rules ι] in
theorem Standing.Spares.of_thawed {s : Standing ι} (thawed : s.frozen = []) {ages : List Nat} :
    s.Spares ages := by
  rw [Spares, thawed]
  nofun

/-- Names may be declared in the active scope, unless the mode is dry. -/
def Standing.Open (s : Standing ι) (mode : Mode) : Prop :=
  mode.dry = true ∨ s.Spares s.registers.scope

omit [Rules ι] in
theorem Standing.Open.spares {s : Standing ι} {mode : Mode} (isOpen : s.Open mode)
    (wet : mode.dry = false) : s.Spares s.registers.scope :=
  isOpen.resolve_left (Bool.eq_false_iff.mp wet)

/-- All texts that are being read or set aside are kept by values below a
height. -/
def Standing.Grounded (s : Standing ι) (n : Nat) : Prop :=
  (∀ height, s.ground.anchor = some height → height < n) ∧
    ∀ f ∈ s.suspended, ∀ height, f.1.anchor = some height → height < n

namespace Alike

variable {w : World ι} {s : Standing ι} {c : Current} {e : ι → Engine}

variable (alike : Alike w s c e) {tag : Tag} {ts : List Tag}
include alike

/-- Other natives are counted on. -/
theorem withNatives {natives : List Native}
    (known : natives <+: c.natives.toList) : Alike w { s with natives := natives } c e :=
  { alike with known := known }

/-! ## What agreement gives -/

/-- Each of the engines is sound. -/
theorem sound (i : ι) : (e i).Sound (w.heap i) (w.scratch i) where
  holds := alike.fits.holds i
  heap := alike.fits.good i
  scope := alike.fits.isObject alike.scope i
  pinned := by
    have pinned := alike.pinned
    cases known : s.registers.pinned with
    | none =>
      rw [known] at pinned
      exact .inl (pinned i)
    | some string =>
      rw [known] at pinned
      exact .inr (alike.fits.isString pinned i)
  result := by
    obtain ⟨tag, related, plain, -⟩ := alike.result
    exact ⟨related.types alike.fits.matched i, related.isPlain plain i⟩
  roots := by
    intro v mem
    obtain ⟨tag, v', related, rfl⟩ := alike.roots.mem mem
    exact related.types alike.fits.matched i
  scratch := by
    intro v mem
    obtain ⟨tag, v', ⟨related, plain⟩, rfl⟩ := alike.scratch.mem mem
    exact ⟨related.types alike.fits.matched i, related.isPlain plain i⟩

/-- All engines read the same text. -/
theorem shows (i : ι) : ((e i).cursor.source (e i).arena.bytes).Shows s.ground.text :=
  alike.cursor.shows alike.fits i

theorem isValid (i : ι) : (e i).cursor.isValid (e i).arena.bytes = true := by
  rw [Cursor.isValid, decide_eq_true_eq]
  exact (alike.shows i).inside

theorem pos (i : ι) : (e i).cursor.pos = c.spot.pos := by
  rw [alike.cursor.cursor i]
  rfl

theorem length (i : ι) : (e i).cursor.length = s.ground.text.size := by
  rw [alike.cursor.cursor i]
  rfl

theorem tokenStart (i : ι) : (e i).cursor.tokenStart = c.spot.tokenStart := by
  rw [alike.cursor.cursor i]
  rfl

theorem tokenLength (i : ι) : (e i).cursor.tokenLength = c.spot.tokenLength := by
  rw [alike.cursor.cursor i]
  rfl

theorem lastToken (i : ι) : (e i).cursor.token = c.spot.token := by
  rw [alike.cursor.cursor i]
  rfl

theorem consumed (i : ι) : (e i).cursor.consumed = c.spot.consumed := by
  rw [alike.cursor.cursor i]
  rfl

theorem number (i : ι) : (e i).cursor.number = c.spot.number := by
  rw [alike.cursor.cursor i]
  rfl

/-- A text that is being read is kept by a value that is held. -/
theorem grounded [Nonempty ι] : s.Grounded s.roots.length := by
  have i := Classical.arbitrary ι
  have length := alike.roots.length_eq i
  have below : ∀ {g : Ground} {t : Spot} {k : ι → Cursor} {height : Nat},
      w.Reads (fun i => (e i).roots) g t k → g.anchor = some height → height < s.roots.length := by
    intro g t k height reads anchor
    have lies := reads.lies
    cases site : g.site with
    | host full start =>
      rw [Ground.anchor, site] at anchor
      cases anchor
    | kept height' d =>
      rw [Ground.anchor, site] at anchor
      obtain rfl : height' = height := Option.some.inj anchor
      simp only [World.Lies, site] at lies
      obtain ⟨a, age, text, -, anchored, -⟩ := lies
      rw [← length]
      exact (anchored i).lt_length
  refine ⟨fun height anchor => below alike.cursor anchor, ?_⟩
  intro f mem height anchor
  obtain ⟨n, inside, found⟩ := List.mem_iff_getElem.mp mem
  have found : s.suspended[n]? = some f := by rw [List.getElem?_eq_getElem inside, found]
  obtain ⟨k, reads, -⟩ := alike.suspended.get found
  exact below reads anchor

/-! ## Places and texts -/

/-- Another place in the same text. -/
theorem goTo {u : Spot} (inside : u.Inside s.ground.text.size)
    {k : ι → Cursor} (eq : ∀ i, k i = u.cursor (e i).cursor.origin s.ground.text.size) :
    Alike w s { c with spot := u } fun i => { e i with cursor := k i } :=
  { alike with cursor := alike.cursor.goTo inside eq }

/-- A change of the cursors that can be told from the place. -/
theorem changeCursor (f : Cursor → Cursor) {u : Spot} (inside : u.Inside s.ground.text.size)
    (same : ∀ o, f (c.spot.cursor o s.ground.text.size) = u.cursor o s.ground.text.size) :
    Alike w s { c with spot := u } fun i => { e i with cursor := f (e i).cursor } := by
  refine alike.goTo inside fun i => ?_
  conv => lhs; rw [alike.cursor.cursor i]
  exact same _

/-- Another position in the same text. -/
theorem moveTo {n : Nat} (inside : n ≤ s.ground.text.size) :
    Alike w s { c with spot := { c.spot with pos := n } }
      fun i => { e i with cursor := { (e i).cursor with pos := n } } :=
  alike.changeCursor (fun k => { k with pos := n })
    ⟨inside, alike.cursor.inside.token, alike.cursor.inside.number⟩ fun _ => rfl

/-- Another text. -/
theorem read {g : Ground} {t : Spot} {k : ι → Cursor}
    (reads : w.Reads (fun i => (e i).roots) g t k) :
    Alike w { s with ground := g } { c with spot := t } fun i => { e i with cursor := k i } :=
  { alike with cursor := reads }

/-- The current place is set aside. -/
theorem suspend : Alike w { s with suspended := (s.ground, c.spot) :: s.suspended } c
      fun i => { e i with suspended := (e i).cursor :: (e i).suspended } :=
  { alike with
    suspended := Listed.cons (x := (s.ground, c.spot)) alike.cursor alike.suspended }

/-! ## Values held for later -/

theorem hold {v : ι → Value} (related : w.Related tag v) :
    Alike w { s with roots := tag :: s.roots } c
      fun i => { e i with roots := v i :: (e i).roots } := by
  have keep : ∀ (g : Ground) (i : ι) (height : Nat) (o : UInt32), g.anchor = some height →
      Anchors (e i).roots height o → Anchors (v i :: (e i).roots) height o :=
    fun _ _ _ _ _ anchored => anchored.push _
  exact { alike with
    roots := Listed.cons related alike.roots
    cursor := alike.cursor.mono (.refl w) (keep _)
    suspended := alike.suspended.mono fun _ _ _ reads => reads.mono (.refl w) (keep _) }

omit alike in
/-- The value held last is taken back, if no text depends on it. -/
theorem unholdWhere (alike : Alike w { s with roots := tag :: ts } c e)
    (free : ∀ (v : Value) (roots : List Value) (g : Ground) (height : Nat) (o : UInt32),
      v.kind = tag.kind → roots.length = ts.length → (g = s.ground ∨ ∃ f ∈ s.suspended, g = f.1) →
      g.anchor = some height → Anchors (v :: roots) height o → Anchors roots height o) :
    ∃ (v : ι → Value) (roots : ι → List Value), (∀ i, (e i).roots = v i :: roots i)
      ∧ w.Related tag v
      ∧ Alike w { s with roots := ts } c fun i => { e i with roots := roots i } := by
  obtain ⟨v, roots, eq, related, rest⟩ := alike.roots
  have eq : ∀ i, (e i).roots = v i :: roots i := eq
  have keep : ∀ (g : Ground), (g = s.ground ∨ ∃ f ∈ s.suspended, g = f.1) →
      ∀ (i : ι) (height : Nat) (o : UInt32), g.anchor = some height →
      Anchors (e i).roots height o → Anchors (roots i) height o := by
    intro g there i height o anchor anchored
    rw [eq i] at anchored
    exact free (v i) (roots i) g height o (related.kind i) (rest.length_eq i) there anchor anchored
  exact ⟨v, roots, eq, related, { alike with
    roots := rest
    cursor := alike.cursor.mono (.refl w) (keep _ (.inl rfl))
    suspended := alike.suspended.mono fun f mem _ reads =>
      reads.mono (.refl w) (keep _ (.inr ⟨f, mem, rfl⟩)) }⟩

omit alike in
/-- The value held last is taken back; no text lies that high. -/
theorem unhold (alike : Alike w { s with roots := tag :: ts } c e)
    (grounded : s.Grounded ts.length) :
    ∃ (v : ι → Value) (roots : ι → List Value), (∀ i, (e i).roots = v i :: roots i)
      ∧ w.Related tag v
      ∧ Alike w { s with roots := ts } c fun i => { e i with roots := roots i } := by
  refine alike.unholdWhere fun v roots g height o _ length there anchor anchored => ?_
  refine anchored.pop ?_
  rw [length]
  rcases there with rfl | ⟨f, mem, rfl⟩
  · exact grounded.1 height anchor
  · exact grounded.2 f mem height anchor

omit alike in
/-- The value held last is taken back; it is not a function. -/
theorem unholdOther (alike : Alike w { s with roots := tag :: ts } c e)
    (other : tag.kind ≠ .function) :
    ∃ (v : ι → Value) (roots : ι → List Value), (∀ i, (e i).roots = v i :: roots i)
      ∧ w.Related tag v
      ∧ Alike w { s with roots := ts } c fun i => { e i with roots := roots i } :=
  alike.unholdWhere fun _ _ _ _ _ kind _ _ _ anchored => anchored.popOther (kind ▸ other)

omit alike in
/-- The place set aside last is taken up again. -/
theorem resume {g : Ground} {t : Spot} {fs : List (Ground × Spot)}
    (alike : Alike w { s with suspended := (g, t) :: fs } c e) :
    ∃ (k : ι → Cursor) (ks : ι → List Cursor), (∀ i, (e i).suspended = k i :: ks i)
      ∧ Alike w { s with ground := g, suspended := fs } { c with spot := t }
        fun i => { e i with cursor := k i, suspended := ks i } := by
  obtain ⟨k, ks, eq, reads, rest⟩ := alike.suspended
  exact ⟨k, ks, eq, { alike with cursor := reads, suspended := rest }⟩

/-- The value held before a number of others. -/
theorem held {n : Nat} (found : s.roots[n]? = some tag) :
    ∃ v : ι → Value, w.Related tag v ∧ ∀ i, (e i).roots[n]? = some (v i) :=
  alike.roots.get found

/-! ## Registers -/

/-- Another mode.  A call leaves the result to return statements. -/
theorem withMode (m : Mode) (free : m.inCall = true → s.registers.result = none) :
    Alike w s { c with mode := m } fun i => { e i with mode := m } :=
  { alike with mode := fun _ => rfl, free := free }

theorem withScope {ages : List Nat} {a : ι → UInt32} (rel : w.rel (.object ages) a) :
    Alike w { s with registers := { s.registers with scope := ages } } c
      fun i => { e i with scope := a i } :=
  { alike with scope := rel }

theorem withPinned {known : Option (Nat × ByteArray)} {a : ι → UInt32} (pins : w.Pins known a) :
    Alike w { s with registers := { s.registers with pinned := known } } c
      fun i => { e i with pinned := a i } :=
  { alike with pinned := pins }

theorem withResult {v : ι → Value} (known : Option Tag)
    (related : w.Related tag v) (plain : tag.IsPlain) (same : ∀ t, known = some t → tag = t)
    (free : c.mode.inCall = true → known = none) :
    Alike w { s with registers := { s.registers with result := known } } c
      fun i => { e i with result := v i } :=
  { alike with result := ⟨tag, related, plain, same⟩, free := free }

/-- The result is given up to return statements. -/
theorem freeResult : Alike w { s with registers := { s.registers with result := none } } c e := by
  obtain ⟨tag, related, plain, -⟩ := alike.result
  exact { alike with result := ⟨tag, related, plain, nofun⟩, free := fun _ => rfl }

theorem withDepth (d : Nat) : Alike w { s with depth := d } c fun i => { e i with depth := d } :=
  { alike with depth := fun _ => rfl }

theorem withEvaluations (n : Nat) :
    Alike w { s with evaluations := n } c fun i => { e i with evaluations := n } :=
  { alike with evaluations := fun _ => rfl }

/-- Counters, events and the rest do not matter. -/
theorem withRest (threshold : ι → UInt32) (deepest : ι → Nat)
    (pending tracing : ι → Bool) (events : ι → Array Event) (output : ι → ByteArray) :
    Alike w s c fun i => { e i with
      threshold := threshold i, deepest := deepest i, collectPending := pending i,
      tracing := tracing i, events := events i, output := output i } :=
  { alike with }

/-- Other arenas, in which at least as much is related, with other scratch
words. -/
theorem withStore {w' : World ι} {arena : ι → Arena} {tags : List Tag}
    {limit : ι → UInt32} (le : w.Le w') (fits : w'.Fits arena)
    (scratch : Listed (fun tag v => w'.Related tag v ∧ tag.IsPlain) tags w'.scratch)
    (same : ∀ i, (arena i).limit = limit i)
    (frozen : ∀ f ∈ s.frozen, w.Freezes f.1 f.2 → w'.Freezes f.1 f.2) :
    Alike w' { s with scratch := tags, limit := limit } c
      fun i => { e i with arena := arena i } := by
  have keep : ∀ (g : Ground) (i : ι) (height : Nat) (o : UInt32), g.anchor = some height →
      Anchors (e i).roots height o → Anchors (e i).roots height o :=
    fun _ _ _ _ _ anchored => anchored
  exact { alike with
    fits := fits
    limit := same
    scope := le _ _ alike.scope
    pinned := alike.pinned.mono le
    result := by
      obtain ⟨tag, related, plain⟩ := alike.result
      exact ⟨tag, related.mono le, plain⟩
    roots := alike.roots.mono fun _ _ _ related => related.mono le
    scratch := scratch
    cursor := alike.cursor.mono le (keep _)
    suspended := alike.suspended.mono fun _ _ _ reads => reads.mono le (keep _)
    frozen := fun f mem => frozen f mem (alike.frozen f mem) }

/-- Other arenas, in which at least as much is related. -/
theorem withArena {w' : World ι} {arena : ι → Arena} (le : w.Le w')
    (fits : w'.Fits arena) (scratch : w'.scratch = w.scratch)
    (limit : ∀ i, (arena i).limit = (e i).arena.limit)
    (frozen : ∀ f ∈ s.frozen, w.Freezes f.1 f.2 → w'.Freezes f.1 f.2) :
    Alike w' s c fun i => { e i with arena := arena i } := by
  refine alike.withStore le fits ?_ (fun i => (limit i).trans (alike.limit i)) frozen
  rw [scratch]
  exact alike.scratch.mono fun _ _ _ related => ⟨related.1.mono le, related.2⟩

end Alike

end ArenaScript.Lockstep
