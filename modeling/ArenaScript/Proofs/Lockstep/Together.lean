import ArenaScript.Proofs.Evaluate.Course
import ArenaScript.Proofs.Lockstep.Places

/-!
# Routines in step

The routines of engines that agree wait for the same productions and end with
related values.  `Together` says so of routines that are under way: all have
finished with a common property, or all wait for the same production and go on
together whatever its outcome.

Arenas differ in how much room they have left, so one engine may run out of
memory where another one does not.  Then the engines no longer agree, and all
that is known is that one of them ends a production with an error of that kind.
Such a loss needs a second engine: an engine on its own always goes on.  Under
strict rules it never halts.

Main definitions:

- `Ready`: productions that engines which agree may perform together.
- `Out`: how such productions end.  Unless they fail, they have read a phrase of the
  grammar.
- `Together`: routines in step.

Main results:

- `Together.bind`: one routine after the other.
- `Together.call`, `Together.give`, `Together.goOn`: the ways a routine goes on.
- `Together.checked`: a value that ends a routine if it is an error.
-/

namespace ArenaScript

/-- The failure recorded last is one for want of memory. -/
def ErrorLog.JustFull (log : ErrorLog) : Prop := ∃ before : ErrorLog, log = before.record
    .outOfMemory

namespace Lockstep

open Grammar

variable {ι : Type}

/-! ## Productions performed together -/

/-- What is known of the outcome of a production in advance. -/
structure Role (ι : Type) where
  /-- The production only reads, so that all that is related stays related. -/
  stays : Prop
  /-- The tags its value may have, and where it may end. -/
  gives : Current → Tag → Prop
  /-- What it leaves behind. -/
  ends : Standing ι → Prop
  /-- It may fail. -/
  fails : ∀ (c : Current) (tag : Tag), tag.isError = true → gives c tag

theorem Tag.isPlain_of_isError {tag : Tag} (error : tag.isError = true) : tag.IsPlain := by
  rw [Tag.isError, beq_iff_eq] at error
  rw [Tag.IsPlain, error]
  decide

/-- A tag with a property, given in a place with a property unless it is that of
an error. -/
def Given (P : Tag → Prop) (reads : Current → Prop) (c : Current) (tag : Tag) : Prop :=
  P tag ∧ (tag.isError = false → reads c)

namespace Given

variable {P Q : Tag → Prop} {reads reads' : Current → Prop} {c c' : Current} {tag : Tag}

theorem failed (given : P tag) (error : tag.isError = true) : Given P reads c tag :=
  ⟨given, fun sane => absurd error (Bool.eq_false_iff.mp sane)⟩

theorem mono (given : Given P reads c tag) (le : P tag → Q tag)
    (next : tag.isError = false → reads c → reads' c') : Given Q reads' c' tag :=
  ⟨le given.1, fun sane => next sane (given.2 sane)⟩

theorem ofPlain (given : Given Tag.IsPlain reads c tag) : Given Tag.IsOperand reads c tag :=
  given.mono Tag.IsPlain.isOperand fun _ => id

theorem plain_of_isError (error : tag.isError = true) : Given Tag.IsPlain reads c tag :=
  failed (Tag.isPlain_of_isError error) error

theorem operand_of_isError (error : tag.isError = true) : Given Tag.IsOperand reads c tag :=
  (plain_of_isError error).ofPlain

end Given

namespace Role

/-- Productions that leave all as they found it. -/
abbrev keeping (stays : Prop) (gives : Current → Tag → Prop) (s : Standing ι)
    (fails : ∀ (c : Current) (tag : Tag), tag.isError = true → gives c tag) : Role ι :=
  ⟨stays, gives, (· = s), fails⟩

/-- Productions that give operands. -/
abbrev operand (s : Standing ι) (mode : Mode) (reads : Current → Prop) : Role ι :=
  keeping (mode.dry = true) (Given Tag.IsOperand reads) s fun _ _ => Given.operand_of_isError

/-- Productions that give plain values. -/
abbrev plain (s : Standing ι) (mode : Mode) (reads : Current → Prop) : Role ι :=
  keeping (mode.dry = true) (Given Tag.IsPlain reads) s fun _ _ => Given.plain_of_isError

/-- Productions that may execute whatever the mode is. -/
abbrev active (s : Standing ι) (reads : Current → Prop) : Role ι :=
  keeping False (Given Tag.IsPlain reads) s fun _ _ => Given.plain_of_isError

/-- Productions that may end anywhere. -/
abbrev anywhere (s : Standing ι) : Role ι := active s fun _ => True

/-- Productions that may leave another text and another result behind. -/
abbrev called (s : Standing ι) : Role ι :=
  ⟨False, fun _ => Tag.IsPlain, fun s' => ∃ g result, s' = { s with
    ground := g, registers := { s.registers with result := result } },
    fun _ _ => Tag.isPlain_of_isError⟩

/-- Phrases of expressions. -/
abbrev reading (s : Standing ι) (c : Current) (phrase : Phrase) : Role ι :=
  operand s c.mode (Read s.ground.text c.mode phrase (c.spot.place s.ground.text))

/-- Phrases of lists. -/
abbrev listing (s : Standing ι) (c : Current) (phrase : Phrase) : Role ι :=
  plain s c.mode (Read s.ground.text c.mode phrase (c.spot.place s.ground.text))

/-- Phrases of statements. -/
abbrev passing (s : Standing ι) (c : Current) (phrase : Phrase) : Role ι :=
  plain s c.mode (Passed s.ground.text c.mode phrase (c.spot.place s.ground.text))

end Role

section

variable [Rules ι]

/-- Productions that engines which agree may perform together.  A value that
the routine of a production is given is related; what the routine takes from
the stacks is there.  The parts of an expression stand below it. -/
inductive Ready (w : World ι) (s : Standing ι) (c : Current) : (ι → Production) → Role ι → Prop
  | expression : Ready w s c (fun _ => .expression) (.reading s c .expression)
  | assignment (deep : 0 < s.depth) : Ready w s c (fun _ => .assignment) (.reading s c .assignment)
  | assignmentRest (deep : 0 < s.depth) {tag : Tag} {v : ι → Value} (related : w.Related tag v)
      (operand : tag.IsOperand) :
      Ready w s c (fun i => .assignmentRest (v i)) (.operand s c.mode
        (ReadAfter tag s.ground.text c.mode .assignmentRest (c.spot.place s.ground.text)))
  | conditional (deep : 0 < s.depth) : Ready w s c (fun _ => .conditional)
    (.reading s c .conditional)
  | logical (deep : 0 < s.depth) (op : LogicalOp) :
      Ready w s c (fun _ => .logical op) (.reading s c (.logical op))
  | logicalRest (deep : 0 < s.depth) (op : LogicalOp) {tag : Tag} {v : ι → Value} (mode : Mode)
      (related : w.Related tag v) (operand : tag.IsOperand)
      (dry : mode.dry = true → c.mode.dry = true)
      (free : mode.inCall = true → s.registers.result = none) :
      Ready w s c (fun i => .logicalRest op (v i) mode) (.operand s mode
        (Read s.ground.text mode (.logicalRest op) (c.spot.place s.ground.text)))
  | binary (deep : 0 < s.depth) (level : Nat) :
      Ready w s c (fun _ => .binary level) (.reading s c (.binary level))
  | binaryRest (deep : 0 < s.depth) (level : Nat) {tag : Tag} {v : ι → Value}
      (related : w.Related tag v) (operand : tag.IsOperand) :
      Ready w s c (fun i => .binaryRest level (v i)) (.operand s c.mode
        (ReadAfter tag s.ground.text c.mode (.binaryRest level) (c.spot.place s.ground.text)))
  | unary (deep : 0 < s.depth) : Ready w s c (fun _ => .unary) (.reading s c .unary)
  | access (deep : 0 < s.depth) : Ready w s c (fun _ => .access) (.reading s c .access)
  | accessRest (deep : 0 < s.depth) {tag : Tag} {v : ι → Value} (related : w.Related tag v)
      (operand : tag.IsOperand) :
      Ready w s c (fun i => .accessRest (v i)) (.operand s c.mode
        (ReadAfter tag s.ground.text c.mode .accessRest (c.spot.place s.ground.text)))
  | members {tag : Tag} {ts : List Tag} (roots : s.roots = tag :: ts)
      (object : c.mode.dry = true ∨ ∃ ages, tag = .object ages ∧ s.Spares ages) :
      Ready w s c (fun _ => .members) (.listing s c .members)
  | parameters (afterComma : Bool) :
      Ready w s c (fun _ => .parameters afterComma) (.listing s c (.parameters afterComma))
  | argumentList (afterComma : Bool) (dry : c.mode.dry = true) :
      Ready w s c (fun _ => .argumentList afterComma) (.listing s c (.argumentList afterComma))
  | bindParameters (pos : Nat) {caller : List Nat} {age : Nat} {text : ByteArray} {tag : Tag}
      {ts : List Tag}
      (roots : s.roots = .object s.registers.scope :: tag :: .object caller :: .function age text ::
        ts)
      (leads : Strict ι → (Source.ofBytes text).LeadsToBody pos)
      (spares : s.Spares s.registers.scope) :
      Ready w s c (fun _ => .bindParameters pos text.size) (.called s)
  | pushArguments (index : Nat) (count : UInt32) (hosted : Hosted ι)
      (enough : count.toNat ≤ s.scratch.length) (known : index < s.natives.length) :
      Ready w s c (fun _ => .pushArguments index count)
        (.anywhere { s with
          scratch := s.scratch.drop count.toNat, limit := fun i => s.limit i + 8 * count })
  | statement (isOpen : s.Open c.mode) :
      Ready w s c (fun _ => .statement) (.passing s c .statement)
  | block (inScope : Bool) (isOpen : inScope = false → s.Open c.mode) :
      Ready w s c (fun _ => .block inScope) (.passing s c .block)
  | blockRest {tag : Tag} {v : ι → Value} (related : w.Related tag v) (plain : tag.IsPlain)
      (isOpen : tag.isError = false → s.Open c.mode) :
      Ready w s c (fun i => .blockRest (v i)) (.plain s c.mode
        (PassedAfter tag s.ground.text c.mode .blockRest (c.spot.place s.ground.text)))
  | bindings (execute : Bool) (spares : execute = true → s.Spares s.registers.scope) :
      Ready w s c (fun _ => .bindings execute) (.listing s c .bindings)
  | rounds (mode : Mode) (marks : LoopMarks) (dry : mode.dry = true → c.mode.dry = true)
      (free : mode.inCall = true → s.registers.result = none)
      (inside : marks.condition ≤ s.ground.text.size ∧ marks.step ≤ s.ground.text.size
        ∧ marks.body ≤ s.ground.text.size ∧ marks.after ≤ s.ground.text.size)
      (returned : c.mode.returned = mode.returned)
      (behind : mode.dry = true → c.spot.pos = marks.after) (isOpen : s.Open mode) :
      Ready w s c (fun _ => .rounds mode marks) (.plain s mode (Circled mode marks.after))
  | script {tag : Tag} {v : ι → Value} (related : w.Related tag v) (plain : tag.IsPlain)
      (isOpen : tag.isError = false → s.Open c.mode) :
      Ready w s c (fun i => .script (v i)) (.active s
        (PassedAfter tag s.ground.text c.mode .script (c.spot.place s.ground.text)))
  | evaluate (text : ByteArray) (small : Strict ι → text.size < 2 ^ 24)
      (spares : s.Spares s.registers.scope) :
      Ready w s c (fun _ => .evaluate text) (.anywhere s)

end

/-- What has been related since a production started is still related, if the
production only reads; and it still only reads. -/
def Since (stays : Prop) (w₀ w : World ι) (c : Current) : Prop :=
  stays → w₀.Le w ∧ c.mode.dry = true

section

variable [Rules ι]

/-- How a production of a role ends that started in a world. -/
def Out (w₀ : World ι) (role : Role ι) (o : ι → Value × Engine) : Prop :=
  ∃ (w : World ι) (s : Standing ι) (c : Current) (tag : Tag) (v : ι → Value) (e : ι → Engine),
    (∀ i, o i = (v i, e i)) ∧ Alike w s c e ∧ role.ends s ∧ Since role.stays w₀ w c
      ∧ w.Related tag v ∧ role.gives c tag

/-- How the routine of a production ends: with a value, or by handing over to a
production whose outcome is its own. -/
def Goes (w₀ : World ι) (role : Role ι) (r : ι → Next × Engine) : Prop :=
  (∃ o, Out w₀ role o ∧ ∀ i, r i = (.value (o i).1, (o i).2)) ∨
    ∃ (w : World ι) (s : Standing ι) (c : Current) (q : ι → Production) (role' : Role ι)
      (e : ι → Engine), (∀ i, r i = (.goOn (q i), e i)) ∧ Ready w s c q role' ∧ Alike w s c e
        ∧ ∀ o, Out w role' o → Out w₀ role o

/-- An engine that has just failed for want of memory, with the error. -/
def LostValue (r : Value × Engine) : Prop := r.1.isError = true ∧ r.2.log.JustFull

/-- A production that ends on an engine which has just failed for want of
memory. -/
def LostNext (r : Next × Engine) : Prop := r.2.log.JustFull

/-- A routine that is lost or halts. -/
def Loses {α : Type} (L : α → Prop) (p : Progress α) : Prop :=
  (∃ h, p = .halted h) ∨ ∃ r, p = .finished r ∧ L r

/-- Routines in step: they have finished with a common property, or wait for
productions performed together and go on in step.  One of them may have halted,
unless the rules are strict, or one of several may be lost. -/
inductive Together {α : Type} (L : α → Prop) (P : (ι → α) → Prop) :
    (ι → Progress α) → Prop
  | finished {p : ι → Progress α} (r : ι → α) (eq : ∀ i, p i = .finished (r i)) (holds : P r) :
      Together L P p
  | halted {p : ι → Progress α} (lax : ¬ Strict ι) (i : ι) (h : Halt) (eq : p i = .halted h) :
      Together L P p
  | lost {p : ι → Progress α} (several : ¬ Subsingleton ι) (i : ι) (r : α)
      (eq : p i = .finished r) (lost : L r) : Together L P p
  | waiting {p : ι → Progress α} {w : World ι} {s : Standing ι} {c : Current} {role : Role ι}
      (q : ι → Production) (e : ι → Engine) (k : ι → Value × Engine → Progress α)
      (eq : ∀ i, p i = .waiting (q i) (e i) (k i)) (ready : Ready w s c q role)
      (alike : Alike w s c e)
      (next : ∀ o, Out w role o → (∀ i, (q i).Performs (e i) (o i)) →
        Together L P fun i => k i (o i)) : Together L P p

end

namespace Since

variable {stays : Prop} {w₀ w w' : World ι} {c c' : Current}

theorem refl (w : World ι) (c : Current) : Since (c.mode.dry = true) w w c :=
  fun dry => ⟨.refl w, dry⟩

theorem never (w₀ w : World ι) (c : Current) : Since False w₀ w c := False.elim

/-- A production that only reads if the one that started does. -/
theorem later {stays' : Prop} (since : stays → w₀.Le w ∧ stays') (next : Since stays' w w' c') :
    Since stays w₀ w' c' := by
  intro h
  obtain ⟨le, h'⟩ := since h
  obtain ⟨le', dry⟩ := next h'
  exact ⟨le.trans le', dry⟩

theorem trans (since : Since stays w₀ w c) (next : Since (c.mode.dry = true) w w' c') :
    Since stays w₀ w' c' :=
  later since next

/-- A mode that is dry whenever the production only reads. -/
theorem withMode (since : Since stays w₀ w c) {m : Mode} (dry : stays → m.dry = true) :
    Since stays w₀ w { c with mode := m } :=
  fun h => ⟨(since h).1, dry h⟩

end Since

/-- An action leaves the mode as it is, and the place unless it fails. -/
structure Unmoved (c₀ c : Current) (tag : Tag) : Prop where
  mode : c.mode = c₀.mode
  spot : tag.isError = false → c.spot = c₀.spot

namespace Unmoved

variable {c₀ c₁ c₂ : Current} {tag tag' : Tag}

theorem refl (c : Current) (tag : Tag) : Unmoved c c tag := ⟨rfl, fun _ => rfl⟩

theorem failed (mode : c₁.mode = c₀.mode) (error : tag.isError = true) : Unmoved c₀ c₁ tag :=
  ⟨mode, fun sane => absurd error (Bool.eq_false_iff.mp sane)⟩

end Unmoved

variable [Rules ι]

/-- How an action ends that gives a value: engines agree in a world that relates
more, in the same mode and place. -/
def Placed (w₀ : World ι) (s : Standing ι) (c₀ : Current) (gives : Tag → Prop)
    (r : ι → Value × Engine) : Prop :=
  ∃ (w : World ι) (c : Current) (tag : Tag) (v : ι → Value) (e : ι → Engine),
    (∀ i, r i = (v i, e i)) ∧ w₀.Le w ∧ Alike w s c e ∧ Unmoved c₀ c tag ∧ w.Related tag v
      ∧ gives tag

/-- A way to end a routine with a value. -/
structure Ending {α : Type} (w₀ : World ι) (role : Role ι) (L : α → Prop) (P : (ι → α) → Prop)
    (ending : Value × Engine → α) : Prop where
  out : ∀ o, Out w₀ role o → P fun i => ending (o i)
  lost : ∀ r, LostValue r → L (ending r)

/-- A value is given back to the routine that asked for it. -/
theorem Ending.value (w₀ : World ι) (role : Role ι) :
    Ending w₀ role LostValue (Out w₀ role) id :=
  ⟨fun _ out => out, fun _ lost => lost⟩

/-- A value ends a production. -/
theorem Ending.next (w₀ : World ι) (role : Role ι) :
    Ending w₀ role LostNext (Goes w₀ role) fun r => (.value r.1, r.2) :=
  ⟨fun o out => .inl ⟨o, out, fun _ => rfl⟩, fun _ lost => lost.2⟩

namespace Together

variable {α β : Type} {L : α → Prop} {P : (ι → α) → Prop} {p : ι → Progress α}

/-- One routine after the other.  A loss in the first one must be a loss in the
second one. -/
theorem bind {L' : β → Prop} {P' : (ι → β) → Prop} {f : ι → α → Progress β}
    (first : Together L P p) (next : ∀ r, P r → Together L' P' fun i => f i (r i))
    (loss : ∀ i r, L r → Loses L' (f i r)) :
    Together L' P' fun i => (p i).bind (f i) := by
  induction first with
  | finished r eq holds =>
    have going := next r holds
    simpa only [eq, Progress.bind] using going
  | halted lax i h eq =>
    refine .halted lax i h ?_
    rw [eq]
    rfl
  | lost several i r eq lost =>
    rcases loss i r lost with ⟨h, eq'⟩ | ⟨r', eq', lost'⟩
    · refine .halted (fun strict => several strict.lone) i h ?_
      rw [eq]
      exact eq'
    · refine .lost several i r' ?_ lost'
      rw [eq]
      exact eq'
  | waiting q e k eq ready alike _ ih =>
    refine .waiting q e (fun i o => (k i o).bind (f i)) (fun i => ?_) ready alike ih
    rw [eq i]
    rfl

theorem mono {P' : (ι → α) → Prop} (together : Together L P p) (le : ∀ r, P r → P' r) :
    Together L P' p := by
  induction together with
  | finished r eq holds => exact .finished r eq (le r holds)
  | halted lax i h eq => exact .halted lax i h eq
  | lost several i r eq lost => exact .lost several i r eq lost
  | waiting q e k eq ready alike _ ih => exact .waiting q e k eq ready alike ih

/-- What routines come to is how they end. -/
theorem ends (together : Together L P p) :
    Together L (fun r => P r ∧ ∀ i, (p i).Ends (r i)) p := by
  induction together with
  | finished r eq holds => exact .finished r eq ⟨holds, fun i => eq i ▸ .finished (r i)⟩
  | halted lax i h eq => exact .halted lax i h eq
  | lost several i r eq lost => exact .lost several i r eq lost
  | waiting q e k eq ready alike _ ih =>
    refine .waiting q e k eq ready alike fun o out performs => ?_
    refine (ih o out performs).mono fun r holds => ⟨holds.1, fun i => ?_⟩
    rw [eq i]
    exact .waiting (performs i) (holds.2 i)

variable {w₀ w : World ι} {s : Standing ι} {c : Current} {e : ι → Engine} {role : Role ι}
  {tag : Tag} {v : ι → Value} {stays : Prop} {gives : Current → Tag → Prop}
  {fails : ∀ (c : Current) (tag : Tag), tag.isError = true → gives c tag}
  {places : Tag → Prop} {ending : Value × Engine → α}
  {q : ι → Production} {p : ι → Progress (Value × Engine)}
  {L₁ : Value × Engine → Prop} {f : ι → Value × Engine → Progress α}

/-! ## Choices on the way -/

/-- What follows a choice whose first branch is a value. -/
theorem joinThen {b : Prop} [Decidable b] {a : ι → β} {p : ι → Progress β}
    {f : ι → β → Progress α}
    (all : Together L P fun i => (if b then .finished (a i) else p i).bind (f i)) :
    Together L P fun i => if b then f i (a i) else (p i).bind (f i) := by
  by_cases choice : b
  · simpa only [choice, if_true, Progress.bind] using all
  · simpa only [choice, if_false] using all

/-- What follows a choice whose second branch is a value. -/
theorem joinElse {b : Prop} [Decidable b] {a : ι → β} {p : ι → Progress β}
    {f : ι → β → Progress α}
    (all : Together L P fun i => (if b then p i else .finished (a i)).bind (f i)) :
    Together L P fun i => if b then (p i).bind (f i) else f i (a i) := by
  by_cases choice : b
  · simpa only [choice, if_true] using all
  · simpa only [choice, if_false, Progress.bind] using all

/-! ## Ways to end -/

/-- Related values end a routine. -/
theorem finish (way : Ending w₀ role L P ending) (alike : Alike w s c e) (ends : role.ends s)
    (since : Since role.stays w₀ w c) (related : w.Related tag v) (gives : role.gives c tag) :
    Together L P fun i => .finished (ending (v i, e i)) :=
  .finished _ (fun _ => rfl) (way.out _
    ⟨w, s, c, tag, v, e, fun _ => rfl, alike, ends, since, related, gives⟩)

/-- A routine that gives related values back to another one. -/
theorem done (alike : Alike w s c e) (ends : role.ends s) (since : Since role.stays w₀ w c)
    (related : w.Related tag v) (gives : role.gives c tag) :
    Together LostValue (Out w₀ role) fun i => .finished (v i, e i) :=
  finish (.value w₀ role) alike ends since related gives

/-- A production that ends with related values. -/
theorem give (alike : Alike w s c e) (ends : role.ends s) (since : Since role.stays w₀ w c)
    (related : w.Related tag v) (gives : role.gives c tag) :
    Together LostNext (Goes w₀ role) fun i => .finished (.value (v i), e i) :=
  finish (.next w₀ role) alike ends since related gives

/-- The value of a routine ends another one. -/
theorem ended (way : Ending w₀ role L P ending) (together : Together LostValue (Out w₀ role) p) :
    Together L P fun i => (p i).bind fun r => .finished (ending r) :=
  together.bind (fun r out => .finished _ (fun _ => rfl) (way.out r out))
    fun _ r lost => .inr ⟨_, rfl, way.lost r lost⟩

/-- A production that hands over to another one. -/
theorem goOn {role' : Role ι} (ready : Ready w s c q role')
    (alike : Alike w s c e) (ends : ∀ s', role'.ends s' → role.ends s')
    (since : role.stays → w₀.Le w ∧ role'.stays)
    (gives : ∀ c tag, role'.gives c tag → role.gives c tag) :
    Together LostNext (Goes w₀ role) fun i => .finished (.goOn (q i), e i) := by
  refine .finished _ (fun _ => rfl) (.inr ⟨w, s, c, q, role', e, fun _ => rfl, ready, alike, ?_⟩)
  rintro o ⟨w', s', c', tag, v, e', eq, alike', ends', since', related, gives'⟩
  exact ⟨w', s', c', tag, v, e', eq, alike', ends s' ends', .later since since', related,
    gives c' tag gives'⟩

/-! ## Values on the way -/

/-- The value of a production. -/
theorem call (alike : Alike w s c e) (ready : Ready w s c q role) :
    Together L₁ (Out w role) fun i => Routine.call (q i) (e i) :=
  .waiting q e (fun _ => .finished) (fun _ => rfl) ready alike
    fun o out _ => .finished o (fun _ => rfl) out

/-- A routine with a value, and what follows how it ends. -/
theorem afterEnd (first : Together L₁ (Out w (.keeping stays gives s fails)) p)
    (next : ∀ (w' : World ι) (c' : Current) (tag : Tag) (v : ι → Value) (e' : ι → Engine),
      Alike w' s c' e' → Since stays w w' c' → w'.Related tag v → gives c' tag →
        (∀ i, (p i).Ends (v i, e' i)) → Together L P fun i => f i (v i, e' i))
    (loss : ∀ i r, L₁ r → Loses L (f i r)) :
    Together L P fun i => (p i).bind (f i) := by
  refine first.ends.bind (fun r out => ?_) loss
  obtain ⟨⟨w', s', c', tag, v, e', eq, alike, rfl, since, related, gives⟩, ends⟩ := out
  obtain rfl : r = fun i => (v i, e' i) := funext eq
  exact next w' c' tag v e' alike since related gives ends

/-- A routine with a value, and what follows. -/
theorem after (first : Together L₁ (Out w (.keeping stays gives s fails)) p)
    (next : ∀ (w' : World ι) (c' : Current) (tag : Tag) (v : ι → Value) (e' : ι → Engine),
      Alike w' s c' e' → Since stays w w' c' → w'.Related tag v → gives c' tag →
        Together L P fun i => f i (v i, e' i))
    (loss : ∀ i r, L₁ r → Loses L (f i r)) :
    Together L P fun i => (p i).bind (f i) :=
  first.afterEnd (fun w' c' tag v e' alike since related gives _ =>
    next w' c' tag v e' alike since related gives) loss

/-- The value of a production that leaves all as it found it, and what follows. -/
theorem afterCall (ready : Ready w s c q (.keeping stays gives s fails)) (alike : Alike w s c e)
    (next : ∀ (w' : World ι) (c' : Current) (tag : Tag) (v : ι → Value) (e' : ι → Engine),
      Alike w' s c' e' → Since stays w w' c' → w'.Related tag v → gives c' tag →
        Together L P fun i => f i (v i, e' i)) :
    Together L P fun i => (Routine.call (q i) (e i)).bind (f i) := by
  -- a call is never lost by itself
  have first : Together (fun _ => False) (Out w (.keeping stays gives s fails))
      fun i => Routine.call (q i) (e i) := call alike ready
  exact first.after next fun _ _ lost => lost.elim

/-- A routine with a value that ends all if it is an error. -/
theorem checked (way : Ending w₀ role L P ending)
    (first : Together LostValue (Out w (.keeping stays gives s fails)) p)
    (ends : role.ends s) (since : role.stays → w₀.Le w ∧ stays)
    (next : ∀ (w' : World ι) (c' : Current) (tag : Tag) (v : ι → Value) (e' : ι → Engine),
      Alike w' s c' e' → Since stays w w' c' → Since role.stays w₀ w' c' → w'.Related tag v →
        gives c' tag → tag.isError = false → Together L P fun i => f i (v i, e' i)) :
    Together L P fun i => (p i).bind fun r =>
      if r.1.isError = true then .finished (ending r) else f i r := by
  refine first.after (fun w' c' tag v e' alike since' related gives => ?_) fun i r lost => ?_
  · have since : Since role.stays w₀ w' c' := Since.later since since'
    simp only [related.isError]
    by_cases error : tag.isError = true
    · simp only [error, if_true]
      exact finish way alike ends since related (role.fails c' tag error)
    · simp only [error, Routine.steps]
      exact next w' c' tag v e' alike since' since related gives (Bool.eq_false_iff.mpr error)
  · right
    refine ⟨ending r, ?_, way.lost r lost⟩
    rw [if_pos lost.1]

/-- An action with a value, and what follows. -/
theorem andThen (first : Together LostValue (Placed w s c places) p)
    (next : ∀ (w' : World ι) (c' : Current) (tag : Tag) (v : ι → Value) (e' : ι → Engine),
      w.Le w' → Alike w' s c' e' → Unmoved c c' tag → w'.Related tag v → places tag →
        Together L P fun i => f i (v i, e' i))
    (loss : ∀ i r, LostValue r → Loses L (f i r)) :
    Together L P fun i => (p i).bind (f i) := by
  refine first.bind (fun r placed => ?_) loss
  obtain ⟨w', c', tag, v, e', eq, le, alike, unmoved, related, given⟩ := placed
  obtain rfl : r = fun i => (v i, e' i) := funext eq
  exact next w' c' tag v e' le alike unmoved related given

/-- An action with a value that ends all if it is an error. -/
theorem checkedThen (way : Ending w₀ role L P ending)
    (first : Together LostValue (Placed w s c places) p) (ends : role.ends s)
    (since : Since role.stays w₀ w c)
    (next : ∀ (w' : World ι) (c' : Current) (tag : Tag) (v : ι → Value) (e' : ι → Engine),
      w.Le w' → Alike w' s c' e' → Unmoved c c' tag → Since role.stays w₀ w' c' →
        w'.Related tag v → places tag → tag.isError = false →
        Together L P fun i => f i (v i, e' i)) :
    Together L P fun i => (p i).bind fun r =>
      if r.1.isError = true then .finished (ending r) else f i r := by
  refine first.andThen (fun w' c' tag v e' le alike unmoved related given => ?_) fun i r lost => ?_
  · have since : Since role.stays w₀ w' c' := fun h => by
      rw [unmoved.mode]
      exact ⟨(since h).1.trans le, (since h).2⟩
    simp only [related.isError]
    by_cases error : tag.isError = true
    · simp only [error, if_true]
      exact finish way alike ends since related (role.fails c' tag error)
    · simp only [error, Routine.steps]
      exact next w' c' tag v e' le alike unmoved since related given (Bool.eq_false_iff.mpr error)
  · right
    refine ⟨ending r, ?_, way.lost r lost⟩
    rw [if_pos lost.1]

/-- Engines that agree give a value without a loss. -/
theorem placed {w' : World ι} {c' : Current} (le : w.Le w') (alike : Alike w' s c' e)
    (unmoved : Unmoved c c' tag) (related : w'.Related tag v) (given : places tag) :
    Together LostValue (Placed w s c places) fun i => .finished (v i, e i) :=
  .finished _ (fun _ => rfl) ⟨w', c', tag, v, e, fun _ => rfl, le, alike, unmoved, related, given⟩

/-- The value of a routine is that of one that started earlier. -/
theorem within (first : Together LostValue (Out w (.keeping stays gives s fails)) p)
    (ends : role.ends s) (since : role.stays → w₀.Le w ∧ stays)
    (le : ∀ c tag, gives c tag → role.gives c tag) : Together LostValue (Out w₀ role) p := by
  refine first.mono fun r out => ?_
  obtain ⟨w', s', c', tag, v, e', eq, alike, rfl, since', related, given⟩ := out
  exact ⟨w', s', c', tag, v, e', eq, alike, ends, Since.later since since', related,
    le c' tag given⟩

/-- The end of a production is that of one that started earlier. -/
theorem goesWithin {p : ι → Progress (Next × Engine)}
    (first : Together LostNext (Goes w (.keeping stays gives s fails)) p)
    (ends : role.ends s) (since : role.stays → w₀.Le w ∧ stays)
    (le : ∀ c tag, gives c tag → role.gives c tag) : Together LostNext (Goes w₀ role) p := by
  have lift : ∀ o, Out w (.keeping stays gives s fails) o → Out w₀ role o := by
    rintro o ⟨w', s', c', tag, v, e', eq, alike, rfl, since', related, given⟩
    exact ⟨w', s', c', tag, v, e', eq, alike, ends, Since.later since since', related,
      le c' tag given⟩
  refine first.mono fun r goes => ?_
  rcases goes with ⟨o, out, eq⟩ | ⟨w', s', c', q, role', e', eq, ready, alike, outs⟩
  · exact .inl ⟨o, lift o out, eq⟩
  · exact .inr ⟨w', s', c', q, role', e', eq, ready, alike, fun o out => lift o (outs o out)⟩

/-- The value of an action is handed over to another production. -/
theorem goOnWith {q : Value → Production} {P' : Tag → Prop}
    {reads' : Current → Tag → Current → Prop}
    {fails' : ∀ (c₁ : Current) (tag' : Tag) (c : Current) (tag : Tag), tag.isError = true →
      Given P' (reads' c₁ tag') c tag}
    (first : Together LostValue (Placed w s c places) p) (ends : role.ends s)
    (since : Since role.stays w₀ w c)
    (ready : ∀ (w' : World ι) (c' : Current) (tag : Tag) (v : ι → Value), w'.Related tag v →
      places tag → Ready w' s c' (fun i => q (v i))
        (.keeping (c'.mode.dry = true) (Given P' (reads' c' tag)) s (fails' c' tag)))
    (le : ∀ (c₁ : Current) (tag₁ : Tag), Unmoved c c₁ tag₁ → places tag₁ → ∀ c' tag,
      Given P' (reads' c₁ tag₁) c' tag → role.gives c' tag) :
    Together LostNext (Goes w₀ role)
      fun i => (p i).bind fun r => .finished (.goOn (q r.1), r.2) := by
  refine first.andThen ?_ fun _ r lost => .inr ⟨_, rfl, lost.2⟩
  intro w' c' tag v e' le' alike unmoved related given
  refine goOn (ready w' c' tag v related given) alike ?_ (fun h => ?_) (le c' tag unmoved given)
  · rintro s' rfl
    exact ends
  · rw [unmoved.mode]
    exact ⟨(since h).1.trans le', (since h).2⟩

/-- An action leaves all as it found it. -/
theorem out (fails : ∀ tag : Tag, tag.isError = true → places tag)
    (first : Together LostValue (Placed w s c places) p) :
    Together LostValue (Out w (.keeping (c.mode.dry = true)
      (Given places fun c' => c'.mode = c.mode ∧ c'.spot = c.spot) s
      fun _ tag error => .failed (fails tag error) error)) p := by
  refine first.mono fun r placed => ?_
  obtain ⟨w', c', tag, v, e', eq, le, alike, unmoved, related, given⟩ := placed
  refine ⟨w', s, c', tag, v, e', eq, alike, rfl, fun dry => ⟨le, ?_⟩, related,
    given, fun sane => ⟨unmoved.mode, unmoved.spot sane⟩⟩
  rw [unmoved.mode]
  exact dry

end Together

end Lockstep

end ArenaScript
