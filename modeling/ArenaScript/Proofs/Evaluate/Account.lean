import ArenaScript.Proofs.Engine.Failures
import ArenaScript.Proofs.Evaluate.Copies
import ArenaScript.Proofs.Evaluate.Credit

/-!
# The account of a dry run

All that is to be known of a dry run is said of its routines at once, in one judgement.
A routine leaves the engine undisturbed, whatever the text.  If the place is one of the
text, it does not halt, gets by with its credit, and gives a value of a dry run.  And at
the corresponding place of a copy of the text it does the same.

How far a dry run is from its end is not told by the place alone: tokens are seen before
they are used, some are to be seen again, and some take up no room.  What is left of a
text is therefore counted in bytes after the place, and one more for a token that was
scanned and not used yet.  Every byte left is worth a credit of 32 steps.  The productions
that call each other without using up a token get a credit of their own, which decreases
from the outer to the inner ones.  A statement or an expression that does not fail has used
up a token, and pays for what comes after it.  A failure ends the text, so that nothing is
left to be paid for.

Main definitions:

- `Cursor.left`: what is left of a text.
- `Production.ReadsIn`: the productions that a dry run performs.
- `Production.share`, `Production.gain`: the credit of a production apart from
  the text, and the part of it that is left at the end.
- `Budget.dryRun`: the budget of dry runs.
- `Routine.Lasts`: the judgement.

Main results:

- `Routine.Lasts.after`: one routine after the other.
- `Routine.Lasts.call`: the credit of a call.
-/

namespace ArenaScript

open Engine

/-! ## What is left of a text -/

namespace Cursor

variable {k : Cursor}

/-- The bytes after the place, and one more for a token that takes up room and is
not used. -/
def left (k : Cursor) : Nat := k.length - k.pos + if k.consumed || k.token.isBare then 0 else 1

/-- The credit that what is left of a text is worth. -/
def credit (k : Cursor) : Nat := 32 * k.left

theorem credit_use_le (k : Cursor) : k.use.credit ≤ k.credit := by
  simp only [credit, left, use, Bool.true_or, if_true]
  omega

theorem credit_le_unuse (k : Cursor) : k.credit ≤ k.unuse.credit := by
  simp only [credit, left, unuse, Bool.false_or]
  cases k.consumed <;> cases k.token.isBare <;>
    simp only [Bool.or_true, Bool.or_false, if_true] <;> omega

/-- A token that takes up room is worth the credit of a byte. -/
theorem credit_use (unused : k.consumed = false) (room : k.token.isBare = false) :
    k.use.credit + 32 = k.credit := by
  simp only [credit, left, use, unused, room, Bool.true_or, if_true, Bool.or_self,
    Bool.false_eq_true, if_false]
  omega

theorem unuse_eq (unused : k.consumed = false) : k.unuse = k := by
  rw [unuse, ← unused]

theorem Spent.credit (spent : k.Spent) : k.credit = 0 := by
  simp only [Cursor.credit, left, spent.1, spent.2, Bool.or_true, if_true]
  omega

/-- Scanning a token is free: the bytes that it takes up are replaced by the token
itself. -/
theorem credit_advance_le (inside : k.pos ≤ k.length) (arena : ByteArray) :
    (k.advance arena).credit ≤ k.credit := by
  rw [Cursor.advance]
  split
  · next used =>
    have up := k.le_scan_start arena
    have stop := k.scan_inside arena inside
    simp only [credit, left, accept, used, Bool.true_or, if_true, Bool.false_or]
    split
    · omega
    · next room =>
      have some : ((k.source arena).scan k.pos).length ≠ 0 := fun empty => room
        (isBare_of_scan empty)
      omega
  · exact Nat.le_refl _

theorem consumed_advance (k : Cursor) (arena : ByteArray) : (k.advance arena).consumed = false := by
  rw [Cursor.advance]
  split
  · rfl
  · next unused => exact Bool.eq_false_iff.mpr unused

end Cursor

/-! ## The budget -/

/-- The modes of a dry run and of a second one, in a copy of the text. -/
structure Modes where
  own : Mode
  copy : Mode

/-- Both runs are dry. -/
structure Modes.Dry (d : Modes) : Prop where
  own : d.own.dry = true
  copy : d.copy.dry = true

/-- The credit of a token that is used up. -/
def Token.worth (t : Token) : Nat := if t.isBare then 0 else 32

namespace Production

/-- A dry run in a mode may perform the production.  Scopes, names, calls and
other texts are never part of it, and the rounds of a loop only at its end. -/
def ReadsIn (m : Mode) : Production → Prop
  | .parameters _ => True
  | .logicalRest _ _ mode => m.dry = true ∧ mode = m
  | .block inScope => m.dry = true ∧ inScope = false
  | .bindings execute => m.dry = true ∧ execute = false
  | .bindParameters _ _ | .pushArguments _ _ | .rounds _ _ | .script _ | .evaluate _ => False
  | _ => m.dry = true

/-- The rounds of a loop in a dry run start at the end of the loop. -/
def Closes (m : Mode) (q : Production) (k : Cursor) : Prop :=
  ∃ marks : LoopMarks, q = .rounds m marks ∧ m.dry = true ∧ marks.after = k.pos

/-- The value handed over to a production. -/
def values : Production → List Value
  | .assignmentRest v | .logicalRest _ v _ | .binaryRest _ v | .accessRest v | .blockRest v => [v]
  | _ => []

/-- How many values are held for a production. -/
def holds : Production → Nat
  | .members => 1
  | _ => 0

/-- The production in a dry run that started in another mode. -/
def twin (m : Mode) : Production → Production
  | .logicalRest op v _ => .logicalRest op v m
  | q => q

/-- The credit of a production apart from the text.  It decreases from the outer
productions to the inner ones. -/
def share : Production → Nat
  | .block _ => 26
  | .blockRest v => if v.isError then 0 else 24
  | .statement => 21
  | .argumentList _ => 21
  | .expression => 19
  | .assignment => 17
  | .conditional => 14
  | .logical .or => 12
  | .logical .and => 9
  | .binary _ => 6
  | .unary => 3
  | .access => 1
  | _ => 0

/-- The credit that is left at the end, since a token has been used up.  An error that
is handed over comes out as such. -/
def gain : Production → Nat
  | .statement | .expression | .assignment | .conditional | .logical _ | .binary _ | .unary
  | .access => 24
  | .assignmentRest v | .binaryRest _ v => if v.isError then 24 else 0
  | _ => 0

/-- The place that counts at the start: a block starts by using up a token. -/
def start : Production → Cursor → Cursor
  | .block _, k => k.use
  | _, k => k

/-- The place that counts at the end: the last token of a statement or a block may
be seen again. -/
def stop : Production → Cursor → Cursor
  | .statement, k | .block _, k | .blockRest _, k => k.unuse
  | _, k => k

end Production

/-- What a production hands over to in a dry run that started in another mode. -/
def Next.twin (m : Mode) : Next → Next
  | .value v => .value v
  | .goOn q => .goOn (q.twin m)

/-- What a routine needs of an engine: its mode, and with certainty a place in the text,
values held and values at hand. -/
structure Engine.Stands (m : Mode) (h : Nat) (vs : List Value) (sure : Prop) (e : Engine) :
    Prop where
  mode : e.mode = m
  held : sure → h ≤ e.roots.length
  legible : sure → e.Legible
  settle : sure → Settle vs e.cursor

namespace Engine.Stands

variable {m : Mode} {h : Nat} {vs : List Value} {sure : Prop} {e e₁ : Engine} {v : Value}

theorem passes (stands : e.Stands m h vs sure) (passes : e.Passes e₁) : e₁.Stands m h vs sure :=
  ⟨passes.mode_eq.trans stands.mode, fun yes => passes.roots_eq ▸ stands.held yes,
    fun yes => passes.legible (stands.legible yes),
    fun yes => (stands.settle yes).rises passes.rises⟩

theorem cons (stands : e.Stands m h vs sure) (settled : sure → v.Settled e.cursor) :
    e.Stands m h (v :: vs) sure :=
  { stands with settle := fun yes => (stands.settle yes).cons (settled yes) }

theorem certain (stands : e.Stands m h vs sure) (yes : sure) : e.Stands m h vs True :=
  ⟨stands.mode, fun _ => stands.held yes, fun _ => stands.legible yes, fun _ => stands.settle yes⟩

end Engine.Stands

/-- At the corresponding place of a copy a second routine comes to a corresponding outcome,
as long as what is read ends in the copy. -/
def Engine.Mirrors (m : Mode) {α : Type} (V : α → α → Prop) (x : Routine α) (e : Engine)
    (r : α × Engine) : Prop :=
  ∀ (t : Tie) (e' : Engine) (r' : α × Engine), e'.mode = m → t.Twin e e' → (x e').Ends r' →
    r.2.Before t.last → e'.Passes r'.2 ∧ t.Near r.2.cursor r'.2.cursor ∧ V r.1 r'.1

/-- Dry runs have no credit left if they fail. -/
def Budget.dryRun (d : Modes) : Budget where
  needs sure q e := e.Stands d.own q.holds q.values sure ∧
    (q.ReadsIn d.own ∨ q.Closes d.own e.cursor)
  owes sure q e o := e.Passes o.2 ∧ (sure → o.1.Settled o.2.cursor
    ∧ (q.ReadsIn d.own → e.Mirrors d.copy Eq (Routine.call (q.twin d.copy)) o))
  before q e := (q.start e.cursor).credit + q.share
  after q o := if o.1.isError then 0 else (q.stop o.2.cursor).credit + q.gain

/-- The literal at the current token is sound. -/
def Engine.measureLiteral : Action Bool := fun e =>
  if e.cursor.isValid e.arena.bytes then
    .ok ((Source.measure ⟨e.reads.bytes, e.reads.start + e.cursor.tokenStart,
      e.cursor.tokenLength⟩).2, e)
  else .error .fault

/-! ## Assertions -/

/-- What is said of a place and the credit there. -/
abbrev Assertion := Cursor → Nat → Prop

/-- Besides the text there is some credit. -/
def Has (s : Nat) : Assertion := fun k c => k.credit + s ≤ c

/-- A token is seen. -/
def Sees (t : Token) (s : Nat) : Assertion := fun k c =>
  k.consumed = false ∧ k.token = t ∧ k.credit + s ≤ c

/-- There is some credit also if the last token is seen again. -/
def HasUnused (s : Nat) : Assertion := fun k c => k.unuse.credit + s ≤ c

/-- There is some credit once the last token is used up. -/
def HasUsed (s : Nat) : Assertion := fun k c => k.use.credit + s ≤ c

/-- An assertion is worth some credit besides the text. -/
class Assertion.Pays (A : Assertion) (s : outParam Nat) : Prop where
  has : ∀ k c, A k c → Has s k c

instance {s : Nat} : Assertion.Pays (Has s) s := ⟨fun _ _ => id⟩

instance {t : Token} {s : Nat} : Assertion.Pays (Sees t s) s := ⟨fun _ _ sees => sees.2.2⟩

instance {s : Nat} : Assertion.Pays (HasUnused s) s :=
  ⟨fun k _ has => Nat.le_trans (Nat.add_le_add_right k.credit_le_unuse s) has⟩

theorem Has.less {s l c : Nat} {k : Cursor} (has : Has s k c) (le : Nat.ble l s = true) :
    Has l k c :=
  Nat.le_trans (Nat.add_le_add_left (Nat.le_of_ble_eq_true le) _) has

/-- A value of a dry run with an assertion if it is no error, and with some credit
if it is. -/
def Value.Earns (l : Nat) (B : Assertion) (v : Value) : Assertion := fun k c =>
  v.Settled k ∧ (v.isError = true → l ≤ c) ∧ (v.isError = false → B k c)

/-- What a production in a dry run may end with: a value, or a production that
leaves as much. -/
def Production.Leaves (h : Nat) (q : Production) : Next → Assertion
  | .value v => v.Earns 0 fun k c => (q.stop k).credit + q.gain ≤ c
  | .goOn q' => fun k c => Settle q'.values k ∧ q'.holds ≤ h ∧ q'.stop = q.stop
    ∧ (q'.start k).credit + q'.share + 1 + (q.gain - q'.gain) ≤ c

/-- What a production in a dry run may hand over to. -/
def Next.ReadsIn (m : Mode) : Next → Prop
  | .value _ => True
  | .goOn q => q.ReadsIn m

/-! ## Routines -/

/-- What is known of the end of a routine. -/
structure Engine.Course (m : Mode) {α : Type} (P : α → Prop) (R : α → Assertion)
    (V : α → α → Prop) (x' : Routine α) (sure : Prop) (e : Engine) (r : α × Engine) (c : Nat) :
    Prop where
  fit : P r.1
  passes : e.Passes r.2
  here : sure → R r.1 r.2.cursor c
  mirrors : sure → e.Mirrors m V x' r

/-- From an assertion a routine of a dry run gets by to another one.  A second routine
does the same in a copy, with a corresponding outcome. -/
def Routine.Lasts (d : Modes) (h : Nat) (vs : List Value) (A : Assertion) {α : Type}
    (P : α → Prop) (R : α → Assertion) (V : α → α → Prop) (x x' : Routine α) : Prop :=
  ∀ (sure : Prop) (e : Engine) (c : Nat), e.Stands d.own h vs sure → (sure → A e.cursor c) →
    (x e).Affords (.dryRun d) sure (e.Course d.copy P R V x' sure) c

/-- A routine whose outcome is the same in a copy. -/
def Routine.Acts (d : Modes) (h : Nat) (vs : List Value) (A : Assertion) {α : Type}
    (x : Routine α) (R : α → Assertion) : Prop :=
  Lasts d h vs A (fun _ => True) R Eq x x

/-- A routine that gives a value. -/
def Routine.Gives (d : Modes) (h : Nat) (vs : List Value) (A : Assertion) (x : Routine Value)
    (l : Nat) (B : Assertion) (x' : Routine Value := x) : Prop :=
  Lasts d h vs A (fun _ => True) (Value.Earns l B) Eq x x'

/-- The routine of a production. -/
def Routine.Still (d : Modes) (h : Nat) (vs : List Value) (A : Assertion) (q : Production)
    (x : Routine Next) (x' : Routine Next := x) : Prop :=
  Lasts d h vs A (Next.ReadsIn d.own) (q.Leaves h) (fun n n' => n' = n.twin d.copy) x x'

/-- An engine that holds more values or is nested deeper. -/
def Engine.nest (g : List Value → List Value) (n : Nat) (e : Engine) : Engine :=
  { e with roots := g e.roots, depth := e.depth + n }

namespace Progress

variable {α β : Type}

theorem Ends.of_finished {a b : α} (ends : (Progress.finished a).Ends b) : b = a := by
  cases ends
  rfl

theorem Ends.of_ofExcept {x : Except Halt α} {a : α} (ends : (ofExcept x).Ends a) : x = .ok a := by
  cases x with
  | ok b => rw [ends.of_finished]
  | error h => cases ends

/-- What a routine ends with comes from what its first part ends with. -/
theorem Ends.of_bind {p : Progress α} {f : α → Progress β} {b : β} (ends : (p.bind f).Ends b) :
    ∃ a, p.Ends a ∧ (f a).Ends b := by
  induction p with
  | finished a => exact ⟨a, .finished a, ends⟩
  | halted h => cases ends
  | waiting q e k ih =>
    cases ends with
    | waiting performs rest =>
      obtain ⟨a, first, second⟩ := ih _ rest
      exact ⟨a, .waiting performs first, second⟩

theorem ends_call {q : Production} {e : Engine} {o : Value × Engine} :
    (Routine.call q e).Ends o ↔ q.Performs e o := by
  refine ⟨fun ends => ?_, fun performs => .waiting performs (.finished o)⟩
  cases ends with
  | waiting performs rest => rwa [rest.of_finished]

end Progress

namespace Routine.Lasts

variable {d : Modes} {h : Nat} {vs : List Value} {A B : Assertion} {α β : Type}
  {P : α → Prop} {R R' : α → Assertion} {V : α → α → Prop} {Q : β → Prop} {T : β → Assertion}
  {W : β → β → Prop} {x x' y y' : Routine α} {s l : Nat} {v : Value} {q : Production} {e : Engine}
  {f : α → Routine β} {f' : Value → Routine β} {o : Nat}

theorem weaken {A' : Assertion} (lasts : Lasts d h vs A P R V x x')
    (le : ∀ k c, A' k c → A k c) : Lasts d h vs A' P R V x x' :=
  fun sure e c stands here => lasts sure e c stands fun yes => le _ _ (here yes)

theorem mono (lasts : Lasts d h vs A P R V x x') (le : ∀ a k c, R a k c → R' a k c) :
    Lasts d h vs A P R' V x x' :=
  fun sure e c stands here => (lasts sure e c stands here).mono fun _ _ course =>
    { course with here := fun yes => le _ _ _ (course.here yes) }

/-- Outcomes may correspond in a weaker sense. -/
theorem loosen {V' : α → α → Prop} (lasts : Lasts d h vs A P R V x x')
    (le : ∀ a a', V a a' → V' a a') : Lasts d h vs A P R V' x x' :=
  fun sure e c stands here => (lasts sure e c stands here).mono fun _ _ course =>
    { course with mirrors := fun yes t e' r' mode' twin ends way =>
        (course.mirrors yes t e' r' mode' twin ends way).imp_right fun rest =>
          rest.imp_right (le _ _) }

/-- Less credit is enough. -/
theorem less [pays : A.Pays s] (lasts : Lasts d h vs (Has l) P R V x x')
    (le : Nat.ble l s = true) : Lasts d h vs A P R V x x' :=
  lasts.weaken fun k c here => (pays.has k c here).less le

/-- The same routines, as far as the modes go. -/
theorem reduce (lasts : Lasts d h vs A P R V x x') (left : ∀ e, e.mode = d.own → y e = x e)
    (right : ∀ e, e.mode = d.copy → y' e = x' e) : Lasts d h vs A P R V y y' := by
  intro sure e c stands here
  rw [left e stands.mode]
  refine (lasts sure e c stands here).mono fun r _ course =>
    { course with mirrors := fun yes t e' r' mode' twin ends => ?_ }
  rw [right e' mode'] at ends
  exact course.mirrors yes t e' r' mode' twin ends

/-- One routine after the other. -/
theorem after {k : α → Routine β} (first : Lasts d h vs A P R V x x')
    (some : ∀ a, P a → ∃ a', V a a')
    (next : ∀ a a', P a → V a a' → Lasts d h vs (R a) Q T W (f a) (k a')) :
    Lasts d h vs A Q T W (x >>= f) (x' >>= k) := by
  intro sure e c stands here
  refine (first sure e c stands here).bind fun r c' course => ?_
  have stands' := stands.passes course.passes
  obtain ⟨a', related⟩ := some r.1 course.fit
  refine (Progress.Affords.all (ι := { a' // V r.1 a' }) ⟨a', related⟩ fun i =>
    next r.1 i.1 course.fit i.2 sure r.2 c' stands' course.here).mono fun r₁ c₁ all => ?_
  have course₁ := all ⟨a', related⟩
  refine ⟨course₁.fit, course.passes.trans course₁.passes, course₁.here,
    fun yes t e' r₁' mode' twin ends way => ?_⟩
  obtain ⟨r', ends', rest⟩ := ends.of_bind
  have before := course₁.passes.before (stands'.legible yes).inside way
  obtain ⟨passes', near, related'⟩ := course.mirrors yes t e' r' mode' twin ends' before
  obtain ⟨passes₁', near₁, related₁⟩ := (all ⟨r'.1, related'⟩).mirrors yes t r'.2 r₁'
    (passes'.mode_eq.trans mode') (twin.passes course.passes passes' near) rest way
  exact ⟨passes'.trans passes₁', near₁, related₁⟩

/-- A routine whose outcome is the same in a copy, and what follows. -/
theorem act {f' : α → Routine β} (first : Lasts d h vs A P R Eq x x')
    (next : ∀ a, Lasts d h vs (R a) Q T W (f a) (f' a)) :
    Lasts d h vs A Q T W (x >>= f) (x' >>= f') :=
  after first (fun a _ => ⟨a, rfl⟩) fun a _ _ same => same ▸ next a

theorem pure {a a' : α} (fit : P a) (holds : ∀ k c, Settle vs k → A k c → R a k c)
    (same : V a a') : Lasts d h vs A P R V (Pure.pure a : Routine α) (Pure.pure a') :=
  fun _ e _ stands here => .finished ⟨fit, .refl e,
    fun yes => holds _ _ (stands.settle yes) (here yes), fun _ _ e' _ _ twin ends _ =>
      ends.of_finished ▸ ⟨.refl e', twin.near, same⟩⟩

/-- A value comes to hand. -/
theorem keep (settled : ∀ k c, Settle vs k → A k c → v.Settled k)
    (lasts : Lasts d h (v :: vs) A P R V x x') : Lasts d h vs A P R V x x' :=
  fun sure e c stands here => lasts sure e c
    (stands.cons fun yes => settled _ _ (stands.settle yes) (here yes)) here

theorem ite {b : Prop} [Decidable b] (left : b → Lasts d h vs A P R V x x')
    (right : ¬b → Lasts d h vs A P R V y y') :
    Lasts d h vs A P R V (if b then x else y) (if b then x' else y') := by
  split
  · exact left ‹_›
  · exact right ‹_›

/-- An action that depends on nothing but the mode. -/
theorem skip {x x' : Action α} {a : α} {f' : α → Routine β}
    (run : ∀ e, e.mode = d.own → x e = .ok (a, e)) (run' : ∀ e, e.mode = d.copy → x' e = .ok (a, e))
    (next : Lasts d h vs A Q T W (f a) (f' a)) :
    Lasts d h vs A Q T W (liftM x >>= f) (liftM x' >>= f') :=
  next.reduce (fun e mode => by simp only [Routine.steps, run e mode])
    fun e mode => by simp only [Routine.steps, run' e mode]

/-- Engines in the two modes that stand at corresponding places. -/
structure Peers (d : Modes) (e e' : Engine) : Prop where
  own : e.mode = d.own
  copy : e'.mode = d.copy
  twin : ∃ t : Tie, t.Twin e e'

theorem Peers.token {e' : Engine} (peers : Peers d e e') : e'.cursor.token = e.cursor.token := by
  obtain ⟨t, twin⟩ := peers.twin
  exact twin.near.token

theorem bindGet {f f' : Engine → Routine β}
    (next : ∀ e e', Peers d e e' →
      Lasts d h vs (fun k c => k = e.cursor ∧ e.Legible ∧ A k c) Q T W (f e) (f' e')) :
    Lasts d h vs A Q T W (get >>= f) (get >>= f') := by
  have first : Lasts d h vs A (fun e => e.mode = d.own)
      (fun e k c => k = e.cursor ∧ e.Legible ∧ A k c) (Peers d) get get :=
    fun sure e c stands here => .finished ⟨stands.mode, .refl e,
      fun yes => ⟨rfl, stands.legible yes, here yes⟩, fun _ t e' r' mode' twin ends _ =>
        ends.of_finished ▸ ⟨.refl e', twin.near, stands.mode, mode', t, twin⟩⟩
  refine first.after (fun e mode => ⟨{ e with mode := d.copy }, mode, rfl, .refl e.reads, ?_⟩)
    fun e e' _ peers => next e e' peers
  exact ⟨rfl, rfl, Nat.le_refl _, rfl, Nat.zero_le _, rfl, rfl, rfl, fun _ => rfl, fun _ => rfl⟩

theorem bindMode {f f' : Engine → Routine β}
    (next : ∀ e e', Peers d e e' → Lasts d h vs A Q T W (f e) (f' e')) :
    Lasts d h vs A Q T W (get >>= f) (get >>= f') :=
  bindGet fun e e' peers => (next e e' peers).weaken fun _ _ here => here.2.2

/-- A routine on an engine that holds more values or is nested deeper, which is taken
back afterwards. -/
theorem nested {γ : Type} {u : γ} {g : List Value → List Value} {n j : Nat} {enter : Routine Unit}
    {leave : Routine γ} {f k : α → γ → Routine β}
    (enters : ∀ e, enter e = .finished ((), e.nest g n))
    (leaves : ∀ e r : Engine, r.roots = g e.roots → r.depth = e.depth + n →
      leave r = .finished (u, { r with roots := e.roots, depth := e.depth }))
    (more : ∀ roots, (g roots).length = roots.length + j)
    (inner : Lasts d (h + j) vs A P R V x x') (some : ∀ a, P a → ∃ a', V a a')
    (next : ∀ a a', P a → V a a' → Lasts d h vs (R a) Q T W (f a u) (k a' u)) :
    Lasts d h vs A Q T W (enter >>= fun _ => x >>= fun a => leave >>= fun u => f a u)
      (enter >>= fun _ => x' >>= fun a => leave >>= fun u => k a u) := by
  -- what is done inside is done around it
  have outer : ∀ {e r : Engine}, (e.nest g n).Passes r →
      leave r = .finished (u, { r with roots := e.roots, depth := e.depth })
        ∧ e.Passes { r with roots := e.roots, depth := e.depth } := fun passes =>
    ⟨leaves _ _ passes.roots_eq passes.depth_eq.1, passes.change _ _⟩
  have whole : Lasts d h vs A (fun r => P r.1 ∧ r.2 = u) (fun r => R r.1)
      (fun r r' => V r.1 r'.1 ∧ r'.2 = u)
      (enter >>= fun _ => x >>= fun a => leave >>= fun u => Pure.pure (a, u))
      (enter >>= fun _ => x' >>= fun a => leave >>= fun u => Pure.pure (a, u)) := by
    intro sure e c stands here
    simp only [Routine.steps, enters]
    refine (inner sure (e.nest g n) c ⟨stands.mode, fun yes => ?_, fun yes => ?_, stands.settle⟩
      here).bind fun r c' course => ?_
    · rw [Engine.nest, more]
      exact Nat.add_le_add_right (stands.held yes) j
    · have legible := stands.legible yes
      exact ⟨legible.valid, legible.inside, legible.token, legible.number⟩
    obtain ⟨leave, passes⟩ := outer course.passes
    rw [leave]
    refine .finished ⟨⟨course.fit, rfl⟩, passes, course.here,
      fun yes t e' r' mode' twin ends way => ?_⟩
    simp only [Routine.steps, enters] at ends
    obtain ⟨r₁', ends, rest⟩ := ends.of_bind
    obtain ⟨passes', near, related⟩ := course.mirrors yes t (e'.nest g n) r₁' mode'
      ⟨twin.reads, twin.reads',
      Nat.add_le_add_right twin.depth n, twin.maxDepth, twin.near⟩ ends ⟨way.le, way.full, way.steps⟩
    obtain ⟨leave', passes'⟩ := outer passes'
    rw [leave'] at rest
    obtain rfl := rest.of_finished
    exact ⟨passes', near, related, rfl⟩
  refine (whole.after (f := fun r => f r.1 r.2) (k := fun r => k r.1 r.2) (fun r fit => ?_)
    ?_).reduce
    (fun e _ => by simp only [Routine.steps]) fun e _ => by simp only [Routine.steps]
  · obtain ⟨a', related⟩ := some r.1 fit.1
    exact ⟨(a', u), related, rfl⟩
  · rintro ⟨a, _⟩ ⟨a', _⟩ ⟨fit, rfl⟩ ⟨related, rfl⟩
    exact next a a' fit related

/-! ### Actions -/

/-- An action: what it does if it does not halt, and that it does not. -/
theorem lift {x x' : Action α}
    (run : ∀ (sure : Prop) e c, e.Stands d.own h vs sure → (sure → A e.cursor c) → ∀ r, x e = .ok r →
      e.Course d.copy P R V (liftM x') sure r c)
    (total : ∀ e c, e.Stands d.own h vs True → A e.cursor c → ∃ r, x e = .ok r) :
    Lasts d h vs A P R V (liftM x) (liftM x') := by
  intro sure e c stands here
  show (Progress.ofExcept (x e)).Affords _ _ _ _
  cases outcome : x e with
  | ok r => exact .finished (run sure e c stands here r outcome)
  | error f =>
    refine .halted f fun yes => ?_
    obtain ⟨r, run⟩ := total e c (stands.certain yes) (here yes)
    cases outcome.symm.trans run

/-- An action is a routine, part by part. -/
theorem liftBind {x x' : Action α} {f f' : α → Action β}
    (whole : Lasts d h vs A Q T W (liftM x >>= fun a => liftM (f a))
      (liftM x' >>= fun a => liftM (f' a))) :
    Lasts d h vs A Q T W (liftM (x >>= f)) (liftM (x' >>= f')) := by
  have same : ∀ (x : Action α) (f : α → Action β) e, (liftM (x >>= f) : Routine β) e
      = (liftM x >>= fun a => liftM (f a) : Routine β) e := by
    intro x f e
    simp only [Routine.steps, Action.steps]
  exact whole.reduce (fun e _ => same x f e) fun e _ => same x' f' e

/-- An action that leaves the engine as it is. -/
theorem look {x x' : Action α} {D : α → Prop} (same : ∀ e r, x e = .ok r → r.2 = e)
    (same' : ∀ e r, x' e = .ok r → r.2 = e)
    (run : ∀ e, e.Stands d.own h vs True → ∃ a, x e = .ok (a, e) ∧ D a
      ∧ ∀ e' r', x' e' = .ok r' → V a r'.1) :
    Lasts d h vs A (fun _ => True) (fun a k c => D a ∧ A k c) V (liftM x) (liftM x') := by
  refine lift (fun sure e c stands here r outcome => ?_) fun e c stands _ => ?_
  · obtain ⟨a, e₁⟩ := r
    obtain rfl : e₁ = e := same e _ outcome
    have known : sure → D a ∧ ∀ e' r', x' e' = .ok r' → V a r'.1 := by
      intro yes
      obtain ⟨b, run, rest⟩ := run e₁ (stands.certain yes)
      obtain ⟨rfl, -⟩ := Prod.mk.inj (Except.ok.inj (outcome.symm.trans run))
      exact rest
    refine ⟨trivial, .refl e₁, fun yes => ⟨(known yes).1, here yes⟩,
      fun yes t e' r' _ twin ends _ => ?_⟩
    have ends := ends.of_ofExcept
    have back := same' e' r' ends
    exact ⟨back ▸ .refl e', back.symm ▸ twin.near, (known yes).2 e' r' ends⟩
  · obtain ⟨a, run, -⟩ := run e stands
    exact ⟨_, run⟩

/-- The place changes in the same way in a copy. -/
theorem place {f : Cursor → Cursor} (rises : ∀ k : Cursor, k.Rises (f k))
    (pos : ∀ k : Cursor, (f k).pos = k.pos)
    (near : ∀ (t : Tie) k k', t.Near k k' → t.Near (f k) (f k'))
    (le : ∀ k c, A k c → B (f k) c) :
    Acts d h vs A (liftM (Engine.changeCursor f)) fun _ => B := by
  refine lift (fun sure e c stands here r outcome => ?_) fun e c _ _ => ⟨_, rfl⟩
  cases outcome
  refine ⟨trivial, .of_pos (.of_cursor e _) (rises _) (pos _), fun yes => le _ _ (here yes),
    fun _ t e' r' _ twin ends _ => ?_⟩
  cases ends.of_ofExcept
  exact ⟨.of_pos (.of_cursor e' _) (rises _) (pos _), near t _ _ twin.near, rfl⟩

theorem uses (le : ∀ k c, A k c → B k.use c) :
    Acts d h vs A (liftM Engine.use) fun _ => B :=
  place .use (fun _ => rfl) (fun _ _ _ near => { near with consumed := rfl }) le

/-- A token that takes up room is used up. -/
theorem useSome : Acts d h vs (fun k c => ∃ t : Token, t.isBare = false ∧ Sees t s k c)
    (liftM Engine.use) fun _ => Has (s + 32) := by
  refine uses fun k c ⟨t, room, unused, same, has⟩ => ?_
  have worth := Cursor.credit_use unused (same ▸ room)
  show k.use.credit + (s + 32) ≤ c
  omega

theorem use {t : Token} (room : t.isBare = false) :
    Acts d h vs (Sees t s) (liftM Engine.use) fun _ => Has (s + 32) :=
  useSome.weaken fun _ _ sees => ⟨t, room, sees⟩

/-- Using up a token costs nothing. -/
theorem drop [pays : A.Pays s] : Acts d h vs A (liftM Engine.use) fun _ => Has s :=
  uses fun k c here => Nat.le_trans (Nat.add_le_add_right k.credit_use_le s) (pays.has k c here)

theorem unuse (le : ∀ k c, A k c → B k.unuse c) :
    Acts d h vs A (liftM (Engine.changeCursor Cursor.unuse)) fun _ => B :=
  place .unuse (fun _ => rfl) (fun _ _ _ near => { near with consumed := rfl }) le

/-- A semicolon stands for the end of a loop. -/
theorem closeLoop : Acts d h vs (Has s)
    (liftM (Engine.changeCursor fun k => { k with token := .semicolon, consumed := false }))
    fun _ => Has s :=
  place (fun k => .of_pos k (.inr rfl) false) (fun _ => rfl)
    (fun _ _ _ near => ⟨near.low, near.pos, rfl, rfl, nofun, nofun⟩)
    fun k _ has => Nat.le_trans (Nat.add_le_add_right k.credit_use_le s) has

theorem token_run (legible : e.Legible) : Engine.token e
    = .ok ((e.cursor.advance e.arena.bytes).token,
      { e with cursor := e.cursor.advance e.arena.bytes }) := by
  rw [Engine.token, legible.valid, Bool.not_true, Bool.and_false]
  rfl

theorem token_of_run {r : Token × Engine} (run : Engine.token e = .ok r) :
    r = ((e.cursor.advance e.arena.bytes).token,
      { e with cursor := e.cursor.advance e.arena.bytes }) := by
  unfold Engine.token at run
  split at run
  · cases run
  · exact (Except.ok.inj run).symm

theorem token [pays : A.Pays s] : Acts d h vs A (liftM Engine.token) fun t => Sees t s := by
  refine lift (fun sure e c stands here r outcome => ?_) fun e c stands _ =>
    ⟨_, token_run (stands.legible trivial)⟩
  obtain rfl := token_of_run outcome
  refine ⟨trivial, .advance e, fun yes => ⟨Cursor.consumed_advance _ _, rfl, ?_⟩,
    fun _ t e' r' _ twin ends way => ?_⟩
  · have le := Cursor.credit_advance_le (stands.legible yes).inside e.arena.bytes
    exact Nat.le_trans (Nat.add_le_add_right le s) (pays.has _ _ (here yes))
  · have near := twin.advance way
    obtain rfl := token_of_run ends.of_ofExcept
    exact ⟨.advance e', near, near.token.symm⟩

/-- A failure ends the text, so that it is not on the way to anything in a copy. -/
theorem fail {x' : Routine Value} {V : Value → Value → Prop} (f : Failure)
    (rest : ∀ k c, A k c → l ≤ c) :
    Lasts d h vs A (fun _ => True) (Value.Earns l B) V (liftM (Engine.fail f)) x' := by
  intro sure e c stands here
  show (Progress.ofExcept (Engine.fail f e)).Affords _ _ _ _
  rw [Engine.fail_eq]
  have error := (e.log.record f).isError_lastValue f.kind
  refine .finished ⟨trivial, ⟨⟨e.arena.low, e.log.record f, e.cursor.finish, e.deepest, _, ?_, rfl⟩,
    .finish _, fun inside => .inr (e.cursor.scan_inside _ inside)⟩,
    fun yes => ⟨.error error ⟨rfl, rfl⟩, fun _ => rest _ _ (here yes),
      fun fine => absurd error (Bool.eq_false_iff.mp fine)⟩, fun _ t e' r' _ twin _ way => ?_⟩
  · split <;> simp [Event.isFailure]
  · -- the place is the end of the text, which has no token
    have top : e.cursor.length ≤ t.last := way.le
    have inside := t.window.inside
    rw [← twin.reads, show e.reads.length = e.cursor.length from Cursor.length_source _ _] at inside
    have full : Token.eof.isBare = false := way.full (Nat.le_antisymm top inside)
    cases full

theorem failed [pays : A.Pays s] {x' : Routine Value} {V : Value → Value → Prop} (f : Failure)
    (le : Nat.ble l s = true) :
    Lasts d h vs A (fun _ => True) (Value.Earns l B) V (liftM (Engine.fail f)) x' :=
  fail f fun k c here => Nat.le_trans (Nat.le_of_ble_eq_true le)
    (Nat.le_trans (Nat.le_add_left _ _) (pays.has k c here))

theorem passes_noteUse {r : Unit × Engine} (run : Engine.noteUse e = .ok r) :
    e.Passes r.2 ∧ r.2.cursor = e.cursor := by
  cases run
  refine ⟨.of_undisturbed ⟨e.arena.noteLow.low, e.log, e.cursor, max e.deepest e.depth, #[],
    by simp, ?_⟩ rfl,
    rfl⟩
  rw [Array.append_empty]
  simp only [Arena.noteLow]
  split <;> rfl

theorem noteUse : Acts d h vs A (liftM Engine.noteUse) fun _ => A := by
  refine lift (fun sure e c _ here r outcome => ?_) fun e c _ _ => ⟨_, rfl⟩
  obtain ⟨passes, place⟩ := passes_noteUse outcome
  refine ⟨trivial, passes, fun yes => place ▸ here yes, fun _ t e' r' _ twin ends _ => ?_⟩
  obtain ⟨passes', place'⟩ := passes_noteUse ends.of_ofExcept
  exact ⟨passes', place ▸ place' ▸ twin.near, rfl⟩

theorem readArena_same {f : Arena → Except Halt α} (e : Engine) (r : α × Engine)
    (run : Engine.readArena f e = .ok r) : r.2 = e := by
  unfold Engine.readArena at run
  split at run
  · cases run
    rfl
  · cases run

/-- A value is its own plain value. -/
theorem resolve (mem : v ∈ vs) :
    Acts d h vs A (liftM (Engine.resolve v)) fun u k c => u = v ∧ A k c := by
  refine look readArena_same readArena_same fun e stands => ?_
  have plain := (stands.settle trivial v mem).plain
  refine ⟨v, resolve_of_kind_ne plain e, rfl, fun e' r' run => ?_⟩
  rw [resolve_of_kind_ne plain e'] at run
  cases run
  rfl

theorem resolved {f : Value → Routine β} (mem : v ∈ vs)
    (next : ∀ u, Lasts d h (u :: vs) A Q T W (f u) (f' u)) :
    Lasts d h vs A Q T W (liftM (Engine.resolve v) >>= f) (liftM (Engine.resolve v) >>= f') :=
  (resolve mem).act fun u => keep (fun _ _ settle here => here.1 ▸ settle v mem)
    ((next u).weaken fun _ _ here => here.2)

theorem isTruthy_same (e : Engine) (r : Bool × Engine) (run : Engine.isTruthy v e = .ok r) :
    r.2 = e := by
  unfold Engine.isTruthy at run
  cases kind : v.kind with
  | string =>
    simp only [kind, Bind.bind, StateT.bind, Except.bind] at run
    split at run
    · cases run
    · next a read =>
      cases run
      exact readArena_same e a read
  | _ =>
    simp only [kind] at run
    cases run
    rfl

theorem isTruthy (mem : v ∈ vs) : Acts d h vs A (liftM (Engine.isTruthy v)) fun _ => A := by
  refine mono (look (D := fun _ => True) isTruthy_same isTruthy_same fun e stands => ?_)
    fun _ _ _ => And.right
  have text := (stands.settle trivial v mem).text
  unfold Engine.isTruthy
  cases kind : v.kind with
  | string => exact absurd kind text
  | _ =>
    refine ⟨_, rfl, trivial, fun e' r' run => ?_⟩
    cases run
    rfl

theorem held_same {n : Nat} (e : Engine) (r : Value × Engine) (run : Engine.held n e = .ok r) :
    r.2 = e := by
  unfold Engine.held at run
  split at run
  · cases run
  · cases run
    rfl

/-- The object of a literal is held. -/
theorem held : Lasts d (h + 1) vs A (fun _ => True) (fun _ => A) (fun _ _ => True)
    (liftM (Engine.held 0)) (liftM (Engine.held 0)) := by
  refine mono (look (D := fun _ => True) held_same held_same fun e stands => ?_)
    fun _ _ _ => And.right
  have some := stands.held trivial
  rw [Engine.held]
  cases roots : e.roots with
  | nil =>
    rw [roots] at some
    exact absurd some (Nat.not_succ_le_zero h)
  | cons v rest => exact ⟨_, rfl, trivial, fun _ _ _ => trivial⟩

/-- A part of the text can be read. -/
theorem textAt_run (legible : e.Legible) {i n : Nat} (inside : i + n ≤ e.cursor.length) :
    Engine.textAt i n e = .ok (e.reads.slice i n, e) := by
  have valid := legible.source_inside
  have text : Engine.source e = .ok (e.reads, e) := if_pos legible.valid
  simp only [Engine.textAt, Action.runs, text]
  rw [if_pos (by omega)]
  rfl

theorem textAt_same {i length : Nat} (e : Engine) (r : ByteArray × Engine)
    (run : Engine.textAt i length e = .ok r) : r.2 = e := by
  simp only [Engine.textAt, Engine.source, Bind.bind, StateT.bind, Except.bind] at run
  split at run
  · cases run
  · next read =>
    split at read
    · cases read
      split at run <;> cases run
      rfl
    · cases read

theorem tokenText : Lasts d h vs A (fun _ => True) (fun _ => A) (fun _ _ => True)
    (liftM Engine.tokenText) (liftM Engine.tokenText) := by
  refine mono (look (D := fun _ => True) (fun e r run => textAt_same e r run)
    (fun e r run => textAt_same e r run) fun e stands => ?_) fun _ _ _ => And.right
  have legible := stands.legible trivial
  exact ⟨_, textAt_run legible legible.token, trivial, fun _ _ _ => trivial⟩

theorem spanText {v' : Value} (mem : v ∈ vs) (span : v.kind = .span) :
    Lasts d h vs A (fun _ => True) (fun _ => A) (fun _ _ => True)
      (liftM (Engine.spanText v)) (liftM (Engine.spanText v')) := by
  refine mono (look (D := fun _ => True) textAt_same textAt_same fun e stands => ?_)
    fun _ _ _ => And.right
  exact ⟨_, textAt_run (stands.legible trivial) ((stands.settle trivial v mem).span span), trivial,
    fun _ _ _ => trivial⟩

/-! ### Ends of routines -/

theorem error (fails : v.isError = true) (rest : ∀ k c, A k c → l ≤ c) :
    Gives d h (v :: vs) A (Pure.pure v) l B :=
  pure trivial (fun k c settle here => ⟨settle.head, fun _ => rest k c here,
    fun fine => nomatch fine.symm.trans fails⟩) rfl

/-- A value at hand. -/
theorem value (settled : ∀ k, Settle vs k → v.Settled k) (fine : v.isError = false)
    (le : ∀ k c, A k c → B k c) : Gives d h vs A (Pure.pure v) l B :=
  pure trivial (fun k c settle here => ⟨settled k settle, fun fails =>
    (nomatch fine.symm.trans fails),
    fun _ => le k c here⟩) rfl

theorem constant [pays : A.Pays s] (plain : v.isConstant = true) (le : Nat.ble l s = true) :
    Gives d h vs A (Pure.pure v) o (Has l) :=
  value (fun k _ => .constant plain k) (Value.isError_of_isConstant plain)
    fun k c here => (pays.has k c here).less le

theorem head [pays : A.Pays s] (fine : v.isError = false) (le : Nat.ble l s = true) :
    Gives d h (v :: vs) A (Pure.pure v) o (Has l) :=
  value (fun _ settle => settle.head) fine fun k c here => (pays.has k c here).less le

/-- Less credit is left. -/
theorem fewer {P : Value → Prop} {V : Value → Value → Prop} {x x' : Routine Value}
    (gives : Lasts d h vs A P (Value.Earns l (Has s)) V x x') (le : Nat.ble o s = true) :
    Lasts d h vs A P (Value.Earns l (Has o)) V x x' :=
  gives.mono fun _ _ _ earns => ⟨earns.1, earns.2.1, fun fine => (earns.2.2 fine).less le⟩

theorem give (settled : ∀ k, Settle vs k → v.Settled k)
    (le : ∀ k c, A k c → (q.stop k).credit + q.gain ≤ c) : Still d h vs A q (Routine.give v) :=
  pure trivial (fun k c settle here => ⟨settled k settle, fun _ => Nat.zero_le c,
    fun _ => le k c here⟩) rfl

/-- The value at hand, for what is left. -/
theorem giveHead [pays : A.Pays s] (stop : q.stop = id) (le : Nat.ble q.gain s = true) :
    Still d h (v :: vs) A q (Routine.give v) :=
  give (fun _ settle => settle.head) fun k c here => by
    rw [stop]
    exact (pays.has k c here).less le

theorem giveConstant [pays : A.Pays s] (plain : v.isConstant = true) (stop : q.stop = id)
    (le : Nat.ble q.gain s = true) : Still d h vs A q (Routine.give v) :=
  give (fun k _ => .constant plain k) fun k c here => by
    rw [stop]
    exact (pays.has k c here).less le

theorem giveError (fails : v.isError = true) : Still d h (v :: vs) A q (Routine.give v) :=
  pure trivial (fun _ c settle _ => ⟨settle.head, fun _ => Nat.zero_le c,
    fun fine => nomatch fine.symm.trans fails⟩) rfl

/-- A failure ends a production. -/
theorem failing (f : Failure) :
    Still d h vs A q (liftM (Engine.fail f) >>= fun v => Routine.give v) :=
  (fail f fun _ c _ => Nat.zero_le c).act fun _ => pure trivial (fun _ _ _ earns => earns) rfl

theorem goOn [pays : A.Pays s] {p : Production} (reads : p.ReadsIn d.own)
    (enough : Nat.ble (p.share + 1 + (q.gain - p.gain)) s = true) (holds : p.holds ≤ h)
    (start : p.start = id) (stop : p.stop = q.stop)
    (values : ∀ k, Settle vs k → Settle p.values k) :
    Still d h vs A q (Routine.goOn p) (Routine.goOn (p.twin d.copy)) := by
  refine pure reads (fun k c settle here => ⟨values k settle, holds, stop, ?_⟩) rfl
  have has : k.credit + s ≤ c := pays.has k c here
  have enough := Nat.le_of_ble_eq_true enough
  rw [start]
  show k.credit + _ + 1 + _ ≤ c
  omega

/-! ### Values and what follows them -/

/-- What comes last. -/
theorem last {x x' : Routine β} (whole : Lasts d h vs A Q T W (x >>= Pure.pure) (x' >>= Pure.pure)) :
    Lasts d h vs A Q T W x x' := by
  have same : ∀ (x : Routine β) e, x e = (x >>= Pure.pure) e := by
    intro x e
    show x e = (x e).bind Progress.finished
    induction x e with
    | waiting q e k ih => exact congrArg _ (funext fun o => ih o)
    | _ => rfl
  exact whole.reduce (fun e _ => same x e) fun e _ => same x' e

/-- An error apart from other values. -/
theorem earned {x x' : Routine β}
    (error : v.isError = true → Lasts d h (v :: vs) (HasUnused l) Q T W x x')
    (next : v.isError = false → Lasts d h (v :: vs) B Q T W x x') :
    Lasts d h vs (v.Earns l B) Q T W x x' := by
  refine keep (fun _ _ _ earns => earns.1) ?_
  cases fails : v.isError with
  | true =>
    refine (error fails).weaken fun k c earns => ?_
    show k.unuse.credit + l ≤ c
    rw [((Cursor.Rises.unuse k).spent (earns.1.blame fails)).credit, Nat.zero_add]
    exact earns.2.1 fails
  | false => exact (next fails).weaken fun _ _ earns => earns.2.2 fails

/-- A value, and what follows. -/
theorem bind {P : Value → Prop} {x x' : Routine Value} {f : Value → Routine β}
    (first : Lasts d h vs A P (Value.Earns l B) Eq x x')
    (error : ∀ v, v.isError = true → Lasts d h (v :: vs) (HasUnused l) Q T W (f v) (f' v))
    (next : ∀ v, v.isError = false → Lasts d h (v :: vs) B Q T W (f v) (f' v)) :
    Lasts d h vs A Q T W (x >>= f) (x' >>= f') :=
  first.act fun v => earned (error v) (next v)

theorem ofError {x x' y y' : Routine β} (fails : v.isError = true)
    (error : Lasts d h vs A Q T W x x') :
    Lasts d h vs A Q T W (if v.isError then x else y) (if v.isError then x' else y') :=
  ite (fun _ => error) fun fine => absurd fails fine

theorem ofFine {x x' y y' : Routine β} (fine : v.isError = false)
    (next : Lasts d h vs A Q T W y y') :
    Lasts d h vs A Q T W (if v.isError then x else y) (if v.isError then x' else y') :=
  ite (fun fails => nomatch fine.symm.trans fails) fun _ => next

/-- A value that is looked at for an error. -/
theorem check {P : Value → Prop} {x x' : Routine Value} {f g g' : Value → Routine β}
    (first : Lasts d h vs A P (Value.Earns l B) Eq x x')
    (error : ∀ v, v.isError = true → Lasts d h (v :: vs) (HasUnused l) Q T W (g v) (g' v))
    (next : ∀ v, v.isError = false → Lasts d h (v :: vs) B Q T W (f v) (f' v)) :
    Lasts d h vs A Q T W (x >>= fun v => if v.isError then g v else f v)
      (x' >>= fun v => if v.isError then g' v else f' v) :=
  bind first (fun v fails => ofError fails (error v fails)) fun v fine => ofFine fine (next v fine)

/-- An error ends a production. -/
theorem checkGive {P : Value → Prop} {x x' : Routine Value} {f f' : Value → Routine Next}
    (first : Lasts d h vs A P (Value.Earns 0 B) Eq x x')
    (next : ∀ v, v.isError = false → Still d h (v :: vs) B q (f v) (f' v)) :
    Still d h vs A q (x >>= fun v => if v.isError then Routine.give v else f v)
      (x' >>= fun v => if v.isError then Routine.give v else f' v) :=
  check first (fun _ fails => giveError fails) next

/-- An error ends a routine. -/
theorem checkReturn {C : Assertion} {P : Value → Prop} {x x' : Routine Value}
    {f f' : Value → Routine Value} (first : Lasts d h vs A P (Value.Earns l B) Eq x x')
    (next : ∀ v, v.isError = false → Gives d h (v :: vs) B (f v) l C (f' v)) :
    Gives d h vs A (x >>= fun v => if v.isError then Pure.pure v else f v) l C
      (x' >>= fun v => if v.isError then Pure.pure v else f' v) :=
  check first (fun _ fails => error fails fun _ _ has => Nat.le_trans (Nat.le_add_left _ _) has) next

/-- Values stand for themselves. -/
theorem resolving {P : Value → Prop} {x x' : Routine Value}
    (first : Lasts d h vs A P (Value.Earns l B) Eq x x') :
    Gives d h vs A (x >>= fun v => liftM (Engine.resolve v)) l B
      (x' >>= fun v => liftM (Engine.resolve v)) := by
  refine first.act fun v => keep (fun _ _ _ earns => earns.1)
    (mono (resolve (List.mem_cons_self ..)) ?_)
  rintro u k c ⟨rfl, earns⟩
  exact earns

/-- Parts of routines can be taken together. -/
theorem assoc {γ : Type} {x x' : Routine γ} {f f' : γ → Routine α} {g g' : α → Routine β}
    (whole : Lasts d h vs A Q T W ((x >>= f) >>= g) ((x' >>= f') >>= g')) :
    Lasts d h vs A Q T W (x >>= fun a => f a >>= g) (x' >>= fun a => f' a >>= g') :=
  whole.reduce (fun e _ => by simp only [Routine.steps]) fun e _ => by simp only [Routine.steps]

/-! ### Tokens that are expected -/

theorem expect [pays : A.Pays s] (t : Token) :
    Acts d h vs A (liftM (Engine.expect t)) fun b => Has (s + if b then t.worth else 0) := by
  refine liftBind (act token fun u => ?_)
  split
  · next same =>
    subst same
    have used : Acts d h vs (Sees u s) (liftM Engine.use) fun _ => Has (s + u.worth) := by
      rw [Token.worth]
      split
      · exact drop
      · next room => exact use (Bool.eq_false_iff.mpr room)
    exact liftBind (act used fun _ => pure trivial (fun _ _ _ has => has) rfl)
  · exact pure trivial (fun _ _ _ sees => sees.2.2) rfl

theorem expecting [pays : A.Pays s] {t : Token} {x x' y y' : Routine β}
    (other : Lasts d h vs (Has s) Q T W x x') (found : Lasts d h vs (Has (s + t.worth)) Q T W y y') :
    Lasts d h vs A Q T W (liftM (Engine.expect t) >>= fun b => if !b then x else y)
      (liftM (Engine.expect t) >>= fun b => if !b then x' else y') :=
  act (expect t) fun b => by
    cases b
    · exact other
    · exact found

/-! ### Calls -/

theorem call (reads : q.ReadsIn d.own) (values : ∀ k c, Settle vs k → A k c → Settle q.values k)
    (holds : q.holds ≤ h) (enough : ∀ k c, A k c → (q.start k).credit + q.share + 2 + l ≤ c) :
    Gives d h vs A (Routine.call q) l (fun k c => (q.stop k).credit + q.gain + l ≤ c)
      (Routine.call (q.twin d.copy)) := by
  intro sure e c stands here
  refine .waiting ⟨⟨stands.mode, fun yes => Nat.le_trans holds (stands.held yes), stands.legible,
    fun yes => values _ _ (stands.settle yes) (here yes)⟩, .inl reads⟩ (fun yes => ?_)
    fun o performs owed => .finished ⟨trivial, owed.1, fun yes => ⟨(owed.2 yes).1, fun _ => ?_,
      fun fine => ?_⟩, fun yes => (owed.2 yes).2 reads⟩
  all_goals have enough := enough _ _ (here yes)
  · show (q.start e.cursor).credit + q.share + 2 ≤ c
    omega
  · show l ≤ c - ((q.start e.cursor).credit + q.share + 2) + _
    omega
  · show _ ≤ c - ((q.start e.cursor).credit + q.share + 2)
      + if o.1.isError then 0 else (q.stop o.2.cursor).credit + q.gain
    rw [if_neg (Bool.eq_false_iff.mp fine)]
    omega

end Routine.Lasts

/-- A production that is called as it is: no token is used up before it or to be
seen again after it. -/
def Production.isSimple : Production → Bool
  | .expression | .assignment | .conditional | .logical _ | .binary _ | .unary | .access
  | .parameters _ | .argumentList _ | .bindings false => true
  | _ => false

theorem Mode.eq_of_dry {m : Mode} (dry : m.dry = true) : { m with dry := true } = m := by
  rw [← dry]

theorem Production.facts_of_isSimple {m : Mode} (dry : m.dry = true) {q : Production}
    (is : q.isSimple = true) :
    q.ReadsIn m ∧ q.values = [] ∧ q.holds = 0 ∧ q.start = id ∧ q.stop = id
      ∧ ∀ m', q.twin m' = q := by
  cases q with
  | parameters => exact ⟨trivial, rfl, rfl, rfl, rfl, fun _ => rfl⟩
  | bindings execute =>
    cases execute with
    | true => cases is
    | false => exact ⟨⟨dry, rfl⟩, rfl, rfl, rfl, rfl, fun _ => rfl⟩
  | _ => first | exact ⟨dry, rfl, rfl, rfl, rfl, fun _ => rfl⟩ | cases is

namespace Routine.Lasts

variable {d : Modes} {h : Nat} {vs : List Value} {A B : Assertion} {α β : Type}
  {P : α → Prop} {R : α → Assertion} {V : α → α → Prop} {Q : β → Prop} {T : β → Assertion}
  {W : β → β → Prop} {s l : Nat} {v : Value}

theorem changeMode {g g' : Mode → Mode} (same : g d.own = d.own) (same' : g' d.copy = d.copy)
    {f f' : Unit → Routine β} (next : Lasts d h vs A Q T W (f ()) (f' ())) :
    Lasts d h vs A Q T W (liftM (Engine.changeMode g) >>= f) (liftM (Engine.changeMode g') >>= f') :=
  skip (fun e mode => by
      show Except.ok ((), { e with mode := g e.mode }) = _
      rw [mode, same, ← mode])
    (fun e mode => by
      show Except.ok ((), { e with mode := g' e.mode }) = _
      rw [mode, same', ← mode]) next

section

variable (dry : d.Dry) {f f' : Unit → Routine β}
include dry

/-- What is paid for a call comes back, less the share of the production. -/
theorem simple [pays : A.Pays s] {q : Production} (is : q.isSimple = true)
    (enough : Nat.ble (q.share + 2 + l) s = true) :
    Gives d h vs A (Routine.call q) l (Has (s + q.gain - (q.share + 2))) := by
  obtain ⟨reads, none, free, start, stop, twin⟩ := Production.facts_of_isSimple dry.own is
  have enough := Nat.le_of_ble_eq_true enough
  have called : Gives d h vs A (Routine.call q) (s - (q.share + 2)) _ (Routine.call (q.twin d.copy))
    := call reads
    (fun _ _ _ _ => none ▸ nofun) (free ▸ Nat.zero_le h) fun k c here => by
      have has : k.credit + s ≤ c := pays.has k c here
      rw [start]
      show k.credit + q.share + 2 + _ ≤ c
      omega
  rw [twin] at called
  refine mono called fun v k c earns => ⟨earns.1, fun fails => Nat.le_trans (by omega)
    (earns.2.1 fails), fun fine => ?_⟩
  have has : (q.stop k).credit + q.gain + (s - (q.share + 2)) ≤ c := earns.2.2 fine
  rw [stop] at has
  show k.credit + _ ≤ c
  have has : k.credit + q.gain + (s - (q.share + 2)) ≤ c := has
  omega

/-! ### The mode -/

theorem guard {f f' : Bool → Routine β} (next : Lasts d h vs A Q T W (f true) (f' true)) :
    Lasts d h vs A Q T W (liftM isDry >>= f) (liftM isDry >>= f') :=
  skip (fun e mode => by rw [← dry.own, ← mode]; rfl)
    (fun e mode => by rw [← dry.copy, ← mode]; rfl) next

theorem goDry (next : Lasts d h vs A Q T W (f ()) (f' ())) :
    Lasts d h vs A Q T W (liftM Routine.goDry >>= f) (liftM Routine.goDry >>= f') :=
  changeMode (Mode.eq_of_dry dry.own) (Mode.eq_of_dry dry.copy) next

theorem goDryIf {b : Prop} [Decidable b] (next : Lasts d h vs A Q T W (f ()) (f' ())) :
    Lasts d h vs A Q T W (if b then liftM Routine.goDry >>= f else f ())
      (if b then liftM Routine.goDry >>= f' else f' ()) :=
  ite (fun _ => goDry dry next) fun _ => next

theorem collectIfDue (next : Lasts d h vs A Q T W (f ()) (f' ())) :
    Lasts d h vs A Q T W (liftM Engine.collectIfDue >>= f) (liftM Engine.collectIfDue >>= f') :=
  skip (fun e mode => by
      show (if !e.mode.dry && _ then collectNow else Pure.pure ()) e = _
      rw [mode, dry.own]
      rfl)
    (fun e mode => by
      show (if !e.mode.dry && _ then collectNow else Pure.pure ()) e = _
      rw [mode, dry.copy]
      rfl) next

end

theorem restoreMode {f f' : Unit → Routine β} (next : Lasts d h vs A Q T W (f ()) (f' ())) :
    Lasts d h vs A Q T W (liftM (Routine.restoreMode d.own) >>= f)
      (liftM (Routine.restoreMode d.copy) >>= f') :=
  changeMode rfl rfl next

/-! ### Nesting -/

/-- A routine while a value is held. -/
theorem hold {x x' : Routine α} {f f' : α → Value → Routine β}
    (inner : Lasts d (h + 1) vs A P R V x x') (some : ∀ a, P a → ∃ a', V a a')
    (next : ∀ a a', P a → V a a' → Lasts d h vs (R a) Q T W (f a v) (f' a' v)) :
    Lasts d h vs A Q T W (liftM (Engine.hold v) >>= fun _ => x >>= fun a =>
        liftM Engine.unhold >>= fun u => f a u)
      (liftM (Engine.hold v) >>= fun _ => x' >>= fun a => liftM Engine.unhold >>= fun u => f' a u) :=
  nested (g := (v :: ·)) (n := 0) (fun _ => rfl) (fun e r roots depth => by
      show Progress.ofExcept (Engine.unhold r) = _
      rw [Engine.unhold, roots, ← show r.depth = e.depth from depth]
      rfl)
    (fun _ => rfl) inner some next

/-- A value that comes while another one is held. -/
theorem holdBind {P : Value → Prop} {x x' : Routine Value} {f k : Value → Value → Routine β}
    (inner : Lasts d (h + 1) vs A P (Value.Earns l B) Eq x x')
    (error : ∀ u, u.isError = true → Lasts d h (u :: vs) (HasUnused l) Q T W (f u v) (k u v))
    (next : ∀ u, u.isError = false → Lasts d h (u :: vs) B Q T W (f u v) (k u v)) :
    Lasts d h vs A Q T W (liftM (Engine.hold v) >>= fun _ => x >>= fun u =>
        liftM Engine.unhold >>= fun v => f u v)
      (liftM (Engine.hold v) >>= fun _ => x' >>= fun u => liftM Engine.unhold >>= fun v => k u v) :=
  hold inner (fun u _ => ⟨u, rfl⟩) fun u _ _ same => same ▸ earned (error u) (next u)

theorem holding {q q' : Production} {P : Value → Prop} {f f' : Value × Value → Routine β}
    (inner : Lasts d (h + 1) vs A P (Value.Earns l B) Eq (Routine.call q) (Routine.call q'))
    (error : ∀ u, u.isError = true → Lasts d h (u :: vs) (HasUnused l) Q T W (f (v, u)) (f' (v, u)))
    (next : ∀ u, u.isError = false → Lasts d h (u :: vs) B Q T W (f (v, u)) (f' (v, u))) :
    Lasts d h vs A Q T W (Routine.holding v q >>= f) (Routine.holding v q' >>= f') :=
  (holdBind (f := fun u v => f (v, u)) (k := fun u v => f' (v, u)) inner error next).reduce
    (fun e _ => by simp only [Routine.holding, Routine.steps])
    fun e _ => by simp only [Routine.holding, Routine.steps]

/-- A routine one level deeper. -/
theorem deeper {P : Value → Prop} {x x' : Routine Value} {f f' : Value → Routine β}
    (inner : Lasts d h vs A P (Value.Earns l B) Eq x x')
    (error : ∀ u, u.isError = true → Lasts d h (u :: vs) (HasUnused l) Q T W (f u) (f' u))
    (next : ∀ u, u.isError = false → Lasts d h (u :: vs) B Q T W (f u) (f' u)) :
    Lasts d h vs A Q T W
      ((modify fun e => { e with depth := e.depth + 1 }) >>= fun _ => x >>= fun v =>
        (modify fun e => { e with depth := e.depth - 1 }) >>= fun _ => f v)
      ((modify fun e => { e with depth := e.depth + 1 }) >>= fun _ => x' >>= fun v =>
        (modify fun e => { e with depth := e.depth - 1 }) >>= fun _ => f' v) :=
  nested (f := fun v _ => f v) (k := fun v _ => f' v) (g := id) (n := 1) (j := 0) (fun _ => rfl)
    (fun e r roots depth => by
      show Progress.finished ((), { r with depth := r.depth - 1 }) = _
      rw [depth, Nat.add_sub_cancel, ← show r.roots = e.roots from roots])
    (fun _ => rfl) inner (fun u _ => ⟨u, rfl⟩) fun u _ _ same => same ▸ earned (error u) (next u)

/-! ### Actions that a dry run leaves out -/

section

variable (dry : d.Dry) {f f' : Value → Routine β}
include dry

/-- An action whose outcome is known in a dry run. -/
theorem leaveOut {x x' y y' : Action α} {a : α} {f f' : α → Routine β}
    (next : Lasts d h vs A Q T W (f a) (f' a))
    (run : ∀ e, x e = (if e.mode.dry then Pure.pure a else y) e)
    (run' : ∀ e, x' e = (if e.mode.dry then Pure.pure a else y') e) :
    Lasts d h vs A Q T W (liftM x >>= f) (liftM x' >>= f') :=
  skip (fun e mode => by rw [run, mode, dry.own]; rfl)
    (fun e mode => by rw [run', mode, dry.copy]; rfl) next

theorem lookup {name name' : ByteArray} (next : Lasts d h vs A Q T W (f .zero) (f' .zero)) :
    Lasts d h vs A Q T W (liftM (Engine.lookup name) >>= f) (liftM (Engine.lookup name') >>= f') :=
  leaveOut dry next (fun _ => rfl) fun _ => rfl

theorem addMember {object object' key key' value value' : Value}
    (next : Lasts d h vs A Q T W (f .zero) (f' .zero)) :
    Lasts d h vs A Q T W (liftM (Routine.addMember object key value) >>= f)
      (liftM (Routine.addMember object' key' value') >>= f') :=
  leaveOut dry next (fun _ => rfl) fun _ => rfl

/-- Of operands a dry run looks only for errors. -/
theorem operands {left right right' : Value} {op op' : Value → Value → Action Value}
    (like : right.Like right')
    (next : Lasts d h vs A Q T W (f (left.joined right)) (f' (left.joined right))) :
    Lasts d h vs A Q T W (liftM (Engine.withOperands left right op) >>= f)
      (liftM (Engine.withOperands left right' op') >>= f') := by
  rw [Value.joined] at next
  unfold Engine.withOperands
  split
  · next error =>
    rw [if_pos error] at next
    exact skip (fun _ _ => rfl) (fun _ _ => rfl) next
  · next fine =>
    rw [if_neg fine] at next
    rw [like.isError_eq]
    split
    · next error =>
      rw [if_pos error] at next
      rw [like.eq_of_isError error]
      exact skip (fun _ _ => rfl) (fun _ _ => rfl) next
    · next fine =>
      rw [if_neg fine] at next
      exact leaveOut dry next (fun _ => rfl) fun _ => rfl

/-- A string literal is only measured. -/
theorem stringLiteral (string : ∀ k c, A k c → k.token = .string)
    (rest : ∀ k c, A k c → l ≤ c) :
    Gives d h vs A (liftM Routine.stringLiteral) l A := by
  have run : ∀ {e r}, Engine.measureLiteral e = .ok r → r = ((Source.measure ⟨e.reads.bytes,
      e.reads.start + e.cursor.tokenStart, e.cursor.tokenLength⟩).2, e) := by
    intro e r run
    unfold Engine.measureLiteral at run
    split at run <;> cases run
    rfl
  have measured : Acts d h vs A (liftM Engine.measureLiteral) fun _ => A := by
    refine lift (fun sure e c stands here r outcome => ?_) fun e c stands _ =>
      ⟨_, if_pos (stands.legible trivial).valid⟩
    obtain rfl := run outcome
    refine ⟨trivial, .refl e, here, fun yes t e' r' _ twin ends _ => ?_⟩
    obtain rfl := run ends.of_ofExcept
    refine ⟨.refl e', twin.near, ?_⟩
    rw [twin.reads, twin.reads']
    exact (twin.near.sound (string _ _ (here yes))).symm
  have whole : Gives d h vs A (liftM Engine.measureLiteral >>= fun ok =>
      if ok then Pure.pure .zero else liftM (Engine.fail .badLiteral)) l A :=
    measured.act fun _ => ite (fun _ => value (fun k _ => .constant (by decide) k) (by decide)
      fun _ _ => id) fun _ => fail _ rest
  have same : ∀ e : Engine, e.mode.dry = true → (liftM Routine.stringLiteral : Routine Value) e
      = (liftM Engine.measureLiteral >>= fun ok =>
        if ok then Pure.pure .zero else liftM (Engine.fail .badLiteral) : Routine Value) e := by
    intro e dry
    have literal : Routine.stringLiteral e = (Engine.measureLiteral >>= fun ok =>
        if ok then Pure.pure .zero else Engine.fail .badLiteral : Action Value) e := by
      show (if e.mode.dry then _ else _ : Action Value) e = _
      rw [if_pos dry]
      by_cases valid : e.cursor.isValid e.arena.bytes = true <;>
        simp [Engine.measureLiteral, Engine.source, valid, Action.runs, Engine.reads]
    show Progress.ofExcept (Routine.stringLiteral e) = _
    rw [literal]
    simp only [Routine.steps, Action.steps]
  exact whole.reduce (fun e mode => same e (mode ▸ dry.own)) fun e mode => same e (mode ▸ dry.copy)

/-- The key of a member is a token that takes up room. -/
theorem memberKey [pays : A.Pays s] : Gives d h vs A (liftM Routine.memberKey) 0
    fun k c => ∃ t : Token, t.isBare = false ∧ Sees t s k c := by
  refine liftBind (token.act fun t => ?_)
  split
  · exact liftBind (guard dry (value (fun k _ => .constant (by decide) k) (by decide)
      fun _ _ sees => ⟨_, rfl, sees⟩))
  · exact (stringLiteral dry (fun _ _ sees => sees.2.1) fun _ c _ => Nat.zero_le c).mono fun _ _ _
      earns =>
      ⟨earns.1, earns.2.1, fun fine => ⟨_, rfl, earns.2.2 fine⟩⟩
  · exact fail _ fun _ c _ => Nat.zero_le c

end

/-- A token is looked at, and then used up if it is the one.  The copy does not end before
it then. -/
theorem ahead {t : Token} {f f' : Token → Routine β} {y y' : Routine β}
    (found : Lasts d h vs (Sees t s) Q T W (f t) (f' t)) (other : Lasts d h vs (Has s) Q T W y y')
    (room : t.isBare = false) :
    Lasts d h vs (HasUnused s) Q T W
      (liftM Engine.lookahead >>= fun u =>
        if u = t then liftM Engine.use >>= fun _ => liftM Engine.token >>= f else y)
      (liftM Engine.lookahead >>= fun u =>
        if u = t then liftM Engine.use >>= fun _ => liftM Engine.token >>= f' else y') := by
  have run : ∀ (f : Token → Routine β) y e, (liftM Engine.lookahead >>= fun u =>
      if u = t then liftM Engine.use >>= fun _ => liftM Engine.token >>= f else y : Routine β) e
      = if e.cursor.isValid e.arena.bytes then
          if e.onward.cursor.token = t then f t e.onward else y { e with cursor := e.cursor.unuse }
        else .halted .fault := by
    intro f y e
    by_cases valid : e.cursor.isValid e.arena.bytes = true
    · have next : Engine.token { e with cursor := e.cursor.use } = .ok
        (e.onward.cursor.token, e.onward) := by
        rw [Engine.token]
        refine if_neg ?_
        show ¬(true && !e.cursor.isValid e.arena.bytes) = true
        rw [valid]
        decide
      have look : Engine.lookahead e
          = .ok (e.onward.cursor.token, { e with cursor := e.cursor.unuse }) := by
        show (Engine.token { e with cursor := e.cursor.use }).bind _ = _
        rw [next]
        rfl
      simp only [Routine.steps, look, if_pos valid]
      split
      · next seen =>
        show (Progress.ofExcept (Engine.token { e with cursor := e.cursor.use })).bind _ = _
        rw [next, seen]
        rfl
      · rfl
    · have look : Engine.lookahead e = .error .fault := by
        show (Engine.token { e with cursor := e.cursor.use }).bind _ = _
        rw [Engine.token, if_pos]
        · rfl
        · show (true && !e.cursor.isValid e.arena.bytes) = true
          simpa using valid
      simp only [Routine.steps, look, if_neg valid]
  intro sure e c stands here
  have onward := Passes.onward e
  rw [run]
  split
  case isFalse invalid => exact .halted _ fun yes => invalid (stands.legible yes).valid
  split
  · next seen =>
    refine (found sure e.onward c (stands.passes onward) fun yes => ⟨rfl, seen, ?_⟩).mono
      fun r c' course => ⟨course.fit, onward.trans course.passes, course.here,
        fun yes t e' r' mode' twin ends way => ?_⟩
    · have le := Cursor.credit_advance_le (k := e.cursor.use) (stands.legible yes).inside
        e.arena.bytes
      have used := e.cursor.credit_use_le
      have all := e.cursor.credit_le_unuse
      have has : e.cursor.unuse.credit + s ≤ c := here yes
      show (e.cursor.use.advance e.arena.bytes).credit + s ≤ c
      omega
    · have before := course.passes.before ((stands.passes onward).legible yes).inside way
      have near := twin.onward before
      rw [run] at ends
      split at ends
      case isFalse => cases ends
      rw [if_pos (near.token.trans seen)] at ends
      have onward' := Passes.onward e'
      obtain ⟨passes', rest⟩ := course.mirrors yes t e'.onward r' (onward'.mode_eq.trans mode')
        (twin.passes onward onward' near) ends way
      exact ⟨onward'.trans passes', rest⟩
  · next unseen =>
    have back : ∀ e : Engine, e.Passes { e with cursor := e.cursor.unuse } := fun e =>
      .of_pos (.of_cursor e _) (.unuse _) rfl
    refine (other sure _ c (stands.passes (back e)) fun yes => here yes).mono
      fun r c' course => ⟨course.fit, (back e).trans course.passes, course.here,
        fun yes t e' r' mode' twin ends way => ?_⟩
    have before := ((back e).trans course.passes).before (stands.legible yes).inside way
    rw [run] at ends
    split at ends
    case isFalse => cases ends
    rw [if_neg ?_] at ends
    · obtain ⟨passes', rest⟩ := course.mirrors yes t { e' with cursor := e'.cursor.unuse } r'
        mode' (twin.passes (back e) (back e') { twin.near with consumed := rfl }) ends way
      exact ⟨(back e').trans passes', rest⟩
    · rintro rfl
      rcases twin.ahead before with same | last
      · exact unseen same.symm
      · rw [show e'.onward.cursor.token = .eof from last] at room
        cases room

end Routine.Lasts

end ArenaScript
