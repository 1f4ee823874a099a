import ArenaScript.Evaluate.Expression
import ArenaScript.Proofs.Lockstep.Literals

/-!
# Expressions in step

The routines of the productions of expressions, from the weakest operators to
the tightest, on engines that agree.  A value that is kept while another
production runs is either held, so that it is related again afterwards, or the
production only reads.

Main results:

- `Alike.assignmentRest`, `Alike.conditional`, `Alike.logicalRest`, `Alike.binaryRest`,
  `Alike.unary`: the productions.
-/

namespace ArenaScript.Lockstep

open Engine Routine Grammar

variable {ι : Type} [Rules ι] {w : World ι} {s : Standing ι} {c : Current} {e : ι → Engine}

namespace Alike

variable (alike : Alike w s c e)
include alike

theorem restoreMode (mode : Mode) (free : mode.inCall = true → s.registers.result = none) :
    ∃ e', (∀ i, Routine.restoreMode mode (e i) = .ok ((), e' i))
      ∧ Alike w s { c with mode := mode } e' :=
  alike.changeMode (fun _ => mode) free

theorem goDry : ∃ e', (∀ i, Routine.goDry (e i) = .ok ((), e' i))
      ∧ Alike w s { c with mode := { c.mode with dry := true } } e' :=
  alike.changeMode (fun m => { m with dry := true }) alike.free

/-! ## Nesting and assignments -/

theorem expression :
    Together LostNext (Goes w (.reading s c .expression)) fun i => Routine.expression (e i) := by
  have deeper := alike.withDepth (s.depth + 1)
  simp only [Routine.expression, Routine.steps, alike.depth]
  refine .afterCall (.assignment (Nat.succ_pos _)) deeper fun w₁ c₁ tag v e₁ alike₁ since related
    given => ?_
  have back := alike₁.withDepth s.depth
  simp only [alike₁.depth, Nat.add_sub_cancel]
  exact .give back rfl since related (given.mono id fun _ read => ⟨read.1, .expression read.2⟩)

variable (deep : 0 < s.depth) {v : ι → Value}
include deep

theorem assignment :
    Together LostNext (Goes w (.reading s c .assignment)) fun i => Routine.assignment (e i) := by
  simp only [Routine.assignment, Routine.steps]
  refine .afterCall (.conditional deep) alike fun w₁ c₁ tag v e₁ alike₁ since related given => ?_
  refine .goOn (.assignmentRest deep related given.1) alike₁ (fun _ same => same) since
    fun _ _ given' => given'.mono id fun _ read => ?_
  obtain ⟨sane, mode', rest⟩ := read
  obtain ⟨mode, left⟩ := given.2 sane
  exact ⟨mode'.trans mode, .assignment left rest⟩

theorem assignmentRest [Nonempty ι] {tag : Tag}
    (related : w.Related tag v) (operand : tag.IsOperand) :
    Together LostNext (Goes w (.operand s c.mode
        (ReadAfter tag s.ground.text c.mode .assignmentRest (c.spot.place s.ground.text))))
      fun i => Routine.assignmentRest (v i) (e i) := by
  obtain ⟨e₁, token, alike₁⟩ := alike.token
  have next := c.spot.next_place s.ground.text
  simp only [Routine.assignmentRest, Routine.steps, related.isError, token]
  by_cases error : tag.isError = true
  · simp only [error, if_true]
    exact .give alike rfl (.refl w c) related (.operand_of_isError error)
  have sane := Bool.eq_false_iff.mpr error
  simp only [error, Routine.steps]
  have stop : (∀ op, (c.spot.place s.ground.text).next s.ground.text ≠ .assign op) →
      Together LostNext (Goes w (.operand s c.mode
        (ReadAfter tag s.ground.text c.mode .assignmentRest (c.spot.place s.ground.text))))
      fun i => .finished (.value (v i), e₁ i) := fun other => by
    refine .give alike₁ rfl (.refl w c) related ⟨operand, fun sane => ⟨sane, rfl, ?_⟩⟩
    rw [Spot.place_advance]
    exact .assignmentEnd other
  generalize (c.spot.advance s.ground.text).token = t at next
  rw [next] at stop
  cases t
  case assign op =>
    obtain ⟨e₂, use, alike₂⟩ := alike₁.use
    obtain ⟨e₃, hold, alike₃⟩ := alike₂.holdAll related
    simp only [Routine.steps, use, Routine.holding, hold]
    refine alike₃.callHeld alike₂.grounded (.assignment deep) ?_
    intro w₄ c₄ left t right _ e₄ alike₄ since₄ rl rr given
    simp only [rr.isError]
    by_cases error' : t.isError = true
    · simp only [error', if_true]
      exact .give alike₄ rfl since₄ rr (.operand_of_isError error')
    simp only [error', Routine.steps]
    obtain ⟨mode₄, right⟩ := given.2 (Bool.eq_false_iff.mpr error')
    refine .goOnWith (alike₄.applyAssign op rl rr operand given.1) rfl since₄
      (fun _ _ _ _ related operand => .assignmentRest deep related operand)
      fun c₅ t₅ unmoved _ _ _ given => given.mono id fun _ read => ?_
    obtain ⟨sane₅, mode', rest⟩ := read
    rw [unmoved.mode] at mode'
    rw [unmoved.spot sane₅] at rest
    rw [← Spot.pass_place] at right
    exact ⟨sane, mode'.trans mode₄, .assignmentRest next right rest⟩
  all_goals exact stop (by simp)

/-! ## Conditionals -/

/-- The two branches of a conditional were read. -/
def Branches (text : ByteArray) (mode : Mode) (k : Place) (c : Current) : Prop :=
  c.mode = mode ∧ ∃ k₁, Derives text .conditional k k₁ ∧ k₁.next text = .colon
    ∧ Derives text .conditional (k₁.pass text) (c.spot.place text)

/-- The first branch is evaluated and the second one read, so that the value of
the first one stays related. -/
theorem chooseFirst : Together LostNext
      (Goes w (.operand s c.mode (Branches s.ground.text c.mode (c.spot.place s.ground.text))))
      fun i => Routine.chooseFirst c.mode (e i) := by
  simp only [Routine.chooseFirst, Routine.steps]
  refine .afterCall (.conditional deep) alike fun w₁ c₁ tag v e₁ alike₁ since₁ related given => ?_
  simp only [related.isError]
  by_cases error : tag.isError = true
  · obtain ⟨e₂, restored, alike₂⟩ := alike₁.restoreMode c.mode alike.free
    simp only [error, restored, Routine.steps]
    exact .give alike₂ rfl (since₁.withMode id) related (.operand_of_isError error)
  obtain ⟨-, first⟩ := given.2 (Bool.eq_false_iff.mpr error)
  obtain ⟨e₂, dried, alike₂⟩ := alike₁.goDry
  obtain ⟨colon, u, e₃, expect, alike₃, found⟩ := alike₂.expectAt .colon
  simp only [error, dried, expect, Routine.steps]
  cases colon with
  | false =>
    obtain ⟨e₄, restored, alike₄⟩ := alike₃.restoreMode c.mode alike.free
    simp only [restored, Routine.steps]
    exact alike₄.failing (.next _ _) .malformed rfl (since₁.withMode id)
  | true =>
    obtain ⟨colon, rfl⟩ := found rfl
    simp only [Routine.steps]
    refine .afterCall (.conditional deep) alike₃ fun w₄ c₄ tag' v' e₄ alike₄ since₄ related' given'
      => ?_
    obtain ⟨e₅, restored, alike₅⟩ := alike₄.restoreMode c.mode alike.free
    have le : w₁.Le w₄ := (since₄ rfl).1
    have since₅ : Since (c.mode.dry = true) w w₄ { c₄ with mode := c.mode } :=
      fun dry => ⟨(since₁ dry).1.trans le, dry⟩
    simp only [restored, Routine.steps, related'.isError]
    by_cases error' : tag'.isError = true
    · simp only [error', if_true]
      exact .give alike₅ rfl since₅ related' (.operand_of_isError error')
    · obtain ⟨-, second⟩ := given'.2 (Bool.eq_false_iff.mpr error')
      rw [← Spot.pass_place] at second
      simp only [error', Bool.false_eq_true, if_false]
      exact .give alike₅ rfl since₅ (related.mono le)
        ⟨given.1, fun _ => ⟨rfl, _, first, (Spot.next_place _ _).trans colon, second⟩⟩

/-- The first branch is read and the second one evaluated. -/
theorem chooseSecond : Together LostNext
      (Goes w (.operand s c.mode (Branches s.ground.text c.mode (c.spot.place s.ground.text))))
      fun i => Routine.chooseSecond c.mode (e i) := by
  obtain ⟨e₁, dried, alike₁⟩ := alike.goDry
  simp only [Routine.chooseSecond, Routine.steps, dried]
  refine .afterCall (.conditional deep) alike₁ fun w₂ c₂ tag v e₂ alike₂ since₂ related given => ?_
  have since : Since (c.mode.dry = true) w w₂ { c₂ with mode := c.mode } :=
    fun dry => ⟨(since₂ rfl).1, dry⟩
  simp only [related.isError]
  by_cases error : tag.isError = true
  · obtain ⟨e₃, restored, alike₃⟩ := alike₂.restoreMode c.mode alike.free
    simp only [error, restored, Routine.steps]
    exact .give alike₃ rfl since related (.operand_of_isError error)
  obtain ⟨-, first⟩ := given.2 (Bool.eq_false_iff.mpr error)
  obtain ⟨colon, u, e₃, expect, alike₃, found⟩ := alike₂.expectAt .colon
  obtain ⟨e₄, restored, alike₄⟩ := alike₃.restoreMode c.mode alike.free
  simp only [error, expect, restored, Routine.steps]
  cases colon with
  | false => exact alike₄.failing (.next _ _) .malformed rfl since
  | true =>
    obtain ⟨colon, rfl⟩ := found rfl
    refine .goOn (.conditional deep) alike₄ (fun _ same => same) since
      fun _ _ given => given.mono id fun _ read => ⟨read.1, _, first, ?_, ?_⟩
    · exact (Spot.next_place _ _).trans colon
    · rw [Spot.pass_place]
      exact read.2

theorem conditional :
    Together LostNext (Goes w (.reading s c .conditional)) fun i => Routine.conditional (e i) := by
  simp only [Routine.conditional, Routine.steps]
  refine .checked (.next _ _) (.call alike (.logical deep .or)) rfl (Since.refl w c) ?_
  intro w₁ c₁ tag v e₁ alike₁ _ since₁ related given sane
  obtain ⟨mode₁, condition⟩ := given.2 sane
  obtain ⟨e₂, token, alike₂⟩ := alike₁.token
  have next := c₁.spot.next_place s.ground.text
  simp only [token, Routine.steps]
  by_cases question : (c₁.spot.advance s.ground.text).token = .question
  · obtain ⟨e₃, use, alike₃⟩ := alike₂.use
    obtain ⟨t, r, resolved, rr, -⟩ := alike₃.resolve related
    obtain ⟨truth, truthy⟩ := alike₃.isTruthy rr
    simp only [question, ne_eq, not_true_eq_false, use, resolved, truthy, Routine.steps,
      alike₂.mode]
    have branches : ∀ (c' : Current) (tag : Tag), Given Tag.IsOperand (Branches s.ground.text c₁.mode
          ((c₁.spot.advance s.ground.text).use.place s.ground.text)) c' tag →
        Given Tag.IsOperand (Read s.ground.text c.mode .conditional (c.spot.place s.ground.text))
          c' tag := by
      refine fun c' tag given => given.mono id fun _ read => ?_
      obtain ⟨mode', k₁, first, colon, second⟩ := read
      rw [← Spot.pass_place] at first
      exact ⟨mode'.trans mode₁, .conditional condition (next.trans question) first colon second⟩
    cases truth with
    | true => exact .goesWithin (alike₃.chooseFirst deep) rfl since₁ branches
    | false => exact .goesWithin (alike₃.chooseSecond deep) rfl since₁ branches
  · simp only [question, ne_eq, not_false_eq_true, if_true]
    refine .give alike₂ rfl since₁ related ⟨given.1, fun _ => ⟨mode₁, ?_⟩⟩
    rw [Spot.place_advance]
    exact .conditionalEnd condition (next ▸ question)

/-! ## Logical operators -/

theorem logical (op : LogicalOp) :
    Together LostNext (Goes w (.reading s c (.logical op))) fun i => Routine.logical op (e i) := by
  have ready : Ready w s c (fun _ => Routine.operandOf op)
      (.reading s c (Grammar.operandOf op)) := by
    cases op with
    | or => exact .logical deep .and
    | and => exact .binary deep 0
  simp only [Routine.logical, Routine.steps]
  refine .checked (.next _ _) (.call alike ready) rfl (Since.refl w c) ?_
  intro w₁ c₁ tag v e₁ alike₁ _ since₁ related given sane
  obtain ⟨mode₁, left⟩ := given.2 sane
  simp only [alike₁.mode]
  exact .goOn (.logicalRest deep op c₁.mode related given.1 id alike₁.free) alike₁
    (fun _ same => same)
    since₁ fun _ _ given => given.mono id fun _ read =>
      ⟨read.1.trans mode₁, .logical left read.2⟩

omit deep in
/-- Once the left side decides, the rest of the chain is only read. -/
theorem goDryIf (b : Prop) [Decidable b] : ∃ (mode : Mode) (e' : ι → Engine),
      (∀ i, (if b then .ofExcept (Routine.goDry (e i)) else .finished ((), e i))
        = Progress.finished ((), e' i))
      ∧ Alike w s { c with mode := mode } e' ∧ (c.mode.dry = true → mode.dry = true) := by
  by_cases choice : b
  · obtain ⟨e', dried, alike'⟩ := alike.goDry
    refine ⟨_, e', fun i => ?_, alike', fun _ => rfl⟩
    rw [if_pos choice, dried]
    rfl
  · exact ⟨c.mode, e, fun i => if_neg choice, alike, id⟩

theorem logicalRest (op : LogicalOp) {tag : Tag}
    (mode : Mode) (related : w.Related tag v) (operand : tag.IsOperand)
    (dry : mode.dry = true → c.mode.dry = true)
    (free : mode.inCall = true → s.registers.result = none) :
    Together LostNext (Goes w (.operand s mode
        (Read s.ground.text mode (.logicalRest op) (c.spot.place s.ground.text))))
      fun i => Routine.logicalRest op (v i) mode (e i) := by
  have since : Since (mode.dry = true) w w c := fun h => ⟨.refl w, dry h⟩
  obtain ⟨e₁, token, alike₁⟩ := alike.token
  have next := c.spot.next_place s.ground.text
  simp only [Routine.logicalRest, Routine.steps, token]
  by_cases more : (c.spot.advance s.ground.text).token = .logical op
  · obtain ⟨e₂, use, alike₂⟩ := alike₁.use
    obtain ⟨t, r, resolved, rr, plain, -⟩ := alike₂.resolve related
    obtain ⟨truth, truthy⟩ := alike₂.isTruthy rr
    simp only [more, ne_eq, not_true_eq_false, if_false, use, resolved, truthy, Routine.steps]
    refine .joinElse (a := fun i => ((), e₂ i)) ?_
    obtain ⟨mode₃, e₃, dried, alike₃, dry₃⟩ := alike₂.goDryIf (truth = decisive op)
    simp only [dried, Routine.steps, alike₃.isDry]
    refine .afterCall (.logical deep op) alike₃ fun w₄ c₄ t' right e₄ alike₄ since₄ rr' given => ?_
    have since₄' : Since (mode.dry = true) w w₄ c₄ := fun h => since₄ (dry₃ (dry h))
    simp only [rr'.isError]
    by_cases error : t'.isError = true
    · obtain ⟨e₅, restored, alike₅⟩ := alike₄.restoreMode mode free
      simp only [error, if_true, restored, Routine.steps]
      exact .give alike₅ rfl (since₄'.withMode id) rr' (.operand_of_isError error)
    simp only [error, Routine.steps]
    obtain ⟨-, right⟩ := given.2 (Bool.eq_false_iff.mpr error)
    rw [← Spot.pass_place] at right
    have rest : ∀ (c' : Current) (tag : Tag), Given Tag.IsOperand
          (Read s.ground.text mode (.logicalRest op) (c₄.spot.place s.ground.text)) c' tag →
        Given Tag.IsOperand
          (Read s.ground.text mode (.logicalRest op) (c.spot.place s.ground.text)) c' tag :=
      fun _ _ given => given.mono id fun _ read =>
        ⟨read.1, .logicalRest (next.trans more) right read.2⟩
    -- the left side is still related if the right one was only read
    by_cases skipped : mode₃.dry = true
    · simp only [skipped, if_true]
      exact .goOn (.logicalRest deep op mode (rr.mono (since₄ skipped).1) (plain operand).isOperand
        (fun h => (since₄' h).2) free) alike₄ (fun _ same => same) (fun h => ⟨(since₄' h).1, h⟩)
        rest
    · simp only [skipped]
      exact .goOn (.logicalRest deep op mode rr' given.1 (fun h => (since₄' h).2) free) alike₄
        (fun _ same => same) (fun h => ⟨(since₄' h).1, h⟩) rest
  · obtain ⟨e₂, restored, alike₂⟩ := alike₁.restoreMode mode free
    simp only [more, ne_eq, not_false_eq_true, if_true, restored, Routine.steps]
    refine .give alike₂ rfl (since.withMode id) related ⟨operand, fun _ => ⟨rfl, ?_⟩⟩
    rw [Spot.place_advance]
    exact .logicalEnd (next ▸ more)

/-! ## Strict operators -/

theorem binary (level : Nat) : Together LostNext (Goes w (.reading s c (.binary level)))
      fun i => Routine.binary level (e i) := by
  simp only [Routine.binary, Routine.steps]
  refine .afterCall (.unary deep) alike fun w₁ c₁ tag v e₁ alike₁ since related given => ?_
  refine .goOn (.binaryRest deep level related given.1) alike₁ (fun _ same => same) since
    fun _ _ given' => given'.mono id fun _ read => ?_
  obtain ⟨sane, mode', rest⟩ := read
  obtain ⟨mode, left⟩ := given.2 sane
  exact ⟨mode'.trans mode, .binary left rest⟩

theorem binaryRest [Nonempty ι] (level : Nat)
    {tag : Tag} (related : w.Related tag v) (operand : tag.IsOperand) :
    Together LostNext (Goes w (.operand s c.mode
        (ReadAfter tag s.ground.text c.mode (.binaryRest level) (c.spot.place s.ground.text))))
      fun i => Routine.binaryRest level (v i) (e i) := by
  obtain ⟨e₁, token, alike₁⟩ := alike.token
  have next := congrArg (operatorFrom? level) (c.spot.next_place s.ground.text)
  simp only [Routine.binaryRest, Routine.steps, related.isError, token]
  by_cases error : tag.isError = true
  · simp only [error, if_true]
    exact .give alike rfl (.refl w c) related (.operand_of_isError error)
  have sane := Bool.eq_false_iff.mpr error
  simp only [error, Routine.steps]
  cases found : operatorFrom? level (c.spot.advance s.ground.text).token with
  | none =>
    refine .give alike₁ rfl (.refl w c) related ⟨operand, fun sane => ⟨sane, rfl, ?_⟩⟩
    rw [Spot.place_advance]
    exact .binaryEnd (next.trans found)
  | some found' =>
    obtain ⟨op, own⟩ := found'
    obtain ⟨e₂, use, alike₂⟩ := alike₁.use
    obtain ⟨e₃, hold, alike₃⟩ := alike₂.holdAll related
    simp only [Routine.steps, use, Routine.holding, hold]
    refine alike₃.callHeld alike₂.grounded (.binary (by exact deep) (own + 1)) ?_
    intro w₄ c₄ left t right _ e₄ alike₄ since₄ rl rr given
    simp only [rr.isError]
    by_cases error' : t.isError = true
    · simp only [error', if_true]
      exact .give alike₄ rfl since₄ rr (.operand_of_isError error')
    simp only [error', Routine.steps]
    obtain ⟨mode₄, right⟩ := given.2 (Bool.eq_false_iff.mpr error')
    refine .goOnWith (alike₄.applyBinary op rl rr operand) rfl since₄
      (fun _ _ _ _ related given => .binaryRest deep level related given.1.isOperand)
      fun c₅ t₅ unmoved _ _ _ given => given.mono id fun _ read => ?_
    obtain ⟨sane₅, mode', rest⟩ := read
    rw [unmoved.mode] at mode'
    rw [unmoved.spot sane₅] at rest
    rw [← Spot.pass_place] at right
    exact ⟨sane, mode'.trans mode₄, .binaryRest (next.trans found) right rest⟩

/-! ## Prefixed operators, powers and steps -/

/-- A value was read, with a step after it or not. -/
def Stepped (text : ByteArray) (mode : Mode) (k : Place) (c : Current) : Prop :=
  c.mode = mode ∧ ∃ k₁, Derives text .access k k₁ ∧ c.spot.place text = k₁.passStep text

/-- A value with a step after it. -/
theorem stepped [Nonempty ι] : Together LostValue
      (Out w (.operand s c.mode (Stepped s.ground.text c.mode (c.spot.place s.ground.text))))
      fun i => Routine.stepped (e i) := by
  simp only [Routine.stepped, Routine.steps]
  refine .checked (.value _ _) (.call alike (.access deep)) rfl (Since.refl w c) ?_
  intro w₁ c₁ tag v e₁ alike₁ _ since₁ related given sane
  obtain ⟨mode₁, value⟩ := given.2 sane
  obtain ⟨e₂, token, alike₂⟩ := alike₁.token
  obtain ⟨e₃, use, alike₃⟩ := alike₂.use
  have next := c₁.spot.next_place s.ground.text
  simp only [token, Routine.steps]
  have step : ∀ op, (c₁.spot.place s.ground.text).next s.ground.text = .increment
        ∨ (c₁.spot.place s.ground.text).next s.ground.text = .decrement →
      Together LostValue
        (Out w (.operand s c.mode (Stepped s.ground.text c.mode (c.spot.place s.ground.text))))
        fun i => .ofExcept (Engine.applyStep op (v i) (e₃ i)) := fun op sign => by
    refine ((alike₃.applyStep op related given.1).out fun _ => Tag.isPlain_of_isError).within rfl
      since₁ fun c' _ given => given.mono Tag.IsPlain.isOperand fun _ still =>
        ⟨still.1.trans mode₁, _, value, ?_⟩
    rw [still.2, Place.passStep, if_pos sign, Spot.pass_place]
  generalize (c₁.spot.advance s.ground.text).token = t at next
  cases t
  case increment =>
    simp only [Routine.steps, use]
    exact step .plus (.inl next)
  case decrement =>
    simp only [Routine.steps, use]
    exact step .minus (.inr next)
  all_goals
    refine .done alike₂ rfl since₁ related ⟨given.1, fun _ => ⟨mode₁, _, value, ?_⟩⟩
    rw [Spot.place_advance, Place.passStep, if_neg]
    rw [next]
    simp

/-- A power. -/
theorem power [Nonempty ι] (seen : c.spot.consumed = false) (plain : c.spot.token.unary? = none) :
    Together LostNext (Goes w (.reading s c .unary)) fun i => Routine.power (e i) := by
  have here : (c.spot.place s.ground.text).advance s.ground.text = c.spot.place s.ground.text :=
    Place.advance_of_seen seen _
  have start : ((c.spot.place s.ground.text).next s.ground.text).unary? = none := by
    rw [Place.next, here]
    exact plain
  simp only [Routine.power, Routine.steps]
  refine .checked (.next _ _) (alike.stepped deep) rfl (Since.refl w c) ?_
  intro w₁ c₁ tag v e₁ alike₁ _ since₁ related given sane
  obtain ⟨mode₁, k₁, value, step⟩ := given.2 sane
  rw [← here] at value
  obtain ⟨e₂, token, alike₂⟩ := alike₁.token
  have next := c₁.spot.next_place s.ground.text
  rw [step] at next
  simp only [token, Routine.steps]
  by_cases power : (c₁.spot.advance s.ground.text).token = .binary .power
  · obtain ⟨e₃, use, alike₃⟩ := alike₂.use
    obtain ⟨e₄, hold, alike₄⟩ := alike₃.holdAll related
    simp only [power, ne_eq, not_true_eq_false, use, Routine.holding, hold, Routine.steps]
    refine alike₄.callHeld alike₃.grounded (.unary deep) ?_
    intro w₅ c₅ left t right _ e₅ alike₅ since₅ rl rr given₅
    refine .ended (.next _ _) (((alike₅.applyBinary .power rl rr given.1).out
      fun _ error => ⟨Tag.isPlain_of_isError error,
        fun sane => absurd error (Bool.eq_false_iff.mp sane)⟩).within rfl (since₁.trans since₅)
      fun c' _ given₆ => ⟨given₆.1.1.isOperand, fun sane₆ => ?_⟩)
    obtain ⟨mode₅, exponent⟩ := given₅.2 (given₆.1.2 sane₆).2
    obtain ⟨mode₆, spot₆⟩ := given₆.2 sane₆
    rw [← Spot.pass_place, step] at exponent
    rw [Read, mode₆, spot₆]
    exact ⟨mode₅.trans mode₁, .power start value (next.trans power) exponent⟩
  · simp only [power, ne_eq, not_false_eq_true, if_true]
    refine .give alike₂ rfl since₁ related ⟨given.1, fun _ => ⟨mode₁, ?_⟩⟩
    rw [Spot.place_advance, step]
    exact .unary start value (next ▸ power)

theorem unary [Nonempty ι] :
    Together LostNext (Goes w (.reading s c .unary)) fun i => Routine.unary (e i) := by
  obtain ⟨e₁, token, alike₁⟩ := alike.token
  have next := congrArg Token.unary? (c.spot.next_place s.ground.text)
  simp only [Routine.unary, Routine.steps, token]
  cases sign : (c.spot.advance s.ground.text).token.unary? with
  | none =>
    refine .goesWithin (alike₁.power deep (Spot.consumed_advance _ _) sign) rfl (Since.refl w c)
      fun _ _ given => given.mono id fun _ read => ⟨read.1, ?_⟩
    have whole := read.2
    rw [Spot.place_advance] at whole
    exact whole.unary_of_advance
  | some op =>
    obtain ⟨e₂, use, alike₂⟩ := alike₁.use
    simp only [Routine.steps, use]
    refine .afterCall (.unary deep) alike₂ fun w₃ c₃ tag v e₃ alike₃ since₃ related given => ?_
    refine .ended (.next _ _) (((alike₃.applyUnary op related).out
      fun _ error => ⟨Tag.isPlain_of_isError error,
        fun sane => absurd error (Bool.eq_false_iff.mp sane)⟩).within rfl since₃
      fun c' _ given₄ => ⟨given₄.1.1.isOperand, fun sane => ?_⟩)
    obtain ⟨mode₃, operand⟩ := given.2 (given₄.1.2 sane)
    obtain ⟨mode₄, spot₄⟩ := given₄.2 sane
    rw [← Spot.pass_place] at operand
    rw [Read, mode₄, spot₄]
    exact ⟨mode₃, .prefixed (next.trans sign) operand⟩

end Alike

end ArenaScript.Lockstep
