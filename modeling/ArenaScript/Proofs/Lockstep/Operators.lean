import ArenaScript.Engine.Operators
import ArenaScript.Proofs.Lockstep.Values

/-!
# Operators in step

The operators of the language give related values on related operands: what
they do depends on the kinds of the operands, on numbers and texts, and on
whether two references are the same.

Main results:

- `World.Related.eq_all_or_none`: references are the same in all engines or in none.
- `Alike.withOperands`: the checks shared by all operators.
- `Alike.applyBinary`, `Alike.applyUnary`, `Alike.applyDot`, `Alike.applyAssign`,
  `Alike.applyStep`: the operators.
-/

namespace ArenaScript

/-! ## Values of arithmetic -/

/-- An operator on two numbers gives a number or a truth value. -/
theorem Number.kind_binary {op : BinaryOp} {x y : Float} {v : Value}
    (result : binary op x y = some v) : v.kind = .number ∨ v.kind = .boolean := by
  have number : ∀ x : Float, (Value.ofFloat x).kind = .number := Value.kind_ofFloat
  have truth : ∀ b : Bool, (Value.ofBool b).kind = .boolean := Value.kind_ofBool
  unfold binary at result
  cases op
  case divide =>
    by_cases zero : (y == 0) = true
    · simp [zero] at result
    · simp only [zero, Bool.false_eq_true, if_false, Option.some.injEq] at result
      exact .inl (result ▸ number _)
  case remainder =>
    by_cases zero : (y == 0) = true
    · simp [zero] at result
    · simp only [zero, Bool.false_eq_true, if_false, Option.some.injEq] at result
      exact .inl (result ▸ Value.kind_ofBits _)
  all_goals
    rw [Option.some.injEq] at result
    rw [← result]
    simp only [number, truth, true_or, or_true]

/-- An operator on one number gives a number or a truth value. -/
theorem Number.kind_unary (op : UnaryOp) (x : Float) :
    (unary op x).kind = .number ∨ (unary op x).kind = .boolean := by
  cases op <;> simp [unary]

namespace Lockstep

open Engine

variable {ι : Type} [Rules ι] {w : World ι} {s : Standing ι} {c : Current} {e : ι → Engine}

/-! ## Tags told by kinds -/

namespace World.Related

variable {tag : Tag} {v : ι → Value}

variable (related : w.Related tag v)
include related

theorem eq_string (kind : tag.kind = .string) : ∃ age text, tag = .string age text := by
  cases tag with
  | string age text => exact ⟨age, text, rfl⟩
  | other x =>
    have bare := related.1
    rw [Tag.kind] at kind
    rw [Value.isEntity, kind] at bare
    cases bare
  | _ => cases kind

theorem eq_object (kind : tag.kind = .object) : ∃ ages, tag = .object ages := by
  cases tag with
  | object ages => exact ⟨ages, rfl⟩
  | other x =>
    have bare := related.1
    rw [Tag.kind] at kind
    rw [Value.isEntity, kind] at bare
    cases bare
  | _ => cases kind

theorem eq_function (kind : tag.kind = .function) : ∃ age text, tag = .function age text := by
  cases tag with
  | function age text => exact ⟨age, text, rfl⟩
  | other x =>
    have bare := related.1
    rw [Tag.kind] at kind
    rw [Value.isEntity, kind] at bare
    cases bare
  | _ => cases kind

/-- Two related references are the same in all engines or in none. -/
theorem eq_all_or_none {tag' : Tag} {v' : ι → Value}
    (related' : w.Related tag' v') (matched : w.Matched) :
    (∀ i, v i = v' i) ∨ ∀ i, v i ≠ v' i := by
  by_cases none : ∀ i, v i ≠ v' i
  · exact .inr none
  · left
    obtain ⟨i, same⟩ := not_forall.mp none
    have same : v i = v' i := not_not.mp same
    have kinds : tag.kind = tag'.kind := by rw [← related.kind i, ← related'.kind i, same]
    -- one common offset makes all offsets common
    have refers : ∀ {kind : Kind} {sh sh' : Shape}, w.Refers kind sh v → w.Refers kind sh' v' →
        ∀ j, v j = v' j := by
      rintro kind sh sh' ⟨a, rel, eq⟩ ⟨b, rel', eq'⟩ j
      rw [eq, eq'] at same
      obtain ⟨-, rfl⟩ := matched.unique i rel rel' (Value.ref_inj same)
      rw [eq, eq']
    cases tag with
    | object ages =>
      obtain ⟨ages', rfl⟩ := related'.eq_object kinds.symm
      exact refers related related'
    | property names =>
      obtain ⟨names', rfl⟩ := related'.eq_property kinds.symm
      exact refers related related'
    | string age text =>
      obtain ⟨age', text', rfl⟩ := related'.eq_string kinds.symm
      exact refers related related'
    | function age text =>
      obtain ⟨age', text', rfl⟩ := related'.eq_function kinds.symm
      exact refers related.1 related'.1
    | other x =>
      obtain ⟨bare, eq⟩ := related
      obtain ⟨y, -, eq'⟩ := related'.eq_of_not_entity (kinds ▸ bare)
      intro j
      rw [eq, eq'] at same
      rw [eq, eq', same]

end World.Related

/-- A value that refers to nothing can be stored. -/
theorem Tag.isPlain_other {x : Value} (bare : x.isEntity = false) (span : x.kind ≠ .span) :
    (Tag.other x).IsPlain := by
  refine ⟨fun kind => ?_, span⟩
  rw [Tag.kind] at kind
  rw [Value.isEntity, kind] at bare
  cases bare

theorem Tag.isPlain_zero : (Tag.other .zero).IsPlain := isPlain_other (by decide) (by decide)

theorem Tag.isPlain_undefined : (Tag.other .undefined).IsPlain :=
  isPlain_other (by decide) (by decide)

theorem World.related_undefined (w : World ι) : w.Related (.other .undefined) fun _ => .undefined :=
  related_other w (by decide)

theorem Tag.isPlain_string (age : Nat) (text : ByteArray) : (Tag.string age text).IsPlain :=
  ⟨nofun, nofun⟩

theorem Tag.OrError.isPlain {tag t : Tag} (plain : tag.IsPlain) (given : tag.OrError t) :
    t.IsPlain := by
  rcases given with rfl | error
  · exact plain
  · exact Tag.isPlain_of_isError error

namespace Together

variable {gives gives' : Tag → Prop} {p : ι → Progress (Value × Engine)}

/-- A weaker condition on the values of an action. -/
theorem weaken (together : Together LostValue (Placed w s c gives) p)
    (le : ∀ tag, gives tag → gives' tag) : Together LostValue (Placed w s c gives') p := by
  refine together.mono fun r placed => ?_
  obtain ⟨w', c', tag, v, e', eq, le', alike, unmoved, related, given⟩ := placed
  exact ⟨w', c', tag, v, e', eq, le', alike, unmoved, related, le tag given⟩

/-- An action after another one. -/
theorem later {w' : World ι} {c' : Current} (le : w.Le w') (mode : c'.mode = c.mode)
    (spot : c'.spot = c.spot) (together : Together LostValue (Placed w' s c' gives) p) :
    Together LostValue (Placed w s c gives) p := by
  refine together.mono fun r placed => ?_
  obtain ⟨w'', c'', tag, v, e', eq, le', alike, unmoved, related, given⟩ := placed
  exact ⟨w'', c'', tag, v, e', eq, le.trans le', alike,
    ⟨unmoved.mode.trans mode, fun sane => (unmoved.spot sane).trans spot⟩, related, given⟩

end Together

/-- A tag of what an operator gives, which fails on errors. -/
def Tag.Strictly (tag tag' : Tag) (gives : Tag → Prop) (t : Tag) : Prop :=
  gives t ∧ (t.isError = false → tag.isError = false ∧ tag'.isError = false)

/-- A tag of operands, or of spans inside a text of a length. -/
def Tag.Names (n : Nat) (tag : Tag) : Prop :=
  tag.IsOperand ∨ ∃ v, tag = .other v ∧ v.spanStart.toNat + v.spanLength.toNat ≤ n

namespace Alike

variable {tag tag' t : Tag} {left right v l r : ι → Value}

variable (alike : Alike w s c e)
include alike

/-- A value that refers to nothing is given by all. -/
theorem placedOther {x : Value} {gives : Tag → Prop}
    (bare : x.isEntity = false) (given : gives (.other x)) :
    Together LostValue (Placed w s c gives) fun i => .finished (x, e i) :=
  .placed (.refl w) alike (.refl c _) (World.related_other w bare) given

/-- A truth value is given by all. -/
theorem placedBool (b : Bool) :
    Together LostValue (Placed w s c Tag.IsPlain) fun i => .finished (.ofBool b, e i) := by
  have bare : (Value.ofBool b).isEntity = false := by rw [Value.isEntity, Value.kind_ofBool]; rfl
  refine alike.placedOther bare (Tag.isPlain_other bare ?_)
  rw [Value.kind_ofBool]
  decide

/-- The value of an arithmetic operator is given by all. -/
theorem placedNumber {x : Value} (kind : x.kind = .number ∨ x.kind = .boolean) :
    Together LostValue (Placed w s c Tag.IsPlain) fun i => .finished (x, e i) := by
  have bare : x.isEntity = false := by
    rw [Value.isEntity]
    rcases kind with kind | kind <;> rw [kind] <;> rfl
  refine alike.placedOther bare (Tag.isPlain_other bare ?_)
  rcases kind with kind | kind <;> rw [kind] <;> decide

/-- All engines fail, where plain values are asked for. -/
theorem failPlain (f : Failure) :
    Together LostValue (Placed w s c Tag.IsPlain) fun i => .ofExcept (Engine.fail f (e i)) :=
  alike.failAll f fun _ => Tag.isPlain_of_isError

/-! ## Operands -/

/-- The checks shared by all operators: an operator only gets plain values that
are no errors, and only outside a dry run. -/
theorem withOperands (related : w.Related tag left)
    (related' : w.Related tag' right) (operand : tag.IsOperand) {gives : Tag → Prop}
    (fails : ∀ tag : Tag, tag.isError = true → gives tag) (zero : gives (.other .zero))
    {k : ι → Value → Value → Action Value}
    (next : ∀ (t t' : Tag) (l r : ι → Value) (e' : ι → Engine), Alike w s c e' →
      w.Related t l → w.Related t' r → t.IsPlain → (tag'.IsOperand → t'.IsPlain) →
      (tag'.kind ≠ .property → t' = tag' ∧ r = right) → t.isError = false → t'.isError = false →
      Together LostValue (Placed w s c gives) fun i => .ofExcept (k i (l i) (r i) (e' i))) :
    Together LostValue (Placed w s c (tag.Strictly tag' gives))
      fun i => .ofExcept (Engine.withOperands (left i) (right i) (k i) (e i)) := by
  have failed : ∀ t : Tag, t.isError = true → tag.Strictly tag' gives t := fun t error =>
    ⟨fails t error, fun sane => absurd error (Bool.eq_false_iff.mp sane)⟩
  simp only [Engine.withOperands, Action.steps, related.isError, related'.isError]
  by_cases error : tag.isError = true
  · simp only [error, if_true]
    exact .placed (.refl w) alike (.refl c _) related (failed tag error)
  by_cases error' : tag'.isError = true
  · simp only [error, error', Bool.false_eq_true, if_true, if_false]
    exact .placed (.refl w) alike (.refl c _) related' (failed tag' error')
  have sane := And.intro (Bool.eq_false_iff.mpr error) (Bool.eq_false_iff.mpr error')
  simp only [error, error', Routine.steps, alike.isDry, Action.steps]
  by_cases dry : c.mode.dry = true
  · simp only [dry, if_true]
    exact alike.placedOther (by decide) ⟨zero, fun _ => sane⟩
  obtain ⟨t, l, resolved, rl, plain, -⟩ := alike.resolve related
  obtain ⟨t', r, resolved', rr, plain', same⟩ := alike.resolve related'
  obtain ⟨e', noted, alike'⟩ := alike.noteUse
  simp only [dry, Routine.steps, resolved, resolved', noted, Action.steps,
    rl.isError, rr.isError]
  by_cases inner : t.isError = true
  · simp only [inner, if_true]
    exact .placed (.refl w) alike' (.refl c _) rl (failed t inner)
  by_cases inner' : t'.isError = true
  · simp only [inner, inner', Bool.false_eq_true, if_true, if_false]
    exact .placed (.refl w) alike' (.refl c _) rr (failed t' inner')
  simp only [inner, inner', Routine.steps]
  exact (next t t' l r e' alike' rl rr (plain operand) plain' same (Bool.eq_false_iff.mpr inner)
    (Bool.eq_false_iff.mpr inner')).weaken fun _ given => ⟨given, fun _ => sane⟩

/-! ## Strict operators -/

/-- An operator on strings of the same texts. -/
theorem stringOp [Nonempty ι] (op : BinaryOp) {age age' : Nat}
    {text text' : ByteArray} (rl : w.Related (.string age text) l)
    (rr : w.Related (.string age' text') r) :
    Together LostValue (Placed w s c Tag.IsPlain)
      fun i => .ofExcept (Engine.stringOp op (l i) (r i) (e i)) := by
  have bytes := alike.stringBytes (World.Refers.offset rl)
  have bytes' := alike.stringBytes (World.Refers.offset rr)
  cases op
  case plus =>
    simp only [Engine.stringOp, Engine.concat, Action.steps, bytes, bytes']
    have small := alike.string_small (World.Refers.offset rl)
    have small' := alike.string_small (World.Refers.offset rr)
    refine (alike.newString _ fun _ => ?_).weaken
      fun _ => Tag.OrError.isPlain (Tag.isPlain_string _ _)
    rw [ByteArray.size_append]
    omega
  case equal =>
    simp only [Engine.stringOp, Action.steps, bytes, bytes']
    exact alike.placedBool _
  case notEqual =>
    simp only [Engine.stringOp, Action.steps, bytes, bytes']
    exact alike.placedBool _
  all_goals
    simp only [Engine.stringOp]
    exact alike.failPlain .badStringOperator

/-- An operator on plain values. -/
theorem binaryOnValues [Nonempty ι] (op : BinaryOp) {t' : Tag}
    (rl : w.Related t l) (rr : w.Related t' r) :
    Together LostValue (Placed w s c Tag.IsPlain)
      fun i => .ofExcept (Engine.binaryOnValues op (l i) (r i) (e i)) := by
  simp only [Engine.binaryOnValues, Action.steps, rl.kind, rr.kind]
  by_cases strings : t.kind = .string ∧ t'.kind = .string
  · obtain ⟨age, text, rfl⟩ := rl.eq_string strings.1
    obtain ⟨age', text', rfl⟩ := rr.eq_string strings.2
    simp only [strings, and_self, if_true]
    exact alike.stringOp op rl rr
  by_cases numbers : t.kind = .number ∧ t'.kind = .number
  · obtain ⟨x, -, eq⟩ := rl.eq_of_not_entity (by rw [numbers.1]; rfl)
    obtain ⟨y, -, eq'⟩ := rr.eq_of_not_entity (by rw [numbers.2]; rfl)
    simp only [numbers, reduceCtorEq, and_self, if_true, if_false, eq, eq']
    cases result : Number.binary op x.toFloat y.toFloat with
    | some v => exact alike.placedNumber (Number.kind_binary result)
    | none => exact alike.failPlain .divisionByZero
  simp only [strings, numbers, if_false]
  -- references are compared in all engines with the same outcome
  have compared : ∀ f : Bool → Bool,
      ∃ b, ∀ i, Value.ofBool (f (decide (l i = r i))) = Value.ofBool b := by
    intro f
    rcases rl.eq_all_or_none rr alike.fits.matched with same | other
    · exact ⟨f true, fun i => by simp only [same i, decide_true]⟩
    · exact ⟨f false, fun i => by simp only [other i, decide_false]⟩
  by_cases equal : op = .equal ∧ t.kind = t'.kind
  · obtain ⟨b, eq⟩ := compared id
    simp only [id] at eq
    simp only [equal, and_self, if_true, eq]
    exact alike.placedBool b
  by_cases notEqual : op = .notEqual ∧ t.kind = t'.kind
  · obtain ⟨b, eq⟩ := compared not
    simp only [← decide_not] at eq
    simp only [notEqual, reduceCtorEq, false_and, and_self, if_true, if_false, eq]
    exact alike.placedBool b
  simp only [equal, notEqual, if_false]
  exact alike.failPlain .typeMismatch

theorem applyBinary [Nonempty ι] (op : BinaryOp)
    (related : w.Related tag left) (related' : w.Related tag' right) (operand : tag.IsOperand) :
    Together LostValue (Placed w s c (tag.Strictly tag' Tag.IsPlain))
      fun i => .ofExcept (Engine.applyBinary op (left i) (right i) (e i)) :=
  alike.withOperands related related' operand (fun _ => Tag.isPlain_of_isError) Tag.isPlain_zero
    fun _ _ _ _ _ alike' rl rr _ _ _ _ _ => alike'.binaryOnValues op rl rr

/-- An operator on a plain value. -/
theorem unaryOnValue (op : UnaryOp) (rv : w.Related t v) :
    Together LostValue (Placed w s c Tag.IsPlain)
      fun i => .ofExcept (Engine.unaryOnValue op (v i) (e i)) := by
  simp only [Engine.unaryOnValue, Action.steps, rv.kind]
  by_cases typeOf : op = .typeOf
  · simp only [typeOf, if_true]
    refine (alike.newString _ fun _ => ?_).weaken
      fun _ => Tag.OrError.isPlain (Tag.isPlain_string _ _)
    cases t.kind with
    | reserved slot => exact (by decide : (Bytes.ofString "??").size + 8 < 2 ^ 32)
    | _ => decide
  by_cases truth : op = .not ∧ t.kind = .boolean
  · obtain ⟨x, -, eq⟩ := rv.eq_of_not_entity (by rw [truth.2]; rfl)
    simp only [truth, and_self, if_true, if_false, eq, reduceCtorEq]
    exact alike.placedBool _
  by_cases number : t.kind = .number
  · obtain ⟨x, -, eq⟩ := rv.eq_of_not_entity (by rw [number]; rfl)
    simp only [typeOf, number, and_false, if_true, if_false, eq, reduceCtorEq]
    exact alike.placedNumber (Number.kind_unary op _)
  simp only [typeOf, truth, number, if_false]
  exact alike.failPlain .typeMismatch

theorem applyUnary (op : UnaryOp) (related : w.Related tag v) : Together LostValue
      (Placed w s c fun t => t.IsPlain ∧ (t.isError = false → tag.isError = false))
      fun i => .ofExcept (Engine.applyUnary op (v i) (e i)) :=
  (alike.withOperands (World.related_undefined w) related Tag.isPlain_undefined.isOperand
    (fun _ => Tag.isPlain_of_isError) Tag.isPlain_zero
    fun _ _ _ _ _ alike' _ rr _ _ _ _ _ => alike'.unaryOnValue op rr).weaken
    fun _ given => ⟨given.1, fun sane => (given.2 sane).2⟩

/-! ## Properties -/

omit alike in
theorem isOperand_of_isError (tag : Tag) (error : tag.isError = true) : tag.IsOperand :=
  (Tag.isPlain_of_isError error).isOperand

/-- The property of a plain value with the name a span stands for. -/
theorem dotOnValues [Nonempty ι] {t' : Tag} (rl : w.Related t l)
    (rr : w.Related t' r) (named : t'.Names s.ground.text.size) :
    Together LostValue (Placed w s c Tag.IsOperand)
      fun i => .ofExcept (Engine.dotOnValues (l i) (r i) (e i)) := by
  simp only [Engine.dotOnValues, Action.steps, rl.kind, rr.kind]
  by_cases strings : t.kind = .string ∧ t'.kind = .string
  · simp only [strings, and_self, if_true]
    exact alike.failAll .badStringOperator isOperand_of_isError
  by_cases span : t'.kind ≠ .span
  · simp only [strings, span, ne_eq, not_false_eq_true, if_true, if_false]
    exact alike.failAll .nameExpected isOperand_of_isError
  obtain ⟨x, rfl, inside⟩ := named.resolve_left fun operand => span operand
  have text : ∀ i, spanText (r i) (e i) = .ok (_, e i) := fun i => by
    rw [rr.2 i]
    exact alike.textAt inside i
  simp only [strings, span, if_false, text, Action.steps]
  generalize s.ground.text.extract _ _ = name
  by_cases length : t.kind = .string ∧ name = Bytes.ofString "length"
  · obtain ⟨age, text, rfl⟩ := rl.eq_string length.1
    simp only [length, and_self, if_true, Action.steps,
      alike.stringLength (World.Refers.offset rl)]
    exact (alike.placedNumber (.inl (Value.kind_ofFloat _))).weaken fun _ => Tag.IsPlain.isOperand
  by_cases object : t.kind ≠ .object
  · simp only [length, object, ne_eq, not_false_eq_true, if_true, if_false]
    exact alike.failAll .lookupInNonObject isOperand_of_isError
  obtain ⟨ages, rfl⟩ := rl.eq_object (not_not.mp object)
  obtain ⟨found, run, link⟩ := alike.findProperty name (World.Refers.offset rl)
  simp only [length, object, if_false, run, Action.steps]
  rcases alike.property_cases link with none | ⟨some, names, related⟩
  · simp only [none, if_true]
    exact .placed (.refl w) alike (.refl c _) (World.related_undefined w)
      Tag.isPlain_undefined.isOperand
  · simp only [some, if_false]
    exact .placed (.refl w) alike (.refl c _) related nofun

theorem applyDot [Nonempty ι] (related : w.Related tag left)
    (related' : w.Related tag' right) (operand : tag.IsOperand)
    (named : tag'.Names s.ground.text.size) :
    Together LostValue (Placed w s c (tag.Strictly tag' Tag.IsOperand))
      fun i => .ofExcept (Engine.applyDot (left i) (right i) (e i)) := by
  refine alike.withOperands related related' operand isOperand_of_isError
    Tag.isPlain_zero.isOperand ?_
  intro t t' l r e' alike' rl rr _ plain' same _ _
  refine alike'.dotOnValues rl rr ?_
  by_cases property : tag'.kind = .property
  · obtain ⟨names, rfl⟩ := related'.eq_property property
    exact .inl (plain' nofun).isOperand
  · rw [(same property).1]
    exact named

/-! ## Assignments -/

/-- Properties take on the value of an operator, or keep their values if it
fails. -/
theorem update [Nonempty ι] (op : BinaryOp) {target : ι → Value}
    {names : Names} (property : w.Related (.property names) target) (related : w.Related tag v) :
    Together LostValue (Placed w s c (Tag.property names).OrError)
      fun i => .ofExcept (Engine.update op (target i) (v i) (e i)) := by
  obtain ⟨t, l, resolved, rl, plain, -⟩ := alike.resolve property
  simp only [Engine.update, Action.steps, resolved]
  refine (alike.applyBinary op rl related (plain nofun).isOperand).andThen ?_
    fun i r lost => .inr ⟨r, ?_, lost⟩
  · intro w' c' t' r e' le alike' unmoved rr given
    simp only [rr.isError]
    by_cases error : t'.isError = true
    · simp only [error, if_true]
      exact .placed le alike' unmoved rr (.inr error)
    · have still := unmoved.spot (Bool.eq_false_iff.mpr error)
      simp only [error, Routine.steps]
      exact ((alike'.assign (property.mono le) rr given.1).later le unmoved.mode still).weaken
        fun _ => .inl
  · simp only [lost.1, if_true]

theorem applyAssign [Nonempty ι] (op : Option BinaryOp)
    (related : w.Related tag left) (related' : w.Related tag' right) (operand : tag.IsOperand)
    (operand' : tag'.IsOperand) :
    Together LostValue (Placed w s c Tag.IsOperand)
      fun i => .ofExcept (Engine.applyAssign op (left i) (right i) (e i)) := by
  refine (alike.withOperands related related' operand isOperand_of_isError
    Tag.isPlain_zero.isOperand ?_).weaken fun _ => And.left
  intro t t' l r e' alike' rl rr _ plain' _ _ _
  simp only [Action.steps, related.kind]
  by_cases property : tag.kind ≠ .property
  · simp only [property, ne_eq, not_false_eq_true, if_true]
    exact alike'.failAll .badTarget isOperand_of_isError
  · obtain ⟨names, rfl⟩ := related.eq_property (not_not.mp property)
    simp only [property, if_false]
    cases op with
    | none => exact (alike'.assign related rr (plain' operand')).weaken fun _ same => same ▸ nofun
    | some op =>
      refine (alike'.update op related rr).weaken fun t given => ?_
      rcases given with rfl | error
      · nofun
      · exact isOperand_of_isError t error

/-- A step of a property; the value is the old one. -/
theorem applyStep [Nonempty ι] (op : BinaryOp) (related : w.Related tag v)
    (operand : tag.IsOperand) :
    Together LostValue (Placed w s c Tag.IsPlain)
      fun i => .ofExcept (Engine.applyStep op (v i) (e i)) := by
  refine (alike.withOperands related (World.related_other w (x := .zero) (by decide)) operand
    (fun _ => Tag.isPlain_of_isError) Tag.isPlain_zero ?_).weaken fun _ => And.left
  intro t t' l r e' alike' rl _ plain _ _ _ _
  simp only [Action.steps, related.kind]
  by_cases property : tag.kind ≠ .property
  · simp only [property, ne_eq, not_false_eq_true, if_true]
    exact alike'.failPlain .badTarget
  · obtain ⟨names, rfl⟩ := related.eq_property (not_not.mp property)
    simp only [property, if_false]
    have one : w.Related (.other (.ofFloat 1)) fun _ => .ofFloat 1 :=
      World.related_other w (by rw [Value.isEntity, Value.kind_ofFloat]; rfl)
    refine (alike'.update op related one).andThen ?_ fun i r lost => .inr ⟨_, rfl, ?_, lost.2⟩
    · intro w' c' t' r e'' le alike'' unmoved rr given
      simp only [rr.isError]
      by_cases error : t'.isError = true
      · simp only [error, if_true]
        exact .placed le alike'' unmoved rr (Tag.isPlain_of_isError error)
      · have still := unmoved.spot (Bool.eq_false_iff.mpr error)
        simp only [error, Bool.false_eq_true, if_false]
        exact .placed le alike'' ⟨unmoved.mode, fun _ => still⟩ (rl.mono le) plain
    · simp only [lost.1, if_true]

end Alike

end Lockstep

end ArenaScript
