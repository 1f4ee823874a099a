import ArenaScript.Engine.Operators
import ArenaScript.Evaluate.Statement
import ArenaScript.Host.Requests
import ArenaScript.Proofs.Arena.Extension
import ArenaScript.Proofs.Collector.Collection
import ArenaScript.Proofs.Engine.Creation
import ArenaScript.Proofs.Engine.Failures

/-!
# Updates that fail

An assignment, a step, a declaration and the requests of a host make entities
before they change one that is there.  Each of them may fail half-way, for want
of memory or because the operands do not fit.  Then no byte of an entity that was
there has changed; an entity that was made on the way stands above the others,
and nothing refers to it.

Main definitions:

- `Engine.Reaches`: the entities that can be reached, told by the reads of the
  arena.
- `Engine.Extends`: entities were added that no register refers to.
- `Update`, `Update.run`: the updates, and whether they fail.

Main results:

- `Engine.Extends.reaches_iff`: what has been added cannot be reached.
- `Engine.Extends.of_update_error`: an update that fails adds at most that.
- `Engine.failing_update_changes_nothing`: so all else is as it was.
-/

namespace ArenaScript

variable {e e' : Engine} {α β : Type}

/-- What follows an action that has an answer has one, too. -/
theorem Engine.exists_of_bind {x : Action α} {f : α → Action β} {b : β}
    (run : (x >>= f) e = .ok (b, e')) : ∃ a e₁, x e = .ok (a, e₁) ∧ f a e₁ = .ok (b, e') := by
  obtain ⟨⟨a, e₁⟩, first, rest⟩ := exists_of_bind_eq_ok (x := x e) run
  exact ⟨a, e₁, first, rest⟩

/-- What follows a read of the arena goes on with the same engine. -/
theorem Engine.exists_of_read {f : Arena → Except Halt α} {k : α → Action β}
    {b : β} (run : (readArena f >>= k) e = .ok (b, e')) :
    ∃ a, f e.arena = .ok a ∧ k a e = .ok (b, e') := by
  obtain ⟨a, e₁, read, rest⟩ := exists_of_bind run
  rw [readArena] at read
  split at read <;> cases read
  exact ⟨a, ‹_›, rest⟩

@[inherit_doc Engine.exists_of_bind]
theorem Engine.exists_of_map {x : Action α} {f : α → β} {b : β}
    (run : (f <$> x) e = .ok (b, e')) : ∃ a, x e = .ok (a, e') ∧ f a = b := by
  obtain ⟨a, e₁, first, rest⟩ := exists_of_bind (f := fun a => pure (f a)) run
  cases rest
  exact ⟨a, first, rfl⟩

namespace Engine

/-! ## Reachable entities -/

/-- An entity can be reached: the registers or the scratch stack refer to it, or
an entity that can be reached does. -/
inductive Reaches (e : Engine) : UInt32 → Prop
  | root {words : List Value} {o : UInt32} (scratch : e.arena.scratch = .ok words)
      (mem : o ∈ e.rootOffsets words) : Reaches e o
  | link {o p header : UInt32} {links : List UInt32} (reached : Reaches e o)
      (load : e.arena.load32 o = .ok header) (read : e.arena.links o header = .ok links)
      (mem : p ∈ links) : Reaches e p

/-- Registers and entities refer to places where an entity starts. -/
theorem LaidOut.starts_of_reaches {e : Engine} (laid : e.LaidOut) {o : UInt32}
    (reached : e.Reaches o) : ∃ kind, e.arena.Starts kind o := by
  induction reached with
  | @root words o scratch mem =>
    simp only [rootOffsets, List.cons_append, List.mem_cons, List.mem_append, List.mem_flatMap]
      at mem
    rcases mem with rfl | mem | ⟨v, mem, link⟩
    · exact ⟨0, laid.scope⟩
    · simp only [Entity.linkTo] at mem
      split at mem
      · simp at mem
      next nonzero =>
        rw [List.mem_singleton.mp mem]
        exact ⟨2, laid.pinned.resolve_left nonzero⟩
    · obtain ⟨words', scratch', typed⟩ := laid.scratch
      obtain rfl : words = words' := Except.ok.inj (scratch.symm.trans scratch')
      rcases mem with rfl | mem | mem
      · exact laid.result.1.starts link
      · exact (laid.roots v mem).starts link
      · exact (typed v mem).1.starts link
  | @link o p header links _ load read mem ih =>
    obtain ⟨kind, walk, inside, -⟩ := ih
    obtain ⟨header', load', -, kinds⟩ := laid.arena.headers o walk inside
    obtain rfl : header = header' := Except.ok.inj (load.symm.trans load')
    rw [Arena.links] at read
    rcases kinds with object | property | string
    · obtain ⟨first, parent, link, outer, head, scope, -⟩ :=
        laid.arena.objects o ⟨walk, inside, header, load, object⟩
      rw [Arena.firstProperty, load] at link
      obtain rfl : Arena.headerLink header = first := Except.ok.inj link
      rw [if_pos object, outer, ok_bind] at read
      obtain rfl := Except.ok.inj read
      rcases List.mem_cons.mp mem with rfl | mem
      · exact ⟨0, scope⟩
      · exact ⟨1, Arena.starts_of_linkOf head mem⟩
    · obtain ⟨next, key, value, link, name, held, tail, string, -, typed, -⟩ :=
        laid.arena.properties o ⟨walk, inside, header, load, property⟩
      rw [Arena.nextProperty, load] at link
      obtain rfl : Arena.headerLink header = next := Except.ok.inj link
      rw [if_neg (by rw [property]; decide), if_pos property, name, held, ok_bind,
        ok_bind] at read
      obtain rfl := Except.ok.inj read
      rcases List.mem_cons.mp mem with rfl | mem
      · exact ⟨2, string⟩
      · rcases List.mem_append.mp mem with mem | mem
        · exact typed.starts mem
        · exact ⟨1, Arena.starts_of_linkOf (tail.imp_right And.left) mem⟩
    · rw [if_neg (by rw [string]; decide), if_neg (by rw [string]; decide)] at read
      obtain rfl := Except.ok.inj read
      simp at mem

/-- Entities may have been added to the arena, and no register refers to them. -/
structure Extends (e e' : Engine) : Prop where
  arena : e.arena.Extends e'.arena
  scope_eq : e'.scope = e.scope
  pinned_eq : e'.pinned = e.pinned
  result_eq : e'.result = e.result
  roots_eq : e'.roots = e.roots

namespace Extends

variable {e e' e'' : Engine} {op : BinaryOp}

theorem refl (e : Engine) : e.Extends e := ⟨.refl _, rfl, rfl, rfl, rfl⟩

theorem trans (first : e.Extends e') (second : e'.Extends e'') : e.Extends e'' where
  arena := first.arena.trans second.arena
  scope_eq := second.scope_eq.trans first.scope_eq
  pinned_eq := second.pinned_eq.trans first.pinned_eq
  result_eq := second.result_eq.trans first.result_eq
  roots_eq := second.roots_eq.trans first.roots_eq

/-- What has been added cannot be reached, and all else is reached as before. -/
theorem reaches_iff (grown : e.Extends e') (laid : e.LaidOut) (packed : e.arena.Packed)
    (o : UInt32) :
    e'.Reaches o ↔ e.Reaches o := by
  have roots : ∀ words, e'.rootOffsets words = e.rootOffsets words := by
    intro words
    rw [rootOffsets, rootOffsets, grown.scope_eq, grown.pinned_eq, grown.result_eq, grown.roots_eq]
  have scratch := grown.arena.scratch_eq laid.arena
  constructor
  · intro reached
    induction reached with
    | root words mem => exact .root (scratch ▸ words) (roots _ ▸ mem)
    | link _ load read mem ih =>
      obtain ⟨kind, starts⟩ := laid.starts_of_reaches ih
      obtain ⟨header, load', -⟩ := laid.arena.headers _ starts.1 starts.2.1
      obtain ⟨same, links⟩ := grown.arena.links_eq laid.arena packed starts load'
      obtain rfl := Except.ok.inj (load.symm.trans same)
      exact .link ih load' (links ▸ read) mem
  · intro reached
    induction reached with
    | root words mem => exact .root (scratch.trans words) ((roots _).symm ▸ mem)
    | link before load read mem ih =>
      obtain ⟨kind, starts⟩ := laid.starts_of_reaches before
      obtain ⟨same, links⟩ := grown.arena.links_eq laid.arena packed starts load
      exact .link ih same (links.trans read) mem

/-! ## Actions that fail -/

theorem of_fail {f : Failure} {v : Value} (run : fail f e = .ok (v, e')) : e.Extends e' := by
  rw [fail_eq] at run
  cases run
  exact ⟨.refl _, rfl, rfl, rfl, rfl⟩

theorem of_noteUse {u : Unit} (run : noteUse e = .ok (u, e')) : e.Extends e' := by
  cases run
  exact ⟨.of_noteLow _, rfl, rfl, rfl, rfl⟩

/-- An entity that does not fit. -/
theorem of_adopt {kind : Kind} {v : Value} {new : Arena → Except Halt (Option (UInt32 × Arena))}
    (proper : kind ≠ .error) (run : adopt kind new e = .ok (v, e')) (error : v.isError = true) :
    e.Extends e' := by
  rw [adopt] at run
  split at run
  · cases run
  · exact of_fail run
  · cases run
    rw [Value.isError, Value.kind_ref] at error
    exact absurd (eq_of_beq error) proper

/-- A new string, whether it fits or not. -/
theorem of_newString {text : ByteArray} {v : Value} (laid : e.arena.LaidOut)
    (packed : e.arena.Packed) (run : newString text e = .ok (v, e')) : e.Extends e' := by
  rw [newString_eq, adopt] at run
  split at run
  · cases run
  · exact of_fail run
  · rename_i o a made
    cases run
    exact ⟨.of_newString? laid packed made, rfl, rfl, rfl, rfl⟩

/-- An operator on two strings. -/
theorem of_stringOp {l r v : Value} (run : stringOp op l r e = .ok (v, e'))
    (error : v.isError = true) : e.Extends e' := by
  unfold stringOp at run
  split at run
  · obtain ⟨first, -, run⟩ := exists_of_read run
    obtain ⟨second, -, run⟩ := exists_of_read run
    exact of_adopt (by decide) (newString_eq _ ▸ run) error
  iterate 2
    · obtain ⟨first, -, run⟩ := exists_of_read run
      obtain ⟨second, -, run⟩ := exists_of_read run
      cases run
      exact .refl _
  · exact of_fail run

/-- An operator on two plain values. -/
theorem of_binaryOnValues {l r v : Value}
    (run : binaryOnValues op l r e = .ok (v, e')) (error : v.isError = true) : e.Extends e' := by
  unfold binaryOnValues at run
  split at run
  · exact of_stringOp run error
  split at run
  · cases result : Number.binary op l.toFloat r.toFloat with
    | some number =>
      rw [result] at run
      cases run
      exact .refl _
    | none =>
      rw [result] at run
      exact of_fail run
  split at run
  · cases run
    exact .refl _
  split at run
  · cases run
    exact .refl _
  · exact of_fail run

/-- An operator on operands: it ends early, or goes on with plain values. -/
theorem of_withOperands {left right v : Value} {k : Value → Value → Action Value}
    (rest : ∀ l r e₁, k l r e₁ = .ok (v, e') → l.isError = false → e₁.Extends e')
    (run : withOperands left right k e = .ok (v, e')) : e.Extends e' := by
  unfold withOperands at run
  split at run
  · cases run
    exact .refl _
  split at run
  · cases run
    exact .refl _
  obtain ⟨dry, e₁, read, run⟩ := exists_of_bind run
  cases read
  split at run
  · cases run
    exact .refl _
  obtain ⟨l, -, run⟩ := exists_of_read run
  obtain ⟨r, -, run⟩ := exists_of_read run
  obtain ⟨u, e₁, noted, run⟩ := exists_of_bind run
  refine (of_noteUse noted).trans ?_
  split at run
  · cases run
    exact .refl _
  next sane =>
    split at run
    · cases run
      exact .refl _
    · exact rest l r e₁ run (Bool.eq_false_iff.mpr sane)

theorem of_applyBinary {left right v : Value}
    (run : applyBinary op left right e = .ok (v, e')) (error : v.isError = true) : e.Extends e' :=
  of_withOperands (fun _ _ _ run _ => of_binaryOnValues run error) run

/-- An assignment to a property does not end in an error. -/
theorem of_assign {target value v : Value} (property : target.kind = .property)
    (run : Engine.assign target value e = .ok (v, e')) : v.isError = false := by
  obtain ⟨u, e₁, changed, run⟩ := exists_of_bind run
  cases run
  rw [Value.isError, property]
  rfl

theorem of_update {target value v : Value} (property : target.kind = .property)
    (run : update op target value e = .ok (v, e')) (error : v.isError = true) : e.Extends e' := by
  obtain ⟨old, -, run⟩ := exists_of_read run
  obtain ⟨result, e₁, applied, run⟩ := exists_of_bind run
  split at run
  next failed =>
    cases run
    exact of_applyBinary applied failed
  · rw [of_assign property run] at error
    cases error

end Extends

end Engine

/-! ## Updates -/

/-- What changes an entity or makes one, with operands that are evaluated. -/
inductive Update where
  /-- An assignment, plain or combined with an operator. -/
  | assign (op : Option BinaryOp) (target value : Value)
  /-- Adds one to a property, or takes one away. -/
  | step (op : BinaryOp) (target : Value)
  /-- Declares a name in the active scope. -/
  | declare (name : ByteArray) (value : Value)
  /-- Adds a property to an object, with a key that is there. -/
  | addProperty (object key value : Value)
  /-- A host sets a property of an object. -/
  | set (object : Value) (key : ByteArray) (value : Value)
  /-- A host makes a string. -/
  | makeString (text : ByteArray)
  /-- A host makes an object. -/
  | makeObject

/-- Does an update and tells whether it ends in an error. -/
def Update.run : Update → Action Bool
  | assign op target value => Value.isError <$> Engine.applyAssign op target value
  | step op target => Value.isError <$> Engine.applyStep op target
  | declare name value => Value.isError <$> Routine.declare name value
  | addProperty object key value => Value.isError <$> Engine.newProperty object key value
  | set object key value => Option.isSome <$> Engine.setProperty object key value
  | makeString text => Value.isError <$> Engine.newString text
  | makeObject => Value.isError <$> Engine.newObject 0

namespace Engine

variable {e e' : Engine}

/-- An assignment that ends in an error. -/
theorem Extends.of_applyAssign {op : Option BinaryOp} {left right v : Value}
    (run : applyAssign op left right e = .ok (v, e')) (error : v.isError = true) :
    e.Extends e' := by
  refine .of_withOperands (fun l r e₁ run _ => ?_) run
  split at run
  · exact .of_fail run
  next property =>
    have property := Decidable.not_not.mp property
    cases op with
    | none =>
      rw [Extends.of_assign property run] at error
      cases error
    | some op => exact .of_update property run error

/-- A step that ends in an error. -/
theorem Extends.of_applyStep {op : BinaryOp} {operand v : Value}
    (run : applyStep op operand e = .ok (v, e')) (error : v.isError = true) : e.Extends e' := by
  refine .of_withOperands (fun l r e₁ run sane => ?_) run
  split at run
  · exact .of_fail run
  next property =>
    obtain ⟨result, e₂, updated, run⟩ := exists_of_bind run
    cases run
    split at error
    next failed => exact .of_update (Decidable.not_not.mp property) updated failed
    · rw [sane] at error
      cases error

/-- A declaration that ends in an error: the name may have been made. -/
theorem Extends.of_declare {name : ByteArray} {value v : Value} (laid : e.arena.LaidOut)
    (packed : e.arena.Packed) (run : Routine.declare name value e = .ok (v, e'))
    (error : v.isError = true) : e.Extends e' := by
  obtain ⟨here, e₁, got, run⟩ := exists_of_bind run
  cases got
  obtain ⟨found, -, run⟩ := exists_of_read run
  split at run
  · exact .of_fail run
  · obtain ⟨plain, -, run⟩ := exists_of_read run
    obtain ⟨key, e₁, made, run⟩ := exists_of_bind run
    refine (Extends.of_newString laid packed made).trans ?_
    split at run
    · cases run
      exact .refl _
    · exact .of_adopt (by decide) (newProperty_eq .. ▸ run) error

/-- A property that a host could not set: the key may have been made. -/
theorem Extends.of_setProperty {object : Value} {key : ByteArray} {value : Value}
    {r : Option SetError}
    (laid : e.arena.LaidOut) (packed : e.arena.Packed)
    (run : setProperty object key value e = .ok (r, e')) (error : r.isSome = true) :
    e.Extends e' := by
  unfold setProperty at run
  split at run
  · cases run
    exact .refl _
  · obtain ⟨name, e₁, made, run⟩ := exists_of_bind run
    refine (Extends.of_newString laid packed made).trans ?_
    split at run
    · cases run
      exact .refl _
    · obtain ⟨property, e₂, placed, run⟩ := exists_of_bind run
      cases run
      split at error
      next failed => exact .of_adopt (by decide) (newProperty_eq .. ▸ placed) failed
      · cases error

/-- An update that ends in an error adds at most entities that nothing refers
to. -/
theorem Extends.of_update_error (laid : e.arena.LaidOut) (packed : e.arena.Packed) {update : Update}
    (run : update.run e = .ok (true, e')) : e.Extends e' := by
  cases update with
  | assign op target value =>
    obtain ⟨v, run, error⟩ := exists_of_map run
    exact .of_applyAssign run error
  | step op target =>
    obtain ⟨v, run, error⟩ := exists_of_map run
    exact .of_applyStep run error
  | declare name value =>
    obtain ⟨v, run, error⟩ := exists_of_map run
    exact .of_declare laid packed run error
  | addProperty object key value =>
    obtain ⟨v, run, error⟩ := exists_of_map run
    exact .of_adopt (by decide) (newProperty_eq .. ▸ run) error
  | set object key value =>
    obtain ⟨r, run, error⟩ := exists_of_map run
    exact .of_setProperty laid packed run error
  | makeString text =>
    obtain ⟨v, run, error⟩ := exists_of_map run
    exact .of_adopt (by decide) (newString_eq _ ▸ run) error
  | makeObject =>
    obtain ⟨v, run, error⟩ := exists_of_map run
    exact .of_adopt (by decide) (newObject_eq _ ▸ run) error

/-- An update that ends in an error changes no byte of an entity that was there:
objects keep their properties, properties their keys and values, and strings
their bytes.  Only entities that cannot be reached may have been added above. -/
theorem failing_update_changes_nothing (laid : e.LaidOut) (packed : e.arena.Packed)
    (update : Update) (run : update.run e = .ok (true, e')) :
    (∀ k, k < e.arena.used.toNat → e'.arena.bytes.get! k = e.arena.bytes.get! k)
      ∧ (∀ o, e.arena.StartsObject o → e'.arena.properties o = e.arena.properties o
        ∧ e'.arena.parent o = e.arena.parent o)
      ∧ (∀ o, e.arena.StartsProperty o → e'.arena.propertyKey o = e.arena.propertyKey o
        ∧ e'.arena.propertyValue o = e.arena.propertyValue o)
      ∧ (∀ o, e.arena.StartsString o → e'.arena.stringBytes o = e.arena.stringBytes o)
      ∧ e.arena.used ≤ e'.arena.used
      ∧ ∀ o, (e'.Reaches o ↔ e.Reaches o) ∧ (e'.Reaches o → o < e.arena.used) := by
  have grown := Extends.of_update_error laid.arena packed run
  refine ⟨grown.arena.below.same, fun o starts => ?_, fun o starts => ?_, fun o starts => ?_,
    grown.arena.used_le, fun o => ?_⟩
  · exact ⟨grown.arena.properties_eq laid.arena packed starts,
      (grown.arena.object_eq packed starts).2⟩
  · exact (grown.arena.property_eq packed starts).2
  · exact grown.arena.string_eq packed starts
  · have same := grown.reaches_iff laid packed o
    refine ⟨same, fun reached => ?_⟩
    obtain ⟨kind, starts⟩ := laid.starts_of_reaches (same.mp reached)
    exact starts.2.1

/-- The key of a property is made, and then the property does not fit: the key is
left above the entities, and the object has no property. -/
theorem failing_update_leaves_a_key : ∃ e e',
    litter (initial 64) = .ok ((), e) ∧ e.arena.used = 24
      ∧ (Update.set (.ref .object 16) "a key of some length".toUTF8 .undefined).run e
        = .ok (true, e')
      ∧ e'.arena.used = 52 ∧ e'.arena.properties 16 = e.arena.properties 16
      ∧ ∀ o, e'.Reaches o → o < 24 := by
  obtain ⟨e, littered, -, size, sound⟩ := littered_sound
  have outcome : (((litter (initial 64)).bind fun r =>
      ((Update.set (.ref .object 16) "a key of some length".toUTF8 .undefined).run r.2).map
        fun r' => (r.2.arena.used, r'.1, r'.2.arena.used)).toOption) = some (24, true, 52) := by
    decide +kernel
  rw [littered] at outcome
  cases run : (Update.set (.ref .object 16) "a key of some length".toUTF8 .undefined).run e with
  | error h => simp only [run, Except.bind, Except.map, Except.toOption, reduceCtorEq] at outcome
  | ok r =>
    obtain ⟨failed, e'⟩ := r
    simp only [run, Except.bind, Except.map, Except.toOption, Option.some.injEq, Prod.mk.injEq]
      at outcome
    obtain ⟨used, rfl, used'⟩ := outcome
    obtain ⟨-, objects, -, -, -, reached⟩ := failing_update_changes_nothing sound.laidOut
      (sound.holds.packed sound.heap (by rw [size]; decide)) _ run
    have starts : e.arena.StartsObject 16 :=
      (sound.holds.startsObject_iff sound.heap).mpr ⟨0, 0, rfl⟩
    exact ⟨e, e', littered, used, run, used', (objects 16 starts).1,
      fun o reach => used ▸ (reached o).2 reach⟩

end Engine

end ArenaScript
