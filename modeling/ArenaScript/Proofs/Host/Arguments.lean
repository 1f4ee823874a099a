import ArenaScript.Proofs.Arena.Scratch
import ArenaScript.Proofs.Host.Balance
import ArenaScript.Proofs.Host.Watching
import ArenaScript.Proofs.Lockstep.Lone

/-!
# Arguments of natives

The arguments of a native are evaluated one after the other and pushed on the
scratch stack.  Once there are no more, they are turned around and the program of
the native runs; it reads them from the scratch stack.  Later arguments and the
program itself may run other code, natives included, and collections may move what
the arguments refer to.

Main definitions:

- `Engine.Argument`, `Engine.Arguments`: one argument, several arguments.
- `Engine.Calls`: a native is called with arguments.
- `Engine.Presents`: the arguments lie before a program, moved along with all else.

Main results:

- `Engine.Calls.unique`: a native is called once.
- `Engine.exists_arguments`: how the arguments come to their end.
- `Lockstep.Alike.presents`: what an engine holds after some arguments.
- `Engine.native_arguments_arrive`: arguments arrive whole and in order.
-/

namespace ArenaScript

/-! ## Routines one after the other -/

namespace Progress

variable {α β : Type} {p : Progress α} {f : α → Progress β} {a : α} {b : β} {q : Production}
  {e : Engine}

theorem ends_ofExcept_bind {x : Except Halt α} :
    ((ofExcept x).bind f).Ends b ↔ ∃ a, x = .ok a ∧ (f a).Ends b := by
  cases x with
  | error h => exact ⟨nofun, fun ⟨_, eq, _⟩ => nomatch eq⟩
  | ok a => exact ⟨fun ends => ⟨a, rfl, ends⟩, fun ⟨_, eq, ends⟩ => Except.ok.inj eq ▸ ends⟩

theorem Asks.bind (asks : p.Asks q e) : (p.bind f).Asks q e := by
  induction asks with
  | now q e k => exact .now q e _
  | later performs _ ih => exact .later performs ih

theorem Asks.after (ends : p.Ends a) (asks : (f a).Asks q e) : (p.bind f).Asks q e := by
  induction ends with
  | finished a => exact asks
  | waiting performs _ ih => exact .later performs (ih asks)

end Progress

/-- What a program waits for later on, it waits for. -/
theorem HostProgram.Comes.asks {offset : UInt32} {count : Nat} {p p' : HostProgram}
    {e e' e'' : Engine} {q : Production} (comes : p.Comes offset count e p' e')
    (asks : (Routine.ofProgram offset count p' e').Asks q e'') :
    (Routine.ofProgram offset count p e).Asks q e'' := by
  induction comes with
  | start => exact asks
  | answered _ first ends ih =>
    refine ih ?_
    rw [Routine.ofProgram_eq first]
    exact .after ends asks

/-! ## Lists of expressions -/

namespace Grammar

/-- The place behind a comma, if one comes next. -/
def Place.passComma (k : Place) (text : ByteArray) : Place :=
  if k.next text = .comma then k.pass text else k.advance text

/-- A number of expressions stands from a place on, up to the end of the text or a
parenthesis. -/
inductive Sequence (text : ByteArray) : Nat → Place → Prop
  | none {k : Place} (ends : text.size ≤ k.pos ∨ k.next text = .rightParen) : Sequence text 0 k
  | more {n : Nat} {k k₁ : Place} (inside : k.pos < text.size) (opens : k.next text ≠ .rightParen)
      (value : Derives text .expression (k.advance text) k₁)
      (rest : Sequence text n (k₁.passComma text)) : Sequence text (n + 1) k

/-- Only the position counts once the token is used. -/
theorem Sequence.congr {text : ByteArray} {n : Nat} {k k' : Place} (used : k.consumed = true)
    (used' : k'.consumed = true) (pos : k.pos = k'.pos) (sequence : Sequence text n k) :
    Sequence text n k' := by
  have same := Place.advance_congr used used' pos text
  cases sequence with
  | none ends => exact .none (by rwa [← pos, Place.next, ← same])
  | more inside opens value rest =>
    exact .more (pos ▸ inside) (by rwa [Place.next, ← same]) (same ▸ value) rest

end Grammar

/-! ## One argument after the other -/

namespace Routine

open Engine

/-- Passes over the comma after the argument of a native. -/
def passComma : Action Unit := do
  if (← token) = .comma then use

/-- What is left to do when the program of a native has ended: its arguments are dropped,
and the caller goes on with the value. -/
def closeNative (count : UInt32) (mode : Mode) (v : Value) : Action Value := do
  noteUse
  dropArguments count
  leaveCall mode v

end Routine

namespace Engine

/-- There are no more arguments. -/
def NoArgument (e e₀ : Engine) : Prop :=
  e.cursor.length ≤ e.cursor.pos ∧ e₀ = e ∨
    e.cursor.pos < e.cursor.length ∧ token e = .ok (.rightParen, e₀)

/-- There is an argument: an expression is evaluated, which starts on an engine, and
its value is resolved. -/
def ArgumentFrom (e e₀ : Engine) (v : Value) (e₁ : Engine) : Prop :=
  e.cursor.pos < e.cursor.length ∧ (∃ t, token e = .ok (t, e₀) ∧ t ≠ .rightParen)
    ∧ ∃ x e', Production.expression.Performs e₀ (x, e') ∧ resolve x e' = .ok (v, e₁)

/-- The next argument has a value. -/
def Argument (e : Engine) (v : Value) (e₁ : Engine) : Prop := ∃ e₀, e.ArgumentFrom e₀ v e₁

/-- Arguments have been evaluated and pushed one after the other.  Each one comes with
the engine on which it has got its value. -/
inductive Arguments : Engine → List (Value × Engine) → Engine → Prop
  | none (e : Engine) : Arguments e [] e
  | more {e e₁ e₂ e₃ e' : Engine} {v : Value} {args : List (Value × Engine)}
      (argument : e.Argument v e₁) (sane : v.isError = false)
      (pushed : Routine.pushArgument v e₁ = .ok (true, e₂))
      (passed : Routine.passComma e₂ = .ok ((), e₃)) (rest : Arguments e₃ args e') :
      Arguments e ((v, e₁) :: args) e'

/-- A native is called with arguments: its program and the engine it starts on. -/
def Calls (e : Engine) (index : Nat) (args : List (Value × Engine)) (p : HostProgram)
    (e₁ : Engine) : Prop :=
  ∃ e', e.Arguments args e' ∧ e'.CallsNative index (UInt32.ofNat args.length) p e₁

/-- The next argument fails, or there is no room for it. -/
def Refuses (e : Engine) : Prop :=
  ∃ v e₁, e.Argument v e₁ ∧ (v.isError = true ∨ Routine.pushArgument v e₁ = .ok (false, e₁))

variable {e e' e'' e₀ e₁ e₂ : Engine} {v v' : Value} {args args' : List (Value × Engine)}
  {index : Nat} {count : UInt32} {p p' : HostProgram} {o : Value × Engine}

theorem Argument.unique (first : e.Argument v e₁) (second : e.Argument v' e₂) :
    v = v' ∧ e₁ = e₂ := by
  obtain ⟨_, -, ⟨t, token, -⟩, x, e', performs, resolved⟩ := first
  obtain ⟨_, -, ⟨t', token', -⟩, x', e'', performs', resolved'⟩ := second
  cases token.symm.trans token'
  cases performs.unique performs'
  cases resolved.symm.trans resolved'
  exact ⟨rfl, rfl⟩

theorem CallsNative.noArgument (calls : e.CallsNative index count p e₁) : ∃ e₀, e.NoArgument e₀ := by
  obtain ⟨e₀, native, ends, -⟩ := calls
  exact ⟨e₀, ends⟩

theorem NoArgument.not_argument (ends : e.NoArgument e₀) : ¬ e.Argument v e₁ := by
  rintro ⟨_, inside, ⟨t, token, other⟩, -⟩
  rcases ends with ⟨isOver, -⟩ | ⟨-, token'⟩
  · omega
  · cases token.symm.trans token'
    exact other rfl

/-- Of two ways to evaluate some arguments one goes on with the other. -/
theorem Arguments.extends (first : e.Arguments args e') (second : e.Arguments args' e'') :
    (∃ rest, args' = args ++ rest ∧ e'.Arguments rest e'') ∨
      ∃ rest, args = args' ++ rest ∧ e''.Arguments rest e' := by
  induction first generalizing args' with
  | none e => exact .inl ⟨args', rfl, second⟩
  | more argument sane pushed passed rest ih =>
    cases second with
    | none => exact .inr ⟨_, rfl, .more argument sane pushed passed rest⟩
    | more argument' sane' pushed' passed' rest' =>
      obtain ⟨rfl, rfl⟩ := argument.unique argument'
      cases pushed.symm.trans pushed'
      cases passed.symm.trans passed'
      rcases ih rest' with ⟨more, rfl, goes⟩ | ⟨more, rfl, goes⟩
      · exact .inl ⟨more, rfl, goes⟩
      · exact .inr ⟨more, rfl, goes⟩

/-- An argument among others: those before it, its value, and those after it. -/
theorem Arguments.split {j : Nat} (arguments : e.Arguments args e')
    (found : args[j]? = some (v, e₁)) :
    ∃ e₀ e₂ e₃, e.Arguments (args.take j) e₀ ∧ e₀.Argument v e₁
      ∧ Routine.pushArgument v e₁ = .ok (true, e₂) ∧ Routine.passComma e₂ = .ok ((), e₃)
      ∧ e.Arguments (args.take (j + 1)) e₃ ∧ e₃.Arguments (args.drop (j + 1)) e' := by
  induction arguments generalizing j with
  | none e => simp at found
  | @more e _ e₂ e₃ _ _ args argument sane pushed passed rest ih =>
    cases j with
    | zero =>
      cases found
      exact ⟨e, e₂, e₃, .none e, argument, pushed, passed,
        .more argument sane pushed passed (.none e₃), rest⟩
    | succ j =>
      obtain ⟨f₀, f₂, f₃, before, here, pushed', passed', upto, after⟩ := ih found
      exact ⟨f₀, f₂, f₃, .more argument sane pushed passed before, here, pushed', passed',
        .more argument sane pushed passed upto, after⟩

theorem NoArgument.nil_of_arguments (ends : e.NoArgument e₀) (arguments : e.Arguments args e') :
    args = [] ∧ e' = e := by
  cases arguments with
  | none => exact ⟨rfl, rfl⟩
  | more argument => exact absurd argument ends.not_argument

/-- A native is called once. -/
theorem Calls.unique (first : e.Calls index args p e₁) (second : e.Calls index args' p' e₂) :
    args' = args ∧ p' = p ∧ e₂ = e₁ := by
  obtain ⟨e', arguments, calls⟩ := first
  obtain ⟨e'', arguments', calls'⟩ := second
  obtain ⟨x, ends⟩ := calls.noArgument
  obtain ⟨y, ends'⟩ := calls'.noArgument
  have same : args' = args ∧ e'' = e' := by
    rcases arguments.extends arguments' with ⟨more, rfl, goes⟩ | ⟨more, rfl, goes⟩
    · obtain ⟨rfl, rfl⟩ := ends.nil_of_arguments goes
      exact ⟨List.append_nil _, rfl⟩
    · obtain ⟨rfl, rfl⟩ := ends'.nil_of_arguments goes
      exact ⟨(List.append_nil _).symm, rfl⟩
  obtain ⟨rfl, rfl⟩ := same
  obtain ⟨u, native, before, turned, found, rfl⟩ := calls
  obtain ⟨u', native', before', turned', found', rfl⟩ := calls'
  have start : u = u' := by
    rcases before with ⟨isOver, rfl⟩ | ⟨more, token⟩ <;>
      rcases before' with ⟨isOver', rfl⟩ | ⟨more', token'⟩
    · rfl
    · omega
    · omega
    · cases token.symm.trans token'
      rfl
  subst start
  cases turned.symm.trans turned'
  cases found.symm.trans found'
  exact ⟨rfl, rfl, rfl⟩

/-- After an argument that is refused the native is not called. -/
theorem Refuses.not_calls (arguments : e.Arguments args e') (refuses : e'.Refuses) :
    ¬ e.Calls index args' p e₁ := by
  rintro ⟨e'', arguments', calls⟩
  obtain ⟨x, ends⟩ := calls.noArgument
  obtain ⟨v, e₂, argument, refused⟩ := refuses
  rcases arguments.extends arguments' with ⟨more, -, goes⟩ | ⟨more, -, goes⟩
  · cases goes with
    | none => exact ends.not_argument argument
    | more argument' sane pushed =>
      obtain ⟨rfl, rfl⟩ := argument.unique argument'
      rcases refused with error | full
      · rw [error] at sane
        cases sane
      · cases full.symm.trans pushed
  · obtain ⟨-, rfl⟩ := ends.nil_of_arguments goes
    exact ends.not_argument argument

end Engine

/-! ## The steps of a call -/

/-- One more is counted. -/
theorem add_ofNat_succ (count : UInt32) (n : Nat) :
    count + 1 + UInt32.ofNat n = count + UInt32.ofNat (n + 1) := by
  rw [Nat.add_comm n, UInt32.ofNat_add, UInt32.add_assoc]
  rfl

namespace Routine

open Engine

variable {e e₀ e₁ e₂ : Engine} {v : Value} {index : Nat} {count : UInt32}

/-- Without more arguments the native runs. -/
theorem pushArguments_of_none (ends : e.NoArgument e₀) :
    pushArguments index count e
      = (runNative index count e₀).bind fun r => .finished (.value r.1, r.2) := by
  rcases ends with ⟨isOver, rfl⟩ | ⟨more, token⟩
  · simp only [pushArguments, Routine.steps, isOver, if_true]
  · simp only [pushArguments, Routine.steps, Nat.not_le.mpr more, if_false, token, if_true]

/-- What is done with the value of an argument. -/
def placeArgument (index : Nat) (count : UInt32) (v : Value) : Routine Next := do
  if v.isError then
    dropArguments count
    give v
  else if !(← pushArgument v) then
    dropArguments count
    give (← fail .argumentsTooLarge)
  else
    passComma
    goOn (.pushArguments index (count + 1))

theorem passComma_bind {α : Type} (f : Unit × Engine → Progress α) (e : Engine) :
    (Progress.ofExcept (passComma e)).bind f = (Progress.ofExcept (token e)).bind fun r =>
      if r.1 = .comma then (Progress.ofExcept (use r.2)).bind f else f ((), r.2) := by
  simp only [passComma, Action.steps, Routine.steps]
  congr 1
  funext r
  split <;> rfl

/-- An argument is evaluated and resolved. -/
theorem pushArguments_of_more {t : Token} (more : e.cursor.pos < e.cursor.length)
    (token : token e = .ok (t, e₀)) (other : t ≠ .rightParen) :
    pushArguments index count e = .waiting .expression e₀ fun o =>
      (Progress.ofExcept (resolve o.1 o.2)).bind fun r => placeArgument index count r.1 r.2 := by
  simp only [pushArguments, Routine.steps, Nat.not_le.mpr more, if_false, token, other, call,
    Progress.bind, placeArgument, passComma_bind]

theorem placeArgument_of_room {e₃ : Engine} (sane : v.isError = false)
    (pushed : pushArgument v e₁ = .ok (true, e₂)) (passed : passComma e₂ = .ok ((), e₃)) :
    placeArgument index count v e₁ = .finished (.goOn (.pushArguments index (count + 1)), e₃) := by
  simp only [placeArgument, Routine.steps, sane, pushed, passed]

/-- How a native ends that runs on arguments: its program ends, and the arguments are
dropped. -/
theorem ends_of_runNative {o : Value × Engine} (ends : (runNative index count e₀).Ends o) :
    ∃ native e₁ e₂ e₃, changeArena (·.reverse count) e₀ = .ok ((), e₁)
      ∧ e₁.natives[index]? = some native
      ∧ (ofProgram e₁.arena.limit count.toNat (native.program count.toNat) e₁).Ends (o.1, e₂)
      ∧ noteUse e₂ = .ok ((), e₃) ∧ dropArguments count e₃ = .ok ((), o.2) := by
  simp only [runNative, Routine.steps] at ends
  obtain ⟨⟨⟨⟩, e₁⟩, turned, ends⟩ := Progress.ends_ofExcept_bind.mp ends
  simp only at ends
  cases found : e₁.natives[index]? with
  | none =>
    simp only [found] at ends
    cases ends
  | some native =>
    simp only [found, Routine.steps] at ends
    obtain ⟨⟨v, e₂⟩, program, ends⟩ := ends.of_bind
    obtain ⟨⟨⟨⟩, e₃⟩, noted, ends⟩ := Progress.ends_ofExcept_bind.mp ends
    obtain ⟨⟨⟨⟩, e₄⟩, dropped, ends⟩ := Progress.ends_ofExcept_bind.mp ends
    cases ends
    exact ⟨native, e₁, e₂, e₃, turned, found, program, noted, dropped⟩

end Routine

namespace Engine

variable {e e' e₀ e₁ e₂ : Engine} {v : Value} {args : List (Value × Engine)} {index : Nat}
  {count : UInt32} {o : Value × Engine}

/-- How a call ends once no argument is pushed any more: the native has run, or an
argument was refused. -/
def Settles (e : Engine) (index : Nat) (count : UInt32) (o : Value × Engine) : Prop :=
  (∃ p e₁ e₂ e₃, e.CallsNative index count p e₁
      ∧ (Routine.ofProgram e₁.arena.limit count.toNat p e₁).Ends (o.1, e₂)
      ∧ noteUse e₂ = .ok ((), e₃) ∧ Routine.dropArguments count e₃ = .ok ((), o.2)) ∨
    e.Refuses ∧ o.1.isError = true

/-- An argument has been placed: it was refused, or the call goes on with the next
one. -/
theorem settles_of_placeArgument {r : Next × Engine} (argument : e.Argument v e₁)
    (ends : (Routine.placeArgument index count v e₁).Ends r) :
    (∃ o, r = (.value o.1, o.2) ∧ e.Settles index count o) ∨
      ∃ e₃, r = (.goOn (.pushArguments index (count + 1)), e₃) ∧ e.Arguments [(v, e₁)] e₃ := by
  by_cases error : v.isError = true
  · simp only [Routine.placeArgument, Routine.steps, error] at ends
    obtain ⟨⟨⟨⟩, e₂⟩, dropped, ends⟩ := Progress.ends_ofExcept_bind.mp ends
    cases ends
    exact .inl ⟨(v, e₂), rfl, .inr ⟨⟨_, _, argument, .inl error⟩, error⟩⟩
  have sane : v.isError = false := Bool.eq_false_iff.mpr error
  simp only [Routine.placeArgument, Routine.steps, sane] at ends
  obtain ⟨⟨fits, e₂⟩, pushed, rest⟩ := Progress.ends_ofExcept_bind.mp ends
  cases fits with
  | false =>
    have same : e₂ = e₁ := by
      rw [Routine.pushArgument_eq] at pushed
      split at pushed
      · cases pushed
      · cases pushed
        rfl
      · cases pushed
    subst same
    simp only [Bool.not_false, if_true] at rest
    obtain ⟨⟨⟨⟩, e₃⟩, dropped, rest⟩ := Progress.ends_ofExcept_bind.mp rest
    obtain ⟨⟨x, e₄⟩, failed, rest⟩ := Progress.ends_ofExcept_bind.mp rest
    cases rest
    exact .inl ⟨(x, e₄), rfl, .inr ⟨⟨_, _, argument, .inr pushed⟩, isError_of_fail failed⟩⟩
  | true =>
    simp only [Bool.not_true, Routine.steps] at rest
    obtain ⟨⟨⟨⟩, e₃⟩, passed, rest⟩ := Progress.ends_ofExcept_bind.mp rest
    cases rest
    exact .inr ⟨e₃, rfl, .more argument sane pushed passed (.none _)⟩

/-- A step of the call: the native runs, or an argument is evaluated and placed. -/
theorem cases_of_pushArguments {r : Next × Engine}
    (ends : (Routine.pushArguments index count e).Ends r) :
    (∃ o, r = (.value o.1, o.2) ∧ e.Settles index count o) ∨
      ∃ v e₁ e₃, r = (.goOn (.pushArguments index (count + 1)), e₃)
        ∧ e.Arguments [(v, e₁)] e₃ := by
  have runs : ∀ {e₀}, e.NoArgument e₀ → ∃ o, r = (.value o.1, o.2) ∧ e.Settles index count o := by
    intro e₀ none
    rw [Routine.pushArguments_of_none none] at ends
    obtain ⟨⟨v, e'⟩, native, ends⟩ := ends.of_bind
    cases ends
    obtain ⟨native, e₁, e₂, e₃, turned, found, program⟩ := Routine.ends_of_runNative native
    exact ⟨(v, e'), rfl, .inl ⟨_, e₁, e₂, e₃, ⟨e₀, native, none, turned, found, rfl⟩, program⟩⟩
  by_cases isOver : e.cursor.length ≤ e.cursor.pos
  · exact .inl (runs (.inl ⟨isOver, rfl⟩))
  have more : e.cursor.pos < e.cursor.length := Nat.lt_of_not_le isOver
  cases read : token e with
  | error h =>
    simp only [Routine.pushArguments, Routine.steps, isOver, read] at ends
    cases ends
  | ok next =>
    obtain ⟨t, e₀⟩ := next
    by_cases paren : t = .rightParen
    · exact .inl (runs (.inr ⟨more, paren ▸ read⟩))
    rw [Routine.pushArguments_of_more more read paren] at ends
    cases ends with
    | @waiting _ _ _ o _ performs rest =>
      obtain ⟨⟨v, e₁⟩, resolved, rest⟩ := Progress.ends_ofExcept_bind.mp rest
      have argument : e.Argument v e₁ :=
        ⟨e₀, more, ⟨t, read, paren⟩, o.1, o.2, performs, resolved⟩
      rcases settles_of_placeArgument argument rest with settled | ⟨e₃, rfl, pushed⟩
      · exact .inl settled
      · exact .inr ⟨v, e₁, e₃, rfl, pushed⟩

/-- The arguments of a call that ends are evaluated and pushed up to the last one or
to one that is refused. -/
theorem exists_arguments {bound : Nat}
    (performs : (Production.pushArguments index count).perform bound e = .ok o) :
    ∃ args e', e.Arguments args e' ∧ e'.Settles index (count + UInt32.ofNat args.length) o := by
  induction bound generalizing count e with
  | zero => cases performs
  | succ bound ih =>
    obtain ⟨r, ends, value | ⟨q, e', goes, performs⟩⟩ := Production.ends_of_perform performs
    · obtain ⟨o', eq, settles⟩ | ⟨v, e₁, e₃, eq, -⟩ := cases_of_pushArguments ends
      · obtain ⟨same, same'⟩ := Prod.mk.inj (value.symm.trans eq)
        obtain rfl : o = o' := Prod.ext (Next.value.inj same) same'
        exact ⟨[], e, .none e, by simpa using settles⟩
      · cases value.symm.trans eq
    · obtain ⟨o', eq, settles⟩ | ⟨v, e₁, e₃, eq, pushed⟩ := cases_of_pushArguments ends
      · cases goes.symm.trans eq
      · cases goes.symm.trans eq
        obtain ⟨args, e', arguments, settles⟩ := ih performs
        cases pushed with
        | more argument sane pushed passed rest =>
          cases rest
          refine ⟨(v, e₁) :: args, e', .more argument sane pushed passed arguments, ?_⟩
          rwa [List.length_cons, ← add_ofNat_succ]

end Engine

namespace Production

variable {e e' e₀ e₁ : Engine} {v : Value} {args : List (Value × Engine)} {index : Nat}
  {count : UInt32}

/-- The expression of an argument is part of the call. -/
theorem within_of_argument (argument : e.ArgumentFrom e₀ v e₁) :
    (pushArguments index count).Within e .expression e₀ := by
  obtain ⟨more, ⟨t, read, other⟩, -⟩ := argument
  refine .asked .self ?_
  show (Routine.pushArguments index count e).Asks _ _
  rw [Routine.pushArguments_of_more more read other]
  exact .now _ _ _

/-- After an argument the call goes on. -/
theorem within_of_more {e₂ e₃ : Engine} (argument : e.Argument v e₁) (sane : v.isError = false)
    (pushed : Routine.pushArgument v e₁ = .ok (true, e₂))
    (passed : Routine.passComma e₂ = .ok ((), e₃)) :
    (pushArguments index count).Within e (.pushArguments index (count + 1)) e₃ := by
  obtain ⟨e₀, more, ⟨t, read, other⟩, x, e'', performs, resolved⟩ := argument
  refine .goesOn .self ?_
  show (Routine.pushArguments index count e).Ends _
  rw [Routine.pushArguments_of_more more read other]
  refine .waiting performs (Progress.ends_ofExcept_bind.mpr ⟨_, resolved, ?_⟩)
  rw [Routine.placeArgument_of_room sane pushed passed]
  exact .finished _

/-- After some arguments the call goes on. -/
theorem within_of_arguments (arguments : e.Arguments args e') :
    (pushArguments index count).Within e
      (.pushArguments index (count + UInt32.ofNat args.length)) e' := by
  induction arguments generalizing count with
  | none e =>
    rw [show count + UInt32.ofNat ([] : List (Value × Engine)).length = count from UInt32.add_zero _]
    exact .self
  | @more e e₁ e₂ e₃ e' v args argument sane pushed passed rest ih =>
    rw [List.length_cons, ← add_ofNat_succ]
    exact (within_of_more argument sane pushed passed).trans ih

/-- What the program of a native waits for is part of the call. -/
theorem asks_of_program {p : HostProgram} {q : Production} {e'' : Engine}
    (calls : e.CallsNative index count p e₁)
    (asks : (Routine.ofProgram e₁.arena.limit count.toNat p e₁).Asks q e'') :
    ((pushArguments index count).routine e).Asks q e'' := by
  obtain ⟨e₀, native, none, turned, found, rfl⟩ := calls
  show (Routine.pushArguments index count e).Asks _ _
  rw [Routine.pushArguments_of_none none]
  refine .bind ?_
  simp only [Routine.runNative, Routine.steps, turned, found]
  exact .bind asks

end Production

/-! ## Arguments that have arrived -/

namespace Engine

/-- What an engine holds, and a value with it, is there on another engine: the active
scope, the values held for later, and the words of the scratch stack behind the value.
Collections of some engines may have moved them. -/
def Delivers (collects : Engine → Prop) (e : Engine) (v : Value) (e' : Engine) (vs : List Value) :
    Prop :=
  ∃ r : e.Passage collects e', r.path e.scope e'.scope
    ∧ List.Forall₂ (Value.Moved r.path) e.roots e'.roots
    ∧ List.Forall₂ (Value.Moved r.path) (v :: r.words) vs

/-- The arguments of a native, which a call has evaluated from an engine on, lie on top
of the scratch stack, in their order. -/
structure Presents (e₀ : Engine) (index : Nat) (offset : UInt32) (args : List (Value × Engine))
    (e : Engine) (given base : List Value) : Prop where
  scratch : e.arena.scratch = .ok (given ++ base)
  length : given.length = args.length
  /-- The native reads them by their numbers. -/
  inside : ∀ (j : Nat) (v : Value), given[j]? = some v →
    argument offset args.length j e = .ok (v, e)
  /-- There are no others. -/
  outside : ∀ index : Int, index < 0 ∨ args.length ≤ index →
    argument offset args.length index e = .ok (.undefined, e)
  /-- Each one is the value it had when it was evaluated, and so are those before it,
  which lay on the scratch stack then.  Only collections of what came after it may have
  moved it. -/
  moved : ∀ (j : Nat) (v : Value) (e₁ : Engine), args[j]? = some (v, e₁) →
    ∃ e₃, e₀.Arguments (args.take (j + 1)) e₃ ∧
      e₁.Delivers ((Production.pushArguments index (UInt32.ofNat (j + 1))).Collects e₃) v e
        ((given.take (j + 1)).reverse ++ base)

end Engine

/-! ## What an engine holds after some arguments -/

namespace Lockstep

open Engine Grammar

/-- With more words on the scratch stack. -/
def Standing.pushing (s : Standing Unit) (tags : List Tag) : Standing Unit :=
  { s with
    scratch := tags.reverse ++ s.scratch
    limit := fun i => s.limit i - 8 * UInt32.ofNat tags.length }

theorem Standing.pushing_nil (s : Standing Unit) : s.pushing [] = s := by
  have none : ∀ l : UInt32, l - 8 * UInt32.ofNat 0 = l := fun l => UInt32.sub_zero l
  simp only [pushing, List.reverse_nil, List.nil_append, List.length_nil, none]

theorem Standing.pushing_append (s : Standing Unit) (tags tags' : List Tag) :
    (s.pushing tags).pushing tags' = s.pushing (tags ++ tags') := by
  have limit : ∀ l : UInt32, l - 8 * UInt32.ofNat tags.length - 8 * UInt32.ofNat tags'.length
      = l - 8 * UInt32.ofNat (tags.length + tags'.length) := by
    intro l
    rw [UInt32.ofNat_add]
    grind
  simp only [pushing, List.reverse_append, List.append_assoc, List.length_append, limit]

section

variable [rules : Rules Unit] {w : World Unit} {s : Standing Unit} {c : Current}
  {e e' e₁ : Engine} {v : Value} {args : List (Value × Engine)} {index : Nat} {count : UInt32}

/-- An argument has been evaluated. -/
theorem Alike.afterArgument (alike : Alike w s c fun _ => e)
    (calm : Calm Unit (.pushArguments index count) e) (argument : e.Argument v e₁) :
    ∃ (w₁ : World Unit) (c₁ : Current) (tag : Tag), Alike w₁ s c₁ (fun _ => e₁)
      ∧ w₁.Related tag (fun _ => v) ∧ tag.IsPlain
      ∧ c.spot.pos < s.ground.text.size
      ∧ (c.spot.place s.ground.text).next s.ground.text ≠ .rightParen
      ∧ (v.isError = false → Derives s.ground.text .expression
        ((c.spot.place s.ground.text).advance s.ground.text) (c₁.spot.place s.ground.text)) := by
  obtain ⟨e₀, inside, ⟨t, read, other⟩, x, e'', performs, resolved⟩ := argument
  have calm := calm.within (Production.within_of_argument
    ⟨inside, ⟨t, read, other⟩, x, e'', performs, resolved⟩)
  obtain ⟨e₀', token, alike₀⟩ := alike.token
  cases read.symm.trans (token ())
  obtain ⟨w₁, _, c₁, tag, x', e₁', eq, alike₁, rfl, -, related, operand, derives⟩ :=
    Ready.expression.outcome alike₀ calm performs
  obtain ⟨rfl, rfl⟩ := Prod.mk.inj (eq ())
  obtain ⟨tag', v', run, related', plain, same⟩ := alike₁.resolve related
  cases resolved.symm.trans (run ())
  refine ⟨w₁, c₁, tag', alike₁, related', plain operand, ?_, ?_, fun sane => ?_⟩
  · rw [← alike.length (), ← alike.pos ()]
    exact inside
  · rw [Spot.next_place]
    exact other
  · have whole : tag.isError = false := by
      rw [Bool.eq_false_iff]
      intro error
      have kind : tag.kind ≠ .property := (Tag.isPlain_of_isError error).1
      have error' : (v' ()).isError = true := by
        rw [related'.isError (), (same kind).1]
        exact error
      rw [sane] at error'
      cases error'
    have read := (derives whole).2
    rwa [Spot.place_advance] at read

/-- The comma after an argument is passed over. -/
theorem Alike.passComma (alike : Alike w s c fun _ => e)
    (passed : Routine.passComma e = .ok ((), e')) :
    ∃ c' : Current, Alike w s c' (fun _ => e')
      ∧ c'.spot.place s.ground.text = (c.spot.place s.ground.text).passComma s.ground.text := by
  obtain ⟨e₁, token, alike₁⟩ := alike.token
  have next := c.spot.next_place s.ground.text
  simp only [Routine.passComma, Action.runs, token ()] at passed
  by_cases comma : (c.spot.advance s.ground.text).token = .comma
  · obtain ⟨e₂, use, alike₂⟩ := alike₁.use
    simp only [comma, if_true, use (), Except.ok.injEq, Prod.mk.injEq, true_and] at passed
    subst passed
    refine ⟨_, alike₂, ?_⟩
    rw [Place.passComma, next, if_pos comma, Spot.pass_place]
  · simp only [comma, if_false] at passed
    cases passed
    refine ⟨_, alike₁, ?_⟩
    rw [Place.passComma, next, if_neg comma]
    exact Spot.place_advance _ _

/-- An argument has been pushed, and the comma after it passed over. -/
theorem Alike.placed (alike : Alike w s c fun _ => e₁) {tag : Tag}
    (related : w.Related tag fun _ => v) (plain : tag.IsPlain) {e₂ e₃ : Engine}
    (pushed : Routine.pushArgument v e₁ = .ok (true, e₂))
    (passed : Routine.passComma e₂ = .ok ((), e₃)) :
    ∃ (w' : World Unit) (c' : Current), Alike w' (s.pushing [tag]) c' (fun _ => e₃)
      ∧ c'.spot.place s.ground.text = (c.spot.place s.ground.text).passComma s.ground.text := by
  rcases alike.pushArgument inferInstance related plain with full | ⟨w₂, e₂', pushed', alike₂⟩
  · cases pushed.symm.trans (full ())
  cases pushed.symm.trans (pushed' ())
  obtain ⟨c₃, alike₃, place⟩ := alike₂.passComma passed
  exact ⟨w₂, c₃, alike₃, place⟩

/-- Arguments have been evaluated and pushed: their tags lie on the scratch stack. -/
theorem Alike.afterArguments (arguments : e.Arguments args e') (alike : Alike w s c fun _ => e)
    (calm : Calm Unit (.pushArguments index count) e) :
    ∃ (w' : World Unit) (c' : Current) (tags : List Tag), tags.length = args.length
      ∧ Alike w' (s.pushing tags) c' (fun _ => e')
      ∧ ∀ n, Sequence s.ground.text n (c'.spot.place s.ground.text) →
        Sequence s.ground.text (n + args.length) (c.spot.place s.ground.text) := by
  induction arguments generalizing w s c count with
  | none e => exact ⟨w, c, [], rfl, s.pushing_nil.symm ▸ alike, fun n sequence => sequence⟩
  | @more e e₁ e₂ e₃ e' v args argument sane pushed passed rest ih =>
    obtain ⟨w₁, c₁, tag, alike₁, related, plain, inside, opens, value⟩ :=
      alike.afterArgument calm argument
    obtain ⟨w₃, c₃, alike₃, place⟩ := alike₁.placed related plain pushed passed
    obtain ⟨w', c', tags, length, alike', sequence⟩ :=
      ih alike₃ (calm.within (Production.within_of_more argument sane pushed passed))
    refine ⟨w', c', tag :: tags, by simp [length], s.pushing_append [tag] tags ▸ alike', ?_⟩
    intro n more
    have rest : Sequence s.ground.text (n + args.length) (c₃.spot.place s.ground.text) :=
      sequence n more
    rw [place] at rest
    exact .more inside opens (value sane) rest

/-- All along a program the standing of the engine is the same. -/
theorem Alike.comes (hosted : Hosted Unit) (alike : Alike w s c fun _ => e)
    (thawed : s.frozen = []) {offset : UInt32} {count : Nat} (offers : s.Offers offset count)
    {p p' : HostProgram} (keeps : p.Keeps (Rule Unit) offset count e)
    (calm : ∀ q e', (Routine.ofProgram offset count p e).Asks q e' → Calm Unit q e')
    (comes : p.Comes offset count e p' e') :
    ∃ (w' : World Unit) (c' : Current), Alike w' s c' fun _ => e' := by
  induction comes with
  | start => exact ⟨w, c, alike⟩
  | @answered p₁ e₁ e₂ r a before first ends ih =>
    obtain ⟨w₁, c₁, alike₁⟩ := ih
    have answer := alike₁.answer hosted thawed offers first fun _ => keeps p₁ e₁ before
    have asked : ∀ q e', (r.routine e₁).Asks q e' → Calm Unit q e' := by
      intro q e' asks
      refine calm q e' (before.asks ?_)
      rw [Routine.ofProgram_eq first]
      exact asks.bind
    obtain ⟨_, w', c', alike', -⟩ := answer.holds asked ends
    exact ⟨w', c', alike'⟩

/-- There is no more to be pushed than words fit into an arena. -/
theorem Alike.count_eq {tags : List Tag} (alike : Alike w (s.pushing tags) c fun _ => e) :
    (UInt32.ofNat tags.length).toNat = tags.length := by
  have words := alike.scratch.length_eq ()
  have room := (alike.fits.holds ()).room
  have top := (alike.fits.holds ()).top_le
  have size := alike.fits.size_le ()
  simp only [Standing.pushing, List.length_append, List.length_reverse] at words
  refine UInt32.toNat_ofNat_of_lt' ?_
  show tags.length < 2 ^ 32
  omega

/-- Nothing is left to be evaluated when there are no more arguments. -/
theorem Alike.noArgument (alike : Alike w s c fun _ => e) {e₀ : Engine} (none : e.NoArgument e₀) :
    (∃ c₀, Alike w s c₀ fun _ => e₀) ∧ Sequence s.ground.text 0 (c.spot.place s.ground.text) := by
  rcases none with ⟨isOver, rfl⟩ | ⟨-, read⟩
  · rw [alike.length (), alike.pos ()] at isOver
    exact ⟨⟨c, alike⟩, .none (.inl isOver)⟩
  · obtain ⟨e₁, token, alike₁⟩ := alike.token
    have same := read.symm.trans (token ())
    simp only [Except.ok.injEq, Prod.mk.injEq] at same
    obtain ⟨paren, rfl⟩ := same
    refine ⟨⟨_, alike₁⟩, .none (.inr ?_)⟩
    rw [Spot.next_place]
    exact paren.symm

/-- With the arguments of a native in their order on top of the scratch stack. -/
def Standing.offering (s : Standing Unit) (tags : List Tag) (offset : UInt32) : Standing Unit :=
  { s with scratch := tags ++ s.scratch, limit := fun _ => offset }

/-! ## Calls of natives -/

section

variable {tags : List Tag} {p : HostProgram} (alike : Alike w (s.pushing tags) c fun _ => e)
  (calm : Calm Unit (.pushArguments index (UInt32.ofNat tags.length)) e)
  (arguments : e.Arguments args e')
  (calls : e'.CallsNative index (UInt32.ofNat (tags.length + args.length)) p e₁)

include alike calm arguments calls

/-- A native is called after some more arguments: all of them lie in their order. -/
theorem Alike.called :
    ∃ (w₁ : World Unit) (c₁ : Current) (tags' : List Tag), tags'.length = args.length
      ∧ (UInt32.ofNat (tags.length + args.length)).toNat = tags.length + args.length
      ∧ Alike w₁ (s.offering (tags ++ tags') e₁.arena.limit) c₁ (fun _ => e₁)
      ∧ Sequence s.ground.text args.length (c.spot.place s.ground.text) := by
  obtain ⟨e₂, native, none, turned, found, rfl⟩ := calls
  obtain ⟨w', c', tags', length, alike', sequence⟩ := Alike.afterArguments arguments alike calm
  rw [s.pushing_append] at alike'
  obtain ⟨⟨c₂, alike₂⟩, ends⟩ := alike'.noArgument none
  have size : (tags ++ tags').length = tags.length + args.length := by
    rw [List.length_append, length]
  have count := alike₂.count_eq
  rw [size] at count
  have enough : (UInt32.ofNat (tags.length + args.length)).toNat
      ≤ (s.pushing (tags ++ tags')).scratch.length := by
    rw [count, Standing.pushing, List.length_append, List.length_reverse]
    omega
  obtain ⟨w₁, e₁', turned', alike₁⟩ := alike₂.turnArguments enough
  have same := turned.symm.trans (turned' ())
  simp only [Except.ok.injEq, Prod.mk.injEq, true_and] at same
  subst same
  have sequence : Sequence s.ground.text (0 + args.length) (c.spot.place s.ground.text) :=
    sequence 0 ends
  rw [Nat.zero_add] at sequence
  refine ⟨w₁, c₂, tags', length, count, ?_, sequence⟩
  have turned : (s.pushing (tags ++ tags')).turned (UInt32.ofNat (tags.length + args.length))
      = s.offering (tags ++ tags') (e₁' ()).arena.limit := by
    have size : (tags ++ tags').reverse.length = tags.length + args.length := by
      rw [List.length_reverse, size]
    have limit := alike₁.limit
    simp only [Standing.turned, Standing.pushing, Standing.offering, count, List.take_left' size,
      List.drop_left' size, List.reverse_reverse, Standing.mk.injEq, true_and, and_true]
    funext i
    exact (limit i).symm
  exact turned ▸ alike₁

/-- All along the program of the native the arguments are there. -/
theorem Alike.offering_of_comes (hosted : Hosted Unit) (thawed : s.frozen = []) {p' : HostProgram}
    {e'' : Engine} (comes : p.Comes e₁.arena.limit (tags.length + args.length) e₁ p' e'') :
    ∃ (w' : World Unit) (c' : Current) (tags' : List Tag), tags'.length = args.length
      ∧ Alike w' (s.offering (tags ++ tags') e₁.arena.limit) c' fun _ => e'' := by
  obtain ⟨w₁, c₁, tags', length, count, alike₁, -⟩ := alike.called calm arguments calls
  have within : (Production.pushArguments index (UInt32.ofNat tags.length)).Within e
      (.pushArguments index (UInt32.ofNat (tags.length + args.length))) e' := by
    rw [UInt32.ofNat_add]
    exact Production.within_of_arguments arguments
  have keeps := calm.keeps hosted _ _ e' p e₁ within calls
  rw [count] at keeps
  have asked : ∀ q e'', (Routine.ofProgram e₁.arena.limit (tags.length + args.length) p e₁).Asks q
      e'' → Calm Unit q e'' := by
    intro q e'' asks
    refine calm.within (.asked within (Production.asks_of_program calls ?_))
    rwa [count]
  have room : tags.length + args.length ≤ (tags ++ tags' ++ s.scratch).length := by
    rw [List.length_append, List.length_append, length]
    omega
  obtain ⟨w', c', alike'⟩ :=
    alike₁.comes hosted thawed (.inr ⟨fun _ => rfl, room⟩) keeps asked comes
  exact ⟨w', c', tags', length, alike'⟩

end

/-- An engine on which an argument lies after others that came before it. -/
theorem Alike.delivers {w' : World Unit} {c' : Current} {offset : UInt32} {tag : Tag}
    {before after : List Tag} (start : Rules.start = some w)
    (alike : Alike w (s.pushing before) c fun _ => e) (related : w.Related tag fun _ => v)
    (alike' : Alike w' (s.offering (before ++ [tag] ++ after) offset) c' fun _ => e') :
    e.Delivers (MayCollect Unit) v e'
      (((w'.scratch ()).take (before.length + 1)).reverse
        ++ (w'.scratch ()).drop (before.length + 1 + after.length)) := by
  obtain ⟨r, -, words, -, onto, -⟩ := alike.exists_passage start alike'
  refine ⟨r, onto _ _ ⟨_, alike.scope, alike'.scope⟩,
    alike.roots.forall₂ (fun _ _ _ => World.Related.succeeds onto) alike'.roots, ?_⟩
  have pushed : Listed w.Related (before.reverse ++ s.scratch) w.scratch :=
    alike.scratch.mono fun _ _ _ both => both.1
  have offered : Listed w'.Related (before ++ [tag] ++ after ++ s.scratch) w'.scratch :=
    alike'.scratch.mono fun _ _ _ both => both.1
  have here : Listed w.Related (tag :: (before.reverse ++ s.scratch)) fun _ => v :: r.words := by
    rw [words]
    exact Listed.cons related pushed
  have there := (offered.take (before.length + 1)).reverse.append
    (offered.drop (before.length + 1 + after.length))
  have top : (before ++ [tag] ++ after ++ s.scratch).take (before.length + 1) = before ++ [tag] := by
    rw [List.append_assoc _ after]
    exact List.take_left' (by simp)
  have bottom : (before ++ [tag] ++ after ++ s.scratch).drop (before.length + 1 + after.length)
      = s.scratch := List.drop_left' (by simp; omega)
  rw [top, bottom, List.reverse_append, List.reverse_singleton, List.singleton_append,
    List.cons_append] at there
  exact here.forall₂ (fun _ _ _ => World.Related.succeeds onto) there

section

variable {p p' : HostProgram} {e₀ : Engine} (hosted : Hosted Unit) (thawed : s.frozen = [])
  (alike : Alike w s c fun _ => e₀) (calm : Calm Unit (.pushArguments index 0) e₀)
  (arguments : e₀.Arguments args e')
  (calls : e'.CallsNative index (UInt32.ofNat args.length) p e₁)
  (comes : p.Comes e₁.arena.limit args.length e₁ p' e)

include hosted thawed alike calm arguments calls comes

omit hosted thawed comes in
/-- A native is called with arguments, which lie in their order. -/
theorem Alike.called_at :
    ∃ (w₁ : World Unit) (c₁ : Current) (tags : List Tag),
      (UInt32.ofNat args.length).toNat = args.length
      ∧ Alike w₁ (s.offering tags e₁.arena.limit) c₁ (fun _ => e₁)
      ∧ Sequence s.ground.text args.length (c.spot.place s.ground.text) := by
  have none : ([] : List Tag).length + args.length = args.length := Nat.zero_add _
  have start : Alike w (s.pushing []) c fun _ => e₀ := s.pushing_nil.symm ▸ alike
  obtain ⟨w₁, c₁, tags, -, count, called⟩ := start.called calm arguments (none.symm ▸ calls)
  rw [none] at count
  exact ⟨w₁, c₁, tags, count, called⟩

/-- Each argument is there all along the program of the native; entities are followed
from when it had its value. -/
theorem Alike.delivers_argument {j : Nat} {e₂ : Engine} (found : args[j]? = some (v, e₂))
    {words : List Value} (scratch : e.arena.scratch = .ok words) :
    ∃ e₃, e₀.Arguments (args.take (j + 1)) e₃ ∧
      e₂.Delivers ((Production.pushArguments index (UInt32.ofNat (j + 1))).Collects e₃) v e
        ((words.take (j + 1)).reverse ++ words.drop args.length) := by
  obtain ⟨f, f₂, f₃, first, argument, pushed, passed, upto, after⟩ := arguments.split found
  have low : j < args.length := (List.getElem?_eq_some_iff.mp found).1
  refine ⟨f₃, upto, ?_⟩
  have reaches : ∀ {n : Nat} {args' : List (Value × Engine)} {e' : Engine}, n = args'.length →
      e₀.Arguments args' e' → Calm Unit (.pushArguments index (UInt32.ofNat n)) e' := by
    rintro _ args' e' rfl arguments
    have within : (Production.pushArguments index 0).Within e₀ _ e' :=
      Production.within_of_arguments arguments
    rw [UInt32.zero_add] at within
    exact calm.within within
  have sizes : j = (args.take j).length ∧ j + 1 = (args.take (j + 1)).length
      ∧ j + 1 + (args.drop (j + 1)).length = args.length := by
    simp only [List.length_take, List.length_drop]
    omega
  obtain ⟨w₀, c₀, before, length, alike₀, -⟩ := Alike.afterArguments first alike calm
  obtain ⟨w₂, c₂, tag, alike₂, related, plain, -⟩ :=
    alike₀.afterArgument (reaches sizes.1 first) argument
  have length : before.length = j := length.trans sizes.1.symm
  -- from here on the value is followed, and only later collections may take place
  let later := (Production.pushArguments index (UInt32.ofNat (j + 1))).Collects f₃
  have followed := alike₂.following later
  have calm₃ : @Calm Unit (rules.following w₂ later) _ f₃ :=
    (reaches sizes.2.1 upto).following w₂ fun _ collects => collects
  let : Rules Unit := rules.following w₂ later
  obtain ⟨w₃, c₃, alike₃, -⟩ := followed.placed related plain pushed passed
  rw [s.pushing_append] at alike₃
  have both : (before ++ [tag]).length = j + 1 := by simp [length]
  rw [← both] at calm₃
  have all : (before ++ [tag]).length + (args.drop (j + 1)).length = args.length := by
    rw [both, sizes.2.2]
  rw [← all] at calls comes
  obtain ⟨w', c', tags, length', alike'⟩ :=
    alike₃.offering_of_comes calm₃ after calls hosted thawed comes
  have delivers := followed.delivers rfl related alike'
  have same : w'.scratch () = words :=
    Except.ok.inj ((alike'.fits.holds ()).scratch_eq.symm.trans scratch)
  have rest : before.length + 1 + tags.length = args.length := by
    rw [length, length', sizes.2.2]
  rw [same, rest, length] at delivers
  exact delivers

/-- All along the program of a native its arguments are presented. -/
theorem Alike.presents : ∃ given base, e₀.Presents index e₁.arena.limit args e given base := by
  have none : ([] : List Tag).length + args.length = args.length := Nat.zero_add _
  have start : Alike w (s.pushing []) c fun _ => e₀ := s.pushing_nil.symm ▸ alike
  obtain ⟨w', c', tags, length, alike'⟩ := start.offering_of_comes calm arguments
    (none.symm ▸ calls) hosted thawed (none.symm ▸ comes)
  have size : args.length ≤ (w'.scratch ()).length := by
    rw [alike'.scratch.length_eq (), Standing.offering, List.length_append, List.nil_append, length]
    omega
  have scratch := (alike'.fits.holds ()).scratch_eq
  refine ⟨(w'.scratch ()).take args.length, (w'.scratch ()).drop args.length, ?_, ?_, ?_, ?_, ?_⟩
  · rw [List.take_append_drop]
    exact scratch
  · rw [List.length_take, Nat.min_eq_left size]
  · intro j v found
    have low : j < args.length := by
      have := (List.getElem?_eq_some_iff.mp found).1
      rw [List.length_take] at this
      omega
    rw [List.getElem?_take_of_lt low] at found
    have load := (alike'.fits.holds ()).load64_scratch found
    have limit : e.arena.limit = e₁.arena.limit := alike'.limit ()
    rw [limit] at load
    have inside : ¬ ((j : Int) < 0 ∨ args.length ≤ (j : Int).toNat) := by omega
    rw [Engine.argument, if_neg inside, Int.toNat_natCast]
    simp only [readArena, load]
  · intro index outside
    have outside : index < 0 ∨ args.length ≤ index.toNat := by omega
    simp only [Engine.argument, outside, if_true]
    rfl
  · intro j v e₂ found
    have low : j < args.length := (List.getElem?_eq_some_iff.mp found).1
    have same : ((w'.scratch ()).take args.length).take (j + 1) = (w'.scratch ()).take (j + 1) := by
      rw [List.take_take, Nat.min_eq_left low]
    rw [same]
    exact alike.delivers_argument hosted thawed calm arguments calls comes found scratch

end

end

/-- The program is that of the native registered with the number. -/
theorem Alike.program_of_calls [Rules Unit] {w : World Unit} {s : Standing Unit} {c : Current}
    {e' e₁ : Engine} {index : Nat} {args : List (Value × Engine)} {p : HostProgram}
    (alike : Alike w s c fun _ => e₁) (calls : e'.CallsNative index (UInt32.ofNat args.length) p e₁)
    (count : (UInt32.ofNat args.length).toNat = args.length) (known : index < s.natives.length) :
    ∃ native, s.natives[index]? = some native ∧ p = native.program args.length := by
  obtain ⟨e₂, native, none, turned, found, rfl⟩ := calls
  rw [alike.natives (), ← Array.getElem?_toList] at found
  refine ⟨native, ?_, by rw [count]⟩
  obtain ⟨rest, eq⟩ : s.natives <+: c.natives.toList := alike.known
  rwa [← eq, List.getElem?_append_left known] at found

end Lockstep

namespace Engine

variable {e e₀ : Engine} {f a : Value}

/-- A call of a native waits for its arguments only. -/
theorem callValue_of_native (native : f.kind = .native) (known : f.payload.toNat < e₀.natives.size)
    (span : a.kind = .span) (entered : Routine.enterCall a e = .ok ((), e₀)) :
    Routine.callValue f a e
      = (Routine.call (.pushArguments f.payload.toNat 0) e₀).bind fun v =>
        .ofExcept (Routine.leaveCall e.mode v.1 v.2) := by
  have other : f.kind ≠ .function := by
    rw [native]
    decide
  have unknown : ¬ e₀.natives.size ≤ f.payload.toNat := Nat.not_le.mpr known
  rw [Routine.callValue_eq e span (.inr native), entered]
  simp only [Routine.callNative, Routine.steps, other, unknown, if_false]

/-- The text of the arguments is read from a token on. -/
theorem consumed_of_enterCall (entered : Routine.enterCall a e = .ok ((), e₀)) :
    e₀.cursor.consumed = true := by
  have part : ∀ i n, (e.cursor.part i n).consumed = true := by
    intro i n
    unfold Cursor.part
    split <;> rfl
  simp only [Routine.enterCall, Engine.suspend, hold, changeCursor, Routine.skipArgumentBlanks,
    source, bind, StateT.bind, Except.bind, get, getThe, MonadStateOf.get, StateT.get, modify,
    modifyGet, MonadStateOf.modifyGet, StateT.modifyGet, pure, Except.pure] at entered
  split at entered
  · cases entered
  · next read =>
    split at read
    · cases read
    · next scanned =>
      split at scanned
      · cases scanned
        cases read
        cases entered
        exact part _ _
      · cases scanned

/-- A call gives the value it comes back with. -/
theorem performs_of_leaveCall {q : Production} {mode : Mode} {o : Value × Engine}
    (ends : ((Routine.call q e₀).bind fun v =>
      .ofExcept (Routine.leaveCall mode v.1 v.2)).Ends o) :
    ∃ e₂, q.Performs e₀ (o.1, e₂) ∧ Routine.leaveCall mode o.1 e₂ = .ok o := by
  cases ends with
  | @waiting _ _ _ r _ performs left =>
    simp only [Routine.steps] at left
    rcases Routine.leaveCall_cases mode r.1 r.2 with ⟨h, halts⟩ | ⟨e₃, done, -⟩
    · simp only [halts, Routine.steps] at left
      cases left
    · simp only [done, Routine.steps] at left
      cases left
      exact ⟨r.2, performs, done⟩

/-- A call that ends has called the native and is closed then, or an argument was
refused. -/
theorem cases_of_call {index : Nat} {mode : Mode} {o : Value × Engine} {e₂ : Engine}
    (performs : (Production.pushArguments index 0).Performs e₀ (o.1, e₂))
    (left : Routine.leaveCall mode o.1 e₂ = .ok o) :
    o.1.isError = true ∧ (∃ args e', e₀.Arguments args e' ∧ e'.Refuses)
        ∧ (∀ args p e₁, ¬ e₀.Calls index args p e₁)
      ∨ ∃ args p e₁ e₃, e₀.Calls index args p e₁
        ∧ (Routine.ofProgram e₁.arena.limit (UInt32.ofNat args.length).toNat p e₁).Ends (o.1, e₃)
        ∧ Routine.closeNative (UInt32.ofNat args.length) mode o.1 e₃ = .ok o := by
  obtain ⟨bound, performs⟩ := performs
  obtain ⟨args, e', arguments, settles⟩ := exists_arguments performs
  rw [UInt32.zero_add] at settles
  rcases settles with ⟨p, e₁, e₃, e₄, calls, program, noted, dropped⟩ | ⟨refuses, error⟩
  · refine .inr ⟨args, p, e₁, e₃, ⟨e', arguments, calls⟩, program, ?_⟩
    simp only [Routine.closeNative, Action.runs, noted, dropped]
    exact left
  · exact .inl ⟨error, ⟨args, e', arguments, refuses⟩, fun _ _ _ => refuses.not_calls arguments⟩

open Lockstep in
/-- The arguments of a native arrive whole and in order.  The native is called at most
once, with as many arguments as there are expressions in the text of the call; all
along its program they are the values that the expressions had, moved along with all
else by later collections, and no others can be read.  A call that ends leaves the
scratch stack as it was: either an argument has failed or found no room, and then the
native is not called and an error is returned, or the program has run once, its value is
returned, and the engine it has left is the one on which the caller goes on. -/
theorem native_arguments_arrive (good : e.WellFormed) (native : f.kind = .native)
    (known : f.payload.toNat < e.natives.size) (span : a.kind = .span)
    (inside : a.spanStart.toNat + a.spanLength.toNat ≤ e.cursor.length)
    (careful : ∀ q e', (Routine.callValue f a e).Asks q e' → q.Careful e') :
    ∃ e₀, Routine.enterCall a e = .ok ((), e₀)
      ∧ (∀ args p e₁, e₀.Calls f.payload.toNat args p e₁ →
        (∀ args' p' e₁', e₀.Calls f.payload.toNat args' p' e₁' → args' = args ∧ p' = p ∧ e₁' = e₁)
          ∧ (∃ registered, e.natives[f.payload.toNat]? = some registered
            ∧ p = registered.program args.length)
          ∧ (∃ text, (e₀.cursor.source e₀.arena.bytes).Shows text
            ∧ Grammar.Sequence text args.length (.due e₀.cursor.pos))
          ∧ ∀ p' e', p.Comes e₁.arena.limit args.length e₁ p' e' →
            ∃ given base, e₀.Presents f.payload.toNat e₁.arena.limit args e' given base)
      ∧ ∀ o, (Routine.callValue f a e).Ends o → o.2.arena.limit = e.arena.limit
        ∧ (o.1.isError = true ∧ (∃ args e', e₀.Arguments args e' ∧ e'.Refuses)
            ∧ (∀ args p e₁, ¬ e₀.Calls f.payload.toNat args p e₁)
          ∨ ∃ args p e₁ e₂, e₀.Calls f.payload.toNat args p e₁
            ∧ (Routine.ofProgram e₁.arena.limit args.length p e₁).Ends (o.1, e₂)
            ∧ Routine.closeNative (UInt32.ofNat args.length) e.mode o.1 e₂ = .ok o) := by
  obtain ⟨w, s, c, thawed, alike⟩ := good.exists_alike lax unfollowed (.inr hosted)
  have alike : Alike w { s with natives := c.natives.toList } c fun _ => e :=
    { alike with known := List.prefix_refl _, still := .inl thawed }
  obtain ⟨g, u, e₀, entered, alike₀⟩ := alike.enterCall (x := a) (alike.length () ▸ inside)
  have natives : e.natives = c.natives := alike.natives ()
  have known₀ : f.payload.toNat < (e₀ ()).natives.size := by
    rw [alike₀.natives (), ← natives]
    exact known
  have whole := callValue_of_native native known₀ span (entered ())
  have calm : Calm Unit (.pushArguments f.payload.toNat 0) (e₀ ()) :=
    calm_of_careful (careful _ _ (whole ▸ .bind (.now _ _ _)))
  refine ⟨e₀ (), entered (), fun args p e₁ calls => ⟨fun _ _ _ => calls.unique, ?_⟩,
    fun o ends => ?_⟩
  · obtain ⟨e', arguments, calls⟩ := calls
    obtain ⟨w₁, c₁, tags, count, alike₁, sequence⟩ := alike₀.called_at calm arguments calls
    refine ⟨?_, ⟨_, alike₀.shows (), ?_⟩, fun p' e' =>
      alike₀.presents hosted (by exact thawed) calm arguments calls⟩
    · rw [natives, ← Array.getElem?_toList]
      exact alike₁.program_of_calls calls count (by rwa [natives] at known)
    · refine sequence.congr ?_ rfl (alike₀.pos ()).symm
      exact (alike₀.consumed ()).symm.trans (consumed_of_enterCall (entered ()))
  · have bare : f.isEntity = false ∧ a.isEntity = false := by
      rw [Value.isEntity, Value.isEntity, native, span]
      exact ⟨rfl, rfl⟩
    have ended := alike.callValue (World.related_other w bare.1) (World.related_other w bare.2)
      (.inr ⟨a, rfl, alike.length () ▸ inside⟩)
    obtain ⟨w', _, c', tag, v, e', eq, alike', rfl, -⟩ :=
      ended.holds (fun q e' asks => calm_of_careful (careful q e' asks)) ends
    obtain rfl : o = (v (), e' ()) := eq ()
    refine ⟨(alike'.limit ()).trans (alike.limit ()).symm, ?_⟩
    rw [whole] at ends
    obtain ⟨e₂, performs, left⟩ := performs_of_leaveCall ends
    refine (cases_of_call performs left).imp_right ?_
    rintro ⟨args, p, e₁, e₃, ⟨e'', arguments, calls⟩, program, closed⟩
    obtain ⟨-, -, -, count, -⟩ := alike₀.called_at calm arguments calls
    rw [count] at program
    exact ⟨args, p, e₁, e₃, ⟨e'', arguments, calls⟩, program, closed⟩

/-- Two arguments, before whose values strings are left over. -/
def joinedTexts : ByteArray := "'b'+'a',''+''".toUTF8

/-- An engine that is to call a native which asks for a collection before it reads its
first argument. -/
def joining : Engine :=
  { initial 96 with
    natives := #[⟨fun _ => .collect fun _ => .argument 0 fun _ => .done .undefined⟩]
    cursor := .start (.host joinedTexts 0) joinedTexts.size }

theorem joining_wellFormed : joining.WellFormed := by
  have new : (initial 96).WellFormed := initial_wellFormed (by decide) (by decide)
  obtain ⟨small, h, scratch, sound, -⟩ := new
  refine ⟨small, h, scratch, { sound with }, ?_⟩
  intro k mem
  obtain rfl : k = .start (.host joinedTexts 0) joinedTexts.size := by
    simpa [joining, initial] using mem
  exact ⟨Nat.zero_le _, Nat.zero_le _, rfl, by simp [Cursor.start]⟩

/-- The call ends with the value of the native. -/
theorem joining_ends :
    ((Routine.callValue (.box .native 0) (.span 0 13) joining).watch
      (Production.watch (Production.calls? 20 4) (fun _ => true) 20)).any
        (fun o => o.1 == .undefined) = true := by
  decide +kernel

/-- Both arguments arrive, also after the collection. -/
theorem joining_arguments_arrive :
    joining.WellFormed ∧ ∃ o e₀, (Routine.callValue (.box .native 0) (.span 0 13) joining).Ends o
      ∧ o.1.isError = false ∧ Routine.enterCall (.span 0 13) joining = .ok ((), e₀)
      ∧ o.2.arena.limit = joining.arena.limit
      ∧ ∃ args p e₁ e₂, e₀.Calls 0 args p e₁
        ∧ (Routine.ofProgram e₁.arena.limit args.length p e₁).Ends (o.1, e₂)
        ∧ Routine.closeNative (UInt32.ofNat args.length) joining.mode o.1 e₂ = .ok o
        ∧ ∀ p' e', p.Comes e₁.arena.limit args.length e₁ p' e' →
          ∃ given base, e₀.Presents 0 e₁.arena.limit args e' given base := by
  have sound : ∀ q e o, Production.watch (Production.calls? 20 4) (fun _ => true) 20 q e = some o →
      q.Performs e o := fun _ _ _ answered => (Production.performs_of_watch answered).1
  obtain ⟨o, watched, value⟩ := (Option.any_eq_true _ _).mp joining_ends
  have ends := Progress.ends_of_watch sound watched
  have careful : ∀ q e', (Routine.callValue (.box .native 0) (.span 0 13) joining).Asks q e' →
      q.Careful e' := fun q e' asks => by
    obtain ⟨o', answered⟩ := asks.answered sound watched
    exact Production.careful_of_watch answered
  have zero : (Value.box .native 0).payload.toNat = 0 := by decide
  obtain ⟨e₀, entered, calls, outcome⟩ := native_arguments_arrive joining_wellFormed (by decide)
    (by decide) (by decide) (by decide) careful
  rw [zero] at calls outcome
  obtain ⟨limit, ⟨error, -⟩ | ⟨args, p, e₁, e₂, called, program, closed⟩⟩ := outcome o ends
  · rw [eq_of_beq value] at error
    cases error
  · refine ⟨joining_wellFormed, o, e₀, ends, ?_, entered, limit, args, p, e₁, e₂, called, program,
      closed, (calls args p e₁ called).2.2.2⟩
    rw [eq_of_beq value]
    decide

end Engine

end ArenaScript
