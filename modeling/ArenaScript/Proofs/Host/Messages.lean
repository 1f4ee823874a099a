import ArenaScript.Proofs.Engine.Creation
import ArenaScript.Proofs.Evaluate.Tracing

/-!
# Messages of errors

The host may ask for the kind and the message of an error at any time: between
the requests of a session, and inside natives that a script calls.  What it is
told is what the error was made with, whatever has been evaluated and whichever
errors have been made since.  Only the wording is lost when 32 more errors have
been made, and then the name of the kind stands in its place.

Which errors have been made is known from a trace.  A session on an engine without
one goes the way of the same session on an engine with one.

Main definitions:

- `HostProgram.Moment`: the times at which a host can ask.
- `Engine.Tells`: what an engine says about an error.

Main results:

- `HostProgram.Moment.traced`: sessions go the same way with a trace.
- `Engine.errors_keep_their_messages`: what is said about the errors of a session.
-/

namespace ArenaScript

/-! ## Moments of a session -/

/-- The moments of a session on an engine, with the engine at that time. -/
inductive HostProgram.Moment (p : HostProgram) (e : Engine) : Engine → Prop
  /-- The session makes its next request, or is done. -/
  | request {p' : HostProgram} {now : Engine} (comes : p.Comes 0 0 e p' now) : Moment p e now
  /-- A production starts in the course of an evaluation. -/
  | production {text : ByteArray} {next : Value → HostProgram} {q : Production} {e₁ now : Engine}
      (comes : p.Comes 0 0 e (.evaluate text next) e₁)
      (within : (Production.evaluate text).Within e₁ q now) : Moment p e now
  /-- A native called in the course of an evaluation makes its next request, or is
  done. -/
  | native {text : ByteArray} {next : Value → HostProgram} {index : Nat} {count : UInt32}
      {body p' : HostProgram} {e₁ e₂ e₃ now : Engine}
      (comes : p.Comes 0 0 e (.evaluate text next) e₁)
      (within : (Production.evaluate text).Within e₁ (.pushArguments index count) e₂)
      (calls : e₂.CallsNative index count body e₃)
      (later : body.Comes e₃.arena.limit count.toNat e₃ p' now) : Moment p e now

section

variable {e e' e₁ : Engine}

/-- Host programs take the same course with a trace. -/
theorem HostProgram.Comes.traced {offset : UInt32} {count : Nat} {p p₁ : HostProgram}
    (comes : p.Comes offset count e p₁ e₁) (traced : e.TracedBy e') :
    ∃ e₁', p.Comes offset count e' p₁ e₁' ∧ e₁.TracedBy e₁' := by
  induction comes with
  | start => exact ⟨e', .start, traced⟩
  | answered _ first ends ih =>
    obtain ⟨e₂', comes', traced₂⟩ := ih
    obtain ⟨e₃', ends', traced₃⟩ := ends.traced ((Routine.Blind.first first).agrees traced₂)
    exact ⟨e₃', .answered comes' first ends', traced₃⟩

/-- The same natives are called. -/
theorem Engine.CallsNative.traced {index : Nat} {count : UInt32} {p : HostProgram}
    (calls : e.CallsNative index count p e₁) (traced : e.TracedBy e') :
    ∃ e₁', e'.CallsNative index count p e₁' ∧ e₁.TracedBy e₁' := by
  obtain ⟨e₀, native, before, reversed, found, program⟩ := calls
  have cursor : e'.cursor = e.cursor := by rw [traced.same]
  have start : ∃ e₀', (e'.cursor.length ≤ e'.cursor.pos ∧ e₀' = e' ∨
      e'.cursor.pos < e'.cursor.length ∧ token e' = .ok (.rightParen, e₀'))
      ∧ e₀.TracedBy e₀' := by
    rw [cursor]
    rcases before with ⟨stop, rfl⟩ | ⟨more, paren⟩
    · exact ⟨e', .inl ⟨stop, rfl⟩, traced⟩
    · obtain ⟨e₀', paren', traced₀⟩ := Action.Blind.ok (x := token) traced paren
      exact ⟨e₀', .inr ⟨more, paren'⟩, traced₀⟩
  obtain ⟨e₀', before', traced₀⟩ := start
  obtain ⟨e₁', reversed', traced₁⟩ := Action.Blind.ok (x := changeArena _) traced₀ reversed
  have natives : e₁'.natives = e₁.natives := by rw [traced₁.same]
  exact ⟨e₁', ⟨e₀', native, before', reversed', natives ▸ found, program⟩, traced₁⟩

/-- A session has the same moments with a trace. -/
theorem HostProgram.Moment.traced {p : HostProgram} (moment : p.Moment e e₁)
    (traced : e.TracedBy e') : ∃ e₁', p.Moment e' e₁' ∧ e₁.TracedBy e₁' := by
  cases moment with
  | request comes =>
    obtain ⟨e₁', comes', traced₁⟩ := comes.traced traced
    exact ⟨e₁', .request comes', traced₁⟩
  | production comes within =>
    obtain ⟨e₁', comes', traced₁⟩ := comes.traced traced
    obtain ⟨e₂', within', traced₂⟩ := within.traced traced₁
    exact ⟨e₂', .production comes' within', traced₂⟩
  | @native _ _ _ _ _ _ _ _ e₃ _ comes within calls later =>
    obtain ⟨e₁', comes', traced₁⟩ := comes.traced traced
    obtain ⟨e₂', within', traced₂⟩ := within.traced traced₁
    obtain ⟨e₃', calls', traced₃⟩ := calls.traced traced₂
    obtain ⟨e₄', later', traced₄⟩ := later.traced traced₃
    have limit : e₃'.arena.limit = e₃.arena.limit := by rw [traced₃.same]
    exact ⟨e₄', .native comes' within' calls' (limit ▸ later'), traced₄⟩

end

namespace Engine

/-! ## New engines -/

/-- Before a session there are no errors. -/
theorem create?_tracedBy {length : Nat} {settings : List Setting} {e : Engine}
    (made : create? length settings = some e) : e.TracedBy { e with tracing := true } := by
  have fresh : e.log = .empty ∧ e.events = #[] := by
    rw [create?] at made
    split at made
    · cases made
    · obtain ⟨threshold, maxDepth, tracing, whole⟩ := foldl_configure_eq settings (initial length)
      rw [← Option.some.inj made, whole]
      exact ⟨rfl, rfl⟩
  refine ⟨rfl, fun wanted => ?_, ?_⟩
  · rw [← wanted]
  · rw [failures, fresh.1, fresh.2]
    exact ErrorLog.recalls_empty

/-! ## What the host is told -/

/-- What an engine says about an error: its kind, its text and its message. -/
structure Tells (e : Engine) (v : Value) (kind : ErrorKind) (message : ByteArray) : Prop where
  isError : v.isError = true
  kind_eq : ErrorLog.kind v = kind
  message_eq : e.log.message v = message
  render_eq : render v e = .ok (message, e)

/-- The errors of a trace are recalled. -/
theorem TracedBy.tells {e traced : Engine} (both : e.TracedBy traced)
    (few : traced.failures.length < 2 ^ 32) {i : Nat} {kind : ErrorKind} {message : ByteArray}
    (found : traced.failures[i]? = some (kind, message)) :
    e.Tells (ErrorLog.value (UInt32.ofNat (i + 1)) kind) kind
      (if traced.failures.length ≤ i + 32 then message
        else Failure.announce (Bytes.ofString kind.name)) := by
  have error := ErrorLog.isError_value (UInt32.ofNat (i + 1)) kind
  have told : e.log.message (ErrorLog.value (UInt32.ofNat (i + 1)) kind)
      = if traced.failures.length ≤ i + 32 then message
        else Failure.announce (Bytes.ofString kind.name) :=
    both.recalls.message few found
  refine ⟨error, ErrorLog.kind_value _ _, told, ?_⟩
  rw [← told, render, if_pos error]
  rfl

/-- Messages stay with their errors.  At any moment of a session, the errors so far are
those of a trace, which is that of the engine itself if it keeps one and that of the
same session on an engine with a trace otherwise.  Of each of them the engine tells
the kind it was made with, and the message it was made with or, when more than 31
errors have been made since, the name of its kind.  The value of an error is known
when it is made: it has the number that follows those of the errors so far. -/
theorem errors_keep_their_messages {length : Nat} {settings : List Setting} {p : HostProgram}
    {e now : Engine} (made : create? length settings = some e) (moment : p.Moment e now) :
    ∃ traced, p.Moment { e with tracing := true } traced
      ∧ traced = { now with tracing := true, events := traced.events }
      ∧ (now.tracing = true → traced = now)
      ∧ (traced.failures.length < 2 ^ 32 →
        ∀ (i : Nat) (kind : ErrorKind) (message : ByteArray),
          traced.failures[i]? = some (kind, message) →
          now.Tells (ErrorLog.value (UInt32.ofNat (i + 1)) kind) kind
            (if traced.failures.length ≤ i + 32 then message
              else Failure.announce (Bytes.ofString kind.name)))
      ∧ ∀ f : Failure, ∃ next next',
        fail f now = .ok (ErrorLog.value (UInt32.ofNat (traced.failures.length + 1)) f.kind, next)
          ∧ fail f traced
            = .ok (ErrorLog.value (UInt32.ofNat (traced.failures.length + 1)) f.kind, next')
          ∧ next'.failures = traced.failures ++ [(f.kind, f.message)] := by
  obtain ⟨traced, moment', both⟩ := moment.traced (create?_tracedBy made)
  refine ⟨traced, moment', both.same, both.own, fun few i kind message found => ?_, fun f => ?_⟩
  · exact both.tells few found
  · obtain ⟨next, next', here, there, -, failures⟩ := both.fail f
    exact ⟨next, next', here, there, failures⟩

end Engine

/-- A session that makes a number of errors. -/
def HostProgram.complaints : Nat → HostProgram
  | 0 => .done .undefined
  | n + 1 => .makeError (Bytes.ofString "no") fun _ => complaints n

/-- The errors of the session are in the trace at its end. -/
theorem HostProgram.exists_comes_complaints (n : Nat) (e : Engine) (tracing : e.tracing = true) :
    ∃ now, (complaints n).Comes 0 0 e (.done .undefined) now ∧ now.tracing = true
      ∧ now.failures = e.failures
        ++ List.replicate n (.native, Failure.announce (Bytes.ofString "no")) := by
  induction n generalizing e with
  | zero => exact ⟨e, .start, tracing, (List.append_nil _).symm⟩
  | succ n ih =>
    obtain ⟨events, run, pushed⟩ := Engine.fail_run (.native (Bytes.ofString "no")) e
    let e₁ : Engine := { e with
      log := e.log.record (.native (Bytes.ofString "no")), cursor := e.cursor.finish
      events := events }
    obtain ⟨now, comes, tracing', failures⟩ := ih e₁ tracing
    have first : e₁.failures
        = e.failures ++ [(.native, Failure.announce (Bytes.ofString "no"))] := by
      simp [Engine.failures, e₁, pushed tracing, Event.failure?, Failure.kind, Failure.message,
        Failure.wording]
    have ends : (Progress.ofExcept (Engine.fail (.native (Bytes.ofString "no")) e)).Ends
        (e₁.log.lastValue .native, e₁) := by
      rw [run]
      exact .finished _
    refine ⟨now, .later (r := ⟨Value, Engine.fail (.native (Bytes.ofString "no")), fun _ =>
      complaints n⟩) rfl ends comes, tracing', ?_⟩
    rw [failures, first, List.append_assoc, List.replicate_succ, List.singleton_append]

namespace Engine

/-- The end of a session with 33 errors: the message of the first one is lost, and the
second one still has its own. -/
theorem complaints_keep_their_messages : ∃ e now, create? 104 [.tracing] = some e
    ∧ (HostProgram.complaints 33).Moment e now
    ∧ now.Tells (ErrorLog.value 1 .native) .native
      (Failure.announce (Bytes.ofString "native function error"))
    ∧ now.Tells (ErrorLog.value 2 .native) .native (Failure.announce (Bytes.ofString "no")) := by
  have made : create? 104 [.tracing] = some { initial 104 with tracing := true } :=
    if_neg (by decide)
  obtain ⟨now, comes, tracing, failures⟩ := HostProgram.exists_comes_complaints 33
    { initial 104 with tracing := true } rfl
  obtain ⟨traced, -, -, own, told, -⟩ := errors_keep_their_messages made (.request comes)
  obtain rfl := own tracing
  have failures : traced.failures
      = List.replicate 33 (.native, Failure.announce (Bytes.ofString "no")) := failures
  rw [failures] at told
  exact ⟨_, traced, made, .request comes, told (by decide) 0 _ _ rfl, told (by decide) 1 _ _ rfl⟩

end Engine

end ArenaScript
