import ArenaScript.Proofs.Engine.Entities
import ArenaScript.Proofs.Engine.Failures
import ArenaScript.Proofs.Host.Conduct

/-!
# Traces change nothing

An engine that keeps a trace goes the same way as one that does not: every action
gives the same answer on both, every routine waits for the same productions, and
both end alike.  The trace is written but never read.

All along, the log of both engines recalls the errors in the trace.  So the trace
of the one engine is the history of the other.

Main definitions:

- `Engine.TracedBy`: an engine and one that keeps a trace beside it.
- `Action.Plain`: an action that touches neither the log nor the trace.
- `Action.Blind`, `Routine.Blind`: what goes the same way with a trace.

Main results:

- `Engine.TracedBy.fail`: an error on both engines.
- `Production.routine_blind`: all routines go the same way with a trace.
- `Production.Performs.traced`, `Production.Within.traced`: so do all runs.
-/

-- an instance for a routine is as long as the routine
set_option synthInstance.maxSize 100000

namespace ArenaScript

/-- An engine and one that differs from it in keeping a trace, if it does not keep
one itself.  The log recalls the errors of the trace. -/
structure Engine.TracedBy (e traced : Engine) : Prop where
  same : traced = { e with tracing := true, events := traced.events }
  own : e.tracing = true → traced = e
  recalls : e.log.Recalls traced.failures

/-- A report changes nothing but the trace. -/
theorem Engine.report_run (event : Event) (e : Engine) : ∃ events,
    report event e = .ok ((), { e with events := events })
      ∧ (e.tracing = true → events = e.events.push event) := by
  by_cases tracing : e.tracing = true
  · refine ⟨_, ?_, fun _ => rfl⟩
    exact congrArg (fun e => Except.ok ((), e)) (if_pos tracing)
  · refine ⟨e.events, ?_, fun wanted => absurd wanted tracing⟩
    exact congrArg (fun e => Except.ok ((), e)) (if_neg tracing)

/-- What a failure leaves behind, apart from the trace. -/
theorem Engine.fail_run (f : Failure) (e : Engine) : ∃ events,
    fail f e = .ok ((e.log.record f).lastValue f.kind,
        { e with log := e.log.record f, cursor := e.cursor.finish, events := events })
      ∧ (e.tracing = true → events = e.events.push (.failed f.kind f.message)) := by
  obtain ⟨events, run, pushed⟩ := report_run (.failed f.kind f.message)
    { e with log := e.log.record f, cursor := e.cursor.finish }
  refine ⟨events, ?_, pushed⟩
  show Except.bind (report (.failed f.kind f.message)
    { e with log := e.log.record f, cursor := e.cursor.finish })
      (fun r => .ok (r.2.log.lastValue f.kind, r.2)) = _
  rw [run]
  rfl

/-- A failure on both engines has the same value, with the number that follows those
of the errors in the trace, and the trace gets the error. -/
theorem Engine.TracedBy.fail {e e' : Engine} (traced : e.TracedBy e') (f : Failure) :
    ∃ e₁ e₁', fail f e = .ok (ErrorLog.value (UInt32.ofNat (e'.failures.length + 1)) f.kind, e₁)
      ∧ fail f e' = .ok (ErrorLog.value (UInt32.ofNat (e'.failures.length + 1)) f.kind, e₁')
      ∧ e₁.TracedBy e₁' ∧ e₁'.failures = e'.failures ++ [(f.kind, f.message)] := by
  have log : e'.log = e.log := by rw [traced.same]
  have tracing : e'.tracing = true := by rw [traced.same]
  obtain ⟨events, here, -⟩ := fail_run f e
  obtain ⟨events', there, pushed⟩ := fail_run f e'
  have failures : ({ e' with
      log := e'.log.record f, cursor := e'.cursor.finish, events := events' } : Engine).failures
      = e'.failures ++ [(f.kind, f.message)] := by
    simp [failures, pushed tracing, Event.failure?]
  rw [log, traced.recalls.lastValue_record f] at there
  rw [traced.recalls.lastValue_record f] at here
  refine ⟨_, _, here, there, ⟨?_, fun wanted => ?_, ?_⟩, failures⟩
  · rw [traced.same]
  · obtain rfl := traced.own wanted
    exact congrArg Prod.snd (Except.ok.inj (there.symm.trans here))
  · exact failures ▸ traced.recalls.record f

/-- Two routines that go the same way: they wait for the same productions, and with
the same answers they come to the same end. -/
inductive Progress.Agrees {α : Type} : Progress (α × Engine) → Progress (α × Engine) → Prop
  | finished (a : α) {e e' : Engine} (traced : e.TracedBy e') :
      Agrees (.finished (a, e)) (.finished (a, e'))
  | halted (h : Halt) : Agrees (.halted h) (.halted h)
  | waiting (q : Production) {e e' : Engine} {k k' : Value × Engine → Progress (α × Engine)}
      (traced : e.TracedBy e')
      (next : ∀ v e₁ e₁', e₁.TracedBy e₁' → Agrees (k (v, e₁)) (k' (v, e₁'))) :
      Agrees (.waiting q e k) (.waiting q e' k')

theorem Progress.Agrees.bind {α β : Type} {p p' : Progress (α × Engine)}
    {f f' : α × Engine → Progress (β × Engine)} (first : p.Agrees p')
    (next : ∀ a e e', e.TracedBy e' → (f (a, e)).Agrees (f' (a, e'))) :
    (p.bind f).Agrees (p'.bind f') := by
  induction first with
  | finished a traced => exact next a _ _ traced
  | halted h => exact .halted h
  | waiting q traced _ ih => exact .waiting q traced ih

/-- An action that gives the same answer with a trace. -/
class Action.Blind {α : Type} (x : Action α) : Prop where
  agrees : ∀ ⦃e e' : Engine⦄, e.TracedBy e' →
    (Progress.ofExcept (x e)).Agrees (Progress.ofExcept (x e'))

/-- A routine that goes the same way with a trace. -/
class Routine.Blind {α : Type} (x : Routine α) : Prop where
  agrees : ∀ ⦃e e' : Engine⦄, e.TracedBy e' → (x e).Agrees (x e')

/-- Two things are the same by definition. -/
class Same {α : Type} (a b : α) : Prop where
  eq : a = b

instance {α : Type} (a : α) : Same a a := ⟨rfl⟩

/-! ## Actions -/

/-- An engine with another log and another trace. -/
def Engine.retold (e : Engine) (log : ErrorLog) (tracing : Bool) (events : Array Event) : Engine :=
  { e with log := log, tracing := tracing, events := events }

/-- An action that neither reads nor changes the log and the trace. -/
def Action.Plain {α : Type} (x : Action α) : Prop :=
  ∀ e log tracing events, x (e.retold log tracing events)
    = (x e).map fun r => (r.1, r.2.retold log tracing events)

namespace Action

variable {α β : Type}

theorem Plain.blind {x : Action α} (plain : x.Plain) : x.Blind := by
  refine ⟨fun e e' traced => ?_⟩
  have there := plain e e.log true e'.events
  have here := plain e e.log e.tracing e.events
  rw [show e.retold e.log true e'.events = e' from traced.same.symm] at there
  rw [show e.retold e.log e.tracing e.events = e from rfl] at here
  rw [there]
  cases run : x e with
  | error h => exact .halted h
  | ok r =>
    rw [run] at here
    have log : r.2 = r.2.retold e.log e.tracing e.events := congrArg Prod.snd (Except.ok.inj here)
    refine .finished r.1 ⟨?_, fun wanted => ?_, ?_⟩
    · conv_rhs => rw [log]
      conv_lhs => rw [log]
      rfl
    · rw [log] at wanted
      obtain rfl := traced.own wanted
      rw [log, show e'.tracing = true from wanted]
      rfl
    · rw [log]
      exact traced.recalls

namespace Blind

open Engine

instance (a : α) : Blind (pure a) := ⟨fun _ _ traced => .finished a traced⟩

theorem andThen {x : Action α} {f : α → Action β} [first : Blind x] (next : ∀ a, Blind (f a)) :
    Blind (x >>= f) := by
  refine ⟨fun e e' traced => ?_⟩
  rw [bind_apply, bind_apply]
  exact (first.agrees traced).bind fun a _ _ traced => (next a).agrees traced

instance {x : Action α} {f : α → Action β} [Blind x] [next : ∀ a, Blind (f a)] : Blind (x >>= f) :=
  andThen next

/-- What is read of an engine is not its trace. -/
instance (priority := high) {f : Engine → Action β}
    [same : ∀ e events, Same (f { e with tracing := true, events := events }) (f e)]
    [next : ∀ e, Blind (f e)] : Blind (get >>= f) := by
  refine ⟨fun e e' traced => ?_⟩
  show (Progress.ofExcept (f e e)).Agrees (Progress.ofExcept (f e' e'))
  have seen : f e' = f e := by
    rw [traced.same]
    exact (same e _).eq
  rw [seen]
  exact (next e).agrees traced

theorem choose {b : Prop} [Decidable b] {x y : Action α} (left : Blind x) (right : Blind y) :
    Blind (if b then x else y) := by
  split
  · exact left
  · exact right

instance {b : Prop} [Decidable b] {x y : Action α} [left : Blind x] [right : Blind y] :
    Blind (if b then x else y) :=
  choose left right

instance {f : Engine → Engine}
    [same : ∀ e log tracing events,
      Same (f { e with log := log, tracing := tracing, events := events })
        { f e with log := log, tracing := tracing, events := events }] :
    Blind (modify f : Action PUnit) := by
  refine Plain.blind fun e log tracing events => ?_
  exact congrArg (fun e => Except.ok ((), e)) (same e log tracing events).eq

instance (f : Arena → Except Halt α) : Blind (readArena f) := by
  refine Plain.blind fun e log tracing events => ?_
  simp only [readArena, retold]
  cases f e.arena <;> rfl

instance (f : Arena → Except Halt Arena) : Blind (changeArena f) := by
  refine Plain.blind fun e log tracing events => ?_
  simp only [changeArena, retold]
  cases f e.arena <;> rfl

instance : Blind (fault : Action α) := ⟨fun _ _ _ => .halted .fault⟩

instance : Blind unhold := by
  refine Plain.blind fun e log tracing events => ?_
  simp only [unhold, retold]
  cases e.roots <;> rfl

instance (n : Nat) : Blind (held n) := by
  refine Plain.blind fun e log tracing events => ?_
  simp only [held, retold]
  cases e.roots[n]? <;> rfl

instance : Blind resume := by
  refine Plain.blind fun e log tracing events => ?_
  simp only [resume, retold]
  cases e.suspended <;> rfl

instance : Blind source := by
  refine Plain.blind fun e log tracing events => ?_
  by_cases valid : e.cursor.isValid e.arena.bytes = true
  · rw [source, source, if_pos valid]
    exact if_pos valid
  · rw [source, source, if_neg valid]
    exact if_neg valid

instance : Blind token := by
  refine Plain.blind fun e log tracing events => ?_
  by_cases invalid : (e.cursor.consumed && !e.cursor.isValid e.arena.bytes) = true
  · rw [token, token, if_pos invalid]
    exact if_pos invalid
  · rw [token, token, if_neg invalid]
    exact if_neg invalid

instance (v : Value) : Blind (Routine.pushArgument v) := by
  refine Plain.blind fun e log tracing events => ?_
  simp only [Routine.pushArgument_eq, retold]
  rcases e.arena.push? v with h | _ | arena <;> rfl

instance (f : Failure) : Blind (fail f) := by
  refine ⟨fun e e' traced => ?_⟩
  obtain ⟨e₁, e₁', here, there, traced₁, -⟩ := traced.fail f
  rw [here, there]
  exact .finished _ traced₁

/-- All reports but those of errors are made alike. -/
theorem reporting {event : Event} (other : event.failure? = none) : Blind (report event) := by
  refine ⟨fun e e' traced => ?_⟩
  obtain ⟨events, here, -⟩ := report_run event e
  obtain ⟨events', there, pushed⟩ := report_run event e'
  have tracing : e'.tracing = true := by rw [traced.same]
  have failures : ({ e' with events := events' } : Engine).failures = e'.failures := by
    simp [Engine.failures, pushed tracing, other]
  rw [here, there]
  refine .finished () ⟨?_, fun wanted => ?_, ?_⟩
  · rw [traced.same]
  · obtain rfl := traced.own wanted
    exact congrArg Prod.snd (Except.ok.inj (there.symm.trans here))
  · exact failures ▸ traced.recalls

instance (offset : UInt32) : Blind (report (.scopeEntered offset)) := reporting rfl

instance (offset : UInt32) : Blind (report (.scopeLeft offset)) := reporting rfl

instance (index : Nat) : Blind (report (.nativeRegistered index)) := reporting rfl

instance (before after : UInt32) : Blind (report (.collected before after)) := reporting rfl

instance : Blind (report .collectionDeferred) := reporting rfl

instance (kind : Kind) (new : Arena → Except Halt (Option (UInt32 × Arena))) :
    Blind (adopt kind new) := by
  refine ⟨fun e e' traced => ?_⟩
  have arena : e'.arena = e.arena := by rw [traced.same]
  simp only [adopt, arena]
  rcases new e.arena with h | _ | ⟨offset, arena⟩
  · exact .halted h
  · exact agrees (x := fail .outOfMemory) traced
  · refine .finished _ ⟨?_, fun wanted => ?_, traced.recalls⟩
    · rw [traced.same]
    · rw [traced.own wanted]

instance (kind : Kind) (n : UInt32) (fill : UInt32 → Arena → Except Halt Arena) :
    Blind (place kind n fill) := by
  rw [place_eq]
  infer_instance

instance (f : Cursor → Cursor) : Blind (changeCursor f) := by
  dsimp only [changeCursor]
  infer_instance

instance (f : Mode → Mode) : Blind (changeMode f) := by
  dsimp only [changeMode]
  infer_instance

instance : Blind noteUse := by
  dsimp only [noteUse]
  infer_instance

instance (v : Value) : Blind (hold v) := by
  dsimp only [hold]
  infer_instance

instance : Blind use := by
  dsimp only [use]
  infer_instance

instance (t : Token) : Blind (expect t) := by
  dsimp only [expect]
  infer_instance

instance : Blind lookahead := by
  dsimp only [lookahead]
  infer_instance

instance (i n : Nat) : Blind (textAt i n) := by
  dsimp only [textAt]
  infer_instance

instance : Blind isDry := by
  dsimp only [isDry]
  infer_instance

instance : Blind malformed := by
  dsimp only [malformed]
  infer_instance

instance (text : ByteArray) : Blind (newString text) := by
  dsimp only [newString]
  infer_instance

instance (parent : UInt32) : Blind (newObject parent) := by
  dsimp only [newObject]
  infer_instance

instance (object key value : Value) : Blind (newProperty object key value) := by
  dsimp only [newProperty]
  infer_instance

instance (v : Value) : Blind (resolve v) := by
  dsimp only [resolve]
  infer_instance

instance (v : Value) : Blind (stringBytes v) := by
  dsimp only [stringBytes]
  infer_instance

instance (v : Value) : Blind (stringLength v) := by
  dsimp only [stringLength]
  infer_instance

instance : Blind enterScope := by
  dsimp only [enterScope]
  infer_instance

instance (target value : Value) : Blind (assign target value) := by
  dsimp only [assign]
  infer_instance

instance (v : Value) : Blind (isTruthy v) := by
  unfold isTruthy
  split <;> infer_instance

instance (left right : Value) {k : Value → Value → Action Value} [∀ l r, Blind (k l r)] :
    Blind (withOperands left right k) := by
  dsimp only [withOperands]
  infer_instance

instance (op : BinaryOp) (l r : Value) : Blind (stringOp op l r) := by
  dsimp only [stringOp, concat]
  split <;> infer_instance

instance (op : BinaryOp) (l r : Value) : Blind (binaryOnValues op l r) := by
  refine choose inferInstance (choose ?_ inferInstance)
  split <;> infer_instance

instance (op : BinaryOp) (left right : Value) : Blind (applyBinary op left right) := by
  dsimp only [applyBinary]
  infer_instance

instance (l r : Value) : Blind (dotOnValues l r) := by
  dsimp only [dotOnValues, spanText, findProperty]
  infer_instance

instance (op : Option BinaryOp) (left right : Value) : Blind (applyAssign op left right) := by
  cases op <;> dsimp only [applyAssign, update] <;> infer_instance

instance : Blind Routine.stringLiteral := by
  dsimp only [Routine.stringLiteral, Routine.placeString]
  infer_instance

instance : Blind Routine.skipArgumentBlanks := by
  dsimp only [Routine.skipArgumentBlanks]
  infer_instance

instance (mode : Mode) : Blind (Routine.restoreMode mode) := by
  dsimp only [Routine.restoreMode]
  infer_instance

instance : Blind Routine.goDry := by
  dsimp only [Routine.goDry]
  infer_instance

instance : Blind Routine.memberKey := by
  dsimp only [Routine.memberKey, tokenText]
  refine andThen fun t => ?_
  split <;> infer_instance

end Blind

end Action

/-! ## Collections -/

namespace Engine

variable (log : ErrorLog) (tracing : Bool) (events : Array Event)

theorem markGarbage_retold (e : Engine) : (e.retold log tracing events).markGarbage
    = e.markGarbage.map (·.retold log tracing events) := by
  show (do
    let offsets ← e.liveOffsets
    let marked ← e.arena.markAll
    return { e.retold log tracing events with arena := ← marked.unmark offsets }) = _
  simp only [markGarbage, bind, Except.bind, pure, Except.pure]
  cases e.liveOffsets with
  | error h => rfl
  | ok offsets =>
    cases e.arena.markAll with
    | error h => rfl
    | ok marked =>
      dsimp only
      cases marked.unmark offsets <;> rfl

theorem remove_retold (e : Engine) (start size : UInt32) :
    (e.retold log tracing events).remove start size
      = (e.remove start size).map (·.retold log tracing events) := by
  show (do
    let arena ← (e.relocateRegisters start size).arena.relocate start size
    return { (e.relocateRegisters start size).retold log tracing events with
      arena := ← arena.slide start size }) = _
  simp only [remove, bind, Except.bind, pure, Except.pure]
  cases (e.relocateRegisters start size).arena.relocate start size with
  | error h => rfl
  | ok arena =>
    dsimp only
    cases arena.slide start size <;> rfl

theorem sweepFrom_retold (bound : Nat) (offset : UInt32) (e : Engine) :
    sweepFrom bound offset (e.retold log tracing events)
      = (sweepFrom bound offset e).map (·.retold log tracing events) := by
  induction bound generalizing offset e with
  | zero => rfl
  | succ bound ih =>
    by_cases stop : e.arena.used ≤ offset
    · rw [sweepFrom, sweepFrom, if_pos stop]
      exact if_pos stop
    · rw [sweepFrom, sweepFrom, if_neg stop]
      refine (if_neg stop).trans ?_
      show Except.bind (e.arena.load32 offset) _
        = Except.map _ (Except.bind (e.arena.load32 offset) _)
      cases e.arena.load32 offset with
      | error h => rfl
      | ok header =>
        simp only [Except.bind]
        split
        · rw [remove_retold]
          cases e.remove offset (Arena.entitySize (Arena.unmarked header)) with
          | error h => rfl
          | ok e' => exact ih _ e'
        · exact ih _ e

/-- Marks what cannot be reached and takes it out. -/
def dispose : Action Unit := fun e => (e.markGarbage >>= sweep).map fun e' => ((), e')

theorem collectNow_eq_dispose : collectNow = (do
    modify fun e => { e with collectPending := false }
    noteUse
    let before := (← get).arena.used
    dispose
    report (.collected before (← get).arena.used)) := by
  funext e
  have disposing : ∀ (e : Engine) (k : Engine → Except Halt (Unit × Engine)),
      (Except.bind (Except.bind e.markGarbage fun g => .ok (g, e)) fun r =>
          Except.bind (Except.bind r.1.sweep fun s => .ok (s, r.2)) fun r => k r.1)
        = Except.bind (dispose e) fun r => k r.2 := by
    intro e k
    rw [dispose]
    cases e.markGarbage with
    | error h => rfl
    | ok g =>
      show Except.bind (Except.bind g.sweep _) _ = Except.bind (Except.map _ g.sweep) _
      cases g.sweep <;> rfl
  exact disposing _ fun s => report (.collected _ s.arena.used) s

end Engine

instance : Action.Blind Engine.dispose := by
  refine Action.Plain.blind fun e log tracing events => ?_
  rw [Engine.dispose, Engine.dispose, Engine.markGarbage_retold]
  cases e.markGarbage with
  | error h => rfl
  | ok g =>
    show Except.map _ (Engine.sweepFrom g.arena.chainBound 0 (g.retold log tracing events))
      = Except.map _ (Except.map _ (Engine.sweepFrom g.arena.chainBound 0 g))
    rw [Engine.sweepFrom_retold]
    cases Engine.sweepFrom g.arena.chainBound 0 g <;> rfl

/-- A collection moves the entities of both engines alike. -/
instance : Action.Blind Engine.collectNow := by
  rw [Engine.collectNow_eq_dispose]
  infer_instance

namespace Routine.Blind

open Engine

variable {α β : Type}

instance (a : α) : Blind (pure a) := ⟨fun _ _ traced => .finished a traced⟩

theorem andThen {x : Routine α} {f : α → Routine β} [first : Blind x] (next : ∀ a, Blind (f a)) :
    Blind (x >>= f) :=
  ⟨fun _ _ traced => (first.agrees traced).bind fun a _ _ traced => (next a).agrees traced⟩

instance {x : Routine α} {f : α → Routine β} [Blind x] [next : ∀ a, Blind (f a)] :
    Blind (x >>= f) :=
  andThen next

instance {x : Action α} [blind : x.Blind] : Blind (liftM x : Routine α) :=
  ⟨fun _ _ traced => blind.agrees traced⟩

/-- What is read of an engine is not its trace. -/
theorem looking {f : Engine → Routine β}
    (same : ∀ e events, f { e with tracing := true, events := events } = f e)
    (next : ∀ e, Blind (f e)) : Blind (get >>= f) := by
  refine ⟨fun e e' traced => ?_⟩
  show (f e e).Agrees (f e' e')
  have seen : f e' = f e := by
    rw [traced.same]
    exact same e _
  rw [seen]
  exact (next e).agrees traced

instance (priority := high) {f : Engine → Routine β}
    [same : ∀ e events, Same (f { e with tracing := true, events := events }) (f e)]
    [next : ∀ e, Blind (f e)] : Blind (get >>= f) :=
  looking (fun e events => (same e events).eq) next

instance {f : Engine → Engine}
    [same : ∀ e log tracing events,
      Same (f { e with log := log, tracing := tracing, events := events })
        { f e with log := log, tracing := tracing, events := events }] :
    Blind (modify f : Routine PUnit) :=
  ⟨fun _ _ traced => Action.Blind.agrees (x := modify f) traced⟩

theorem choose {b : Prop} [Decidable b] {x y : Routine α} (left : Blind x) (right : Blind y) :
    Blind (if b then x else y) := by
  split
  · exact left
  · exact right

instance {b : Prop} [Decidable b] {x y : Routine α} [left : Blind x] [right : Blind y] :
    Blind (if b then x else y) :=
  choose left right

instance (q : Production) : Blind (call q) :=
  ⟨fun _ _ traced => .waiting q traced fun v _ _ traced => .finished v traced⟩

instance (v : Value) : Blind (give v) := by
  dsimp only [give]
  infer_instance

instance (q : Production) : Blind (goOn q) := by
  dsimp only [goOn]
  infer_instance

instance (v : Value) (q : Production) : Blind (holding v q) := by
  dsimp only [holding]
  infer_instance

instance (left : Value) : Blind (assignmentRest left) := by
  refine choose inferInstance (andThen fun t => ?_)
  split <;> infer_instance

instance (level : Nat) (left : Value) : Blind (binaryRest level left) := by
  refine choose inferInstance (andThen fun t => ?_)
  split <;> infer_instance

instance : Blind stepped := by
  dsimp only [stepped, applyStep, update]
  refine andThen fun v => choose inferInstance (andThen fun t => ?_)
  split <;> infer_instance

instance : Blind unary := by
  dsimp only [unary, applyUnary, unaryOnValue, power]
  refine andThen fun t => ?_
  split <;> infer_instance

instance : Blind primary := by
  dsimp only [primary, objectLiteral, functionLiteral, checkBody]
  refine andThen fun t => andThen fun _ => looking (fun _ _ => rfl) fun e => ?_
  refine choose inferInstance (andThen fun _ => looking (fun _ _ => rfl) fun e => ?_)
  split <;> infer_instance

instance : Blind group := by
  dsimp only [group]
  infer_instance

/-- A host program asks both engines the same. -/
theorem first {offset : UInt32} {count : Nat} {p : HostProgram} {r : HostProgram.Request}
    (first : p.first? offset count = some r) : r.routine.Blind := by
  cases p <;> cases first <;> dsimp only [argument, setProperty, getProperty, findProperty,
    listProperties, stringBytes?, registerNative, collect, stats, statsBy, dump, render,
    writeOutput] <;>
    infer_instance

instance (offset : UInt32) (count : Nat) (p : HostProgram) : Blind (ofProgram offset count p) := by
  induction p using HostProgram.induction offset count with
  | step p ih =>
    cases request : p.first? offset count with
    | none =>
      cases p with
      | done value => exact inferInstanceAs (Blind (pure value))
      | _ => cases request
    | some r =>
      refine ⟨fun e e' traced => ?_⟩
      rw [ofProgram_eq request, ofProgram_eq request]
      exact ((first request).agrees traced).bind fun a _ _ traced => (ih r request a).agrees traced

instance (index : Nat) (count : UInt32) : Blind (runNative index count) := by
  dsimp only [runNative, dropArguments]
  refine andThen fun _ => looking (fun _ _ => rfl) fun e => ?_
  split <;> infer_instance

instance (function : Value) : Blind (callFunction function) := by
  dsimp only [callFunction]
  infer_instance

instance (native : Value) : Blind (callNative native) := by
  dsimp only [callNative]
  infer_instance

instance (function arguments : Value) : Blind (callValue function arguments) := by
  dsimp only [callValue, pinnedValue, suspend]
  infer_instance

instance (v : Value) : Blind (accessRest v) := by
  dsimp only [accessRest, applyDot, argumentSpan, applyCall]
  refine andThen fun t => ?_
  split <;> infer_instance

instance : Blind body := by
  dsimp only [body]
  infer_instance

instance (taken execute : Bool) (v : Value) : Blind (elseBranch taken execute v) := by
  dsimp only [elseBranch]
  infer_instance

instance : Blind loopStart := by
  dsimp only [loopStart, declaration]
  refine andThen fun t => ?_
  split <;> infer_instance

instance : Blind openStatement := by
  dsimp only [openStatement, tokenText, declaration, choice, loop,
    loopInScope, loopParts, optional, leaveScope, jump, returnStatement, returnValue]
  refine andThen fun t => ?_
  split <;> infer_instance

end Routine.Blind

/-- All routines go the same way with a trace. -/
theorem Production.routine_blind (q : Production) : q.routine.Blind := by
  -- routines that branch on a token have instances, the others are taken apart here
  cases q <;> dsimp only [routine, Routine.expression, Routine.assignment, Routine.conditional,
    Routine.chooseFirst, Routine.chooseSecond, Routine.logical, Routine.logicalRest, Routine.binary,
    Routine.access, Engine.spanText, Engine.lookup, Routine.members, Routine.addMember,
    Routine.parameters, Routine.argumentList, Routine.pushArguments, Routine.dropArguments,
    Routine.bindParameters, Routine.nextArgument, Routine.skipArgumentComma, Routine.enterBody,
    Routine.runBody, Routine.calleeText, Routine.block, Engine.leaveScope, Routine.blockRest,
    Routine.bindings, Routine.initializer, Routine.declare, Engine.findProperty, Routine.rounds,
    Routine.optional, Routine.loopCondition, Routine.leaveLoop, Routine.statement,
    Engine.collectIfDue, Routine.script, Routine.evaluate, Engine.suspend] <;> infer_instance

/-! ## Runs -/

theorem Action.Blind.ok {α : Type} {x : Action α} [blind : x.Blind] {e e' e₁ : Engine} {a : α}
    (traced : e.TracedBy e') (run : x e = .ok (a, e₁)) :
    ∃ e₁', x e' = .ok (a, e₁') ∧ e₁.TracedBy e₁' := by
  have agrees := blind.agrees traced
  rw [run] at agrees
  cases other : x e' with
  | error h =>
    rw [other] at agrees
    cases agrees
  | ok r =>
    rw [other] at agrees
    cases agrees with
    | finished _ traced₁ => exact ⟨_, rfl, traced₁⟩

/-- The answers of productions settle both routines alike. -/
theorem Progress.Agrees.settle {α : Type} {bound : Nat}
    (answers : ∀ (q : Production) (e e' : Engine) (o : Value × Engine), e.TracedBy e' →
      q.perform bound e = .ok o → ∃ e₁', q.perform bound e' = .ok (o.1, e₁') ∧ o.2.TracedBy e₁')
    {p p' : Progress (α × Engine)} (agrees : p.Agrees p') {r : α × Engine}
    (settled : Production.settle (Production.perform bound) p = .ok r) :
    ∃ e₁', Production.settle (Production.perform bound) p' = .ok (r.1, e₁')
      ∧ r.2.TracedBy e₁' := by
  induction agrees with
  | finished a traced =>
    cases settled
    exact ⟨_, rfl, traced⟩
  | halted h => cases settled
  | @waiting q e e' k k' traced _ ih =>
    simp only [Production.settle] at settled ⊢
    cases answer : q.perform bound e with
    | error h => simp only [answer, reduceCtorEq] at settled
    | ok o =>
      simp only [answer] at settled
      obtain ⟨e₁', answer', traced₁⟩ := answers q e e' o traced answer
      simp only [answer']
      exact ih o.1 o.2 e₁' traced₁ settled

/-- Productions come to the same outcome with a trace. -/
theorem Production.perform_traced (bound : Nat) (q : Production) (e e' : Engine)
    (o : Value × Engine) (traced : e.TracedBy e') (performs : q.perform bound e = .ok o) :
    ∃ e₁', q.perform bound e' = .ok (o.1, e₁') ∧ o.2.TracedBy e₁' := by
  induction bound generalizing q e e' o with
  | zero => cases performs
  | succ bound ih =>
    rw [perform] at performs ⊢
    split at performs
    · next v e₁ settled =>
      cases performs
      obtain ⟨e₁', settled', traced₁⟩ := (q.routine_blind.agrees traced).settle ih settled
      rw [settled']
      exact ⟨e₁', rfl, traced₁⟩
    · next next e₁ settled =>
      obtain ⟨e₁', settled', traced₁⟩ := (q.routine_blind.agrees traced).settle ih settled
      rw [settled']
      exact ih next e₁ e₁' o traced₁ performs
    · cases performs

theorem Production.Performs.traced {q : Production} {e e' : Engine} {o : Value × Engine}
    (performs : q.Performs e o) (traced : e.TracedBy e') :
    ∃ e₁', q.Performs e' (o.1, e₁') ∧ o.2.TracedBy e₁' := by
  obtain ⟨bound, performs⟩ := performs
  obtain ⟨e₁', performs', traced₁⟩ := perform_traced bound q e e' o traced performs
  exact ⟨e₁', ⟨bound, performs'⟩, traced₁⟩

namespace Progress

variable {α : Type} {p p' : Progress (α × Engine)}

/-- Routines end alike. -/
theorem Ends.traced {r : α × Engine} (ends : p.Ends r) (agrees : p.Agrees p') :
    ∃ e₁', p'.Ends (r.1, e₁') ∧ r.2.TracedBy e₁' := by
  induction ends generalizing p' with
  | finished r =>
    cases agrees with
    | finished a traced => exact ⟨_, .finished _, traced⟩
  | waiting performs _ ih =>
    cases agrees with
    | waiting q traced next =>
      obtain ⟨e₁', performs', traced₁⟩ := performs.traced traced
      obtain ⟨e₂', ends', traced₂⟩ := ih (next _ _ _ traced₁)
      exact ⟨e₂', .waiting performs' ends', traced₂⟩

/-- Routines wait for the same productions. -/
theorem Asks.traced {q : Production} {e : Engine} (asks : p.Asks q e) (agrees : p.Agrees p') :
    ∃ e', p'.Asks q e' ∧ e.TracedBy e' := by
  induction asks generalizing p' with
  | now q e k =>
    cases agrees with
    | waiting _ traced next => exact ⟨_, .now _ _ _, traced⟩
  | later performs _ ih =>
    cases agrees with
    | waiting _ traced next =>
      obtain ⟨e₁', performs', traced₁⟩ := performs.traced traced
      obtain ⟨e₂', asks', traced₂⟩ := ih (next _ _ _ traced₁)
      exact ⟨e₂', .later performs' asks', traced₂⟩

end Progress

/-- The same is performed in the course of a production. -/
theorem Production.Within.traced {q q₁ : Production} {e e' e₁ : Engine} (within : q.Within e q₁ e₁)
    (traced : e.TracedBy e') : ∃ e₁', q.Within e' q₁ e₁' ∧ e₁.TracedBy e₁' := by
  induction within with
  | self => exact ⟨e', .self, traced⟩
  | asked _ asks ih =>
    obtain ⟨e₂', within', traced₂⟩ := ih
    obtain ⟨e₃', asks', traced₃⟩ := asks.traced ((routine_blind _).agrees traced₂)
    exact ⟨e₃', .asked within' asks', traced₃⟩
  | goesOn _ ends ih =>
    obtain ⟨e₂', within', traced₂⟩ := ih
    obtain ⟨e₃', ends', traced₃⟩ := ends.traced ((routine_blind _).agrees traced₂)
    exact ⟨e₃', .goesOn within' ends', traced₃⟩

end ArenaScript

