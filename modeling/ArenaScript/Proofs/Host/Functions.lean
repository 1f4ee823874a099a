import ArenaScript.Proofs.Evaluate.Functions
import ArenaScript.Proofs.Host.Arguments
import ArenaScript.Proofs.Host.Blocks
import ArenaScript.Proofs.Host.Store
import ArenaScript.Proofs.Syntax.Literals

/-!
# Functions that are shown and read back

A function is shown as the keyword and its text.  An engine at rest that evaluates what is
shown makes a function of the same text: the text has been read once where the literal
stood, so it can be read again, and the literal is nested no deeper now.

Main definitions:

- `Engine.IsFunction`, `Engine.IsFull`: functions with a text, and errors for want of memory.
- `Production.Heads`: where function literals are executed.

Main results:

- `Closed.evaluate`: texts that are lone expressions.
- `Engine.Sound.evaluate_shownFunction`: the evaluation of a function that is shown.
- `Engine.functions_evaluate_back`: functions in a session.
-/

namespace ArenaScript

open Engine Grammar

/-! ## Texts that are lone expressions -/

namespace Closed

variable {text : ByteArray} {e e₁ : Engine} {o : Value × Engine}

/-- The end of the text is seen again after it has been used up. -/
def EndsAgain (o : Value × Engine) : Prop :=
  o.1.isError = false → o.2.cursor.isValid o.2.arena.bytes = true
    ∧ (o.2.cursor.use.advance o.2.arena.bytes).token = .eof

/-- A function literal that nothing follows as a statement. -/
theorem statement (closed : Closed e₁.mode o) (collected : collectIfDue e = .ok ((), e₁))
    (seen : e₁.cursor.consumed = false) (word : e₁.cursor.token = .keyword .functionKw)
    (value : o.1.kind ≠ .property) (ends : EndsAgain o)
    (inner : Production.access.Performs { e₁ with depth := e₁.depth + 1 } o) :
    ∃ e₂ c, Production.statement.Performs e (o.1, e₂)
      ∧ Engine.token e₂ = .ok (.eof, { e₂ with cursor := c })
      ∧ e₂.arena = o.2.arena ∧ e₂.suspended = o.2.suspended := by
  have expression := closed.expression inner seen (by rw [word]; rfl)
  have opens : Routine.openStatement e₁
      = (do resolve (← Routine.call .expression) : Routine Value) e₁ := by
    simp only [Routine.openStatement, Routine.steps, token_of_seen seen, word]
    rfl
  cases error : o.1.isError with
  | true =>
    refine ⟨{ o.2 with depth := o.2.depth - 1 }, o.2.cursor, performs_of_routine ?_, ?_, rfl, rfl⟩
    · simp only [Production.routine, Routine.statement, Routine.steps, collected, opens]
      refine after_call expression ?_
      simp only [resolve_of_kind_ne value, error, Routine.steps]
      exact .finished (Production.leads_value rfl)
    · rw [← closed.last]
      exact token_of_seen closed.seen
  | false =>
    obtain ⟨valid, eof⟩ := ends error
    have token := token_of_seen (e := { o.2 with depth := o.2.depth - 1 }) closed.seen
    have used : Engine.use { o.2 with depth := o.2.depth - 1 }
      = .ok ((), { o.2 with depth := o.2.depth - 1, cursor := o.2.cursor.use }) := rfl
    refine ⟨{ o.2 with depth := o.2.depth - 1, cursor := o.2.cursor.use },
      o.2.cursor.use.advance o.2.arena.bytes, performs_of_routine ?_, ?_, rfl, rfl⟩
    · simp only [Production.routine, Routine.statement, Routine.steps, collected, opens]
      refine after_call expression ?_
      simp only [resolve_of_kind_ne value, error, token, closed.last, Routine.endsStatement, used,
        Routine.steps]
      exact .finished (Production.leads_value rfl)
    · replace valid : o.2.cursor.use.isValid o.2.arena.bytes = true := valid
      simp only [Engine.token, valid, Bool.not_true, Bool.and_false, Bool.false_eq_true, if_false,
        eof]

/-- A text that is a lone expression comes to what the expression comes to. -/
theorem evaluate (closed : Closed e₁.mode o) {c u : Cursor} {us : List Cursor}
    (first : (Cursor.ofText text).advance e.arena.bytes = c)
    (collected : collectIfDue { Routine.enterText text e with cursor := c } = .ok ((), e₁))
    (here : e₁.cursor = c) (seen : c.consumed = false) (word : c.token = .keyword .functionKw)
    (suspended : e₁.suspended = u :: us) (value : o.1.kind ≠ .property)
    (same : o.2.suspended = e₁.suspended) (ends : EndsAgain o)
    (inner : Production.access.Performs { e₁ with depth := e₁.depth + 1 } o) :
    ∃ e', (Production.evaluate text).Performs e (o.1, e') ∧ e'.arena = o.2.arena := by
  subst here
  obtain ⟨e₂, c', statement, last, arena, same'⟩ :=
    closed.statement collected seen word value ends inner
  have token : Engine.token (Routine.enterText text e)
      = .ok (e₁.cursor.token, { Routine.enterText text e with cursor := e₁.cursor }) :=
    token_of_host rfl rfl first
  have script : (Production.script .undefined).Performs (Routine.enterText text e)
      (o.1, { e₂ with cursor := c' }) := by
    refine performs_of_routine ?_
    simp only [Production.routine, Routine.script, Routine.steps, token, word, reduceCtorEq,
      decide_false, Bool.false_or, show Value.undefined.isError = false from rfl]
    refine after_call statement ?_
    refine .finished (Production.leads_goOn ⟨_, performs_of_routine ?_, rfl⟩)
    simp only [Production.routine, Routine.script, Routine.steps, last]
    exact .finished (Production.leads_value rfl)
  have set : e₂.suspended = u :: us := (same'.trans same).trans suspended
  refine ⟨{ e₂ with evaluations := e₂.evaluations - 1, cursor := u, suspended := us, mode := e.mode
    },
    performs_of_routine ?_, arena⟩
  simp only [Production.routine, Routine.evaluate_eq]
  refine after_call script ?_
  simp only [Routine.leaveText_apply (e := { e₂ with cursor := c' }) set, Routine.steps]
  exact .finished (Production.leads_value rfl)

end Closed

/-! ## New functions -/

/-- There is no token at the end of a text of the host. -/
theorem Cursor.advance_of_end {c : Cursor} {text : ByteArray} (origin : c.origin = .host text 0)
    (length : c.length = text.size) (pos : c.pos = text.size) (used : c.consumed = true)
    (arena : ByteArray) : c.advance arena = { c with
      token := .eof
      tokenStart := text.size
      tokenLength := 0
      consumed := false } := by
  have source : c.source arena = (Cursor.onLiteral text).source arena := by
    simp [Cursor.source, origin, length, Cursor.onLiteral, Cursor.ofText, Cursor.start]
  rw [Cursor.advance, if_pos used, pos, source, Cursor.scan_pastLiteral]
  simp [Cursor.accept]

namespace Engine

variable {e e' : Engine} {h : Heap} {scratch : List Value} {source : ByteArray}

/-- A value is an error for want of memory. -/
def IsFull (v : Value) : Prop := v.isError = true ∧ ErrorLog.kind v = Failure.outOfMemory.kind

/-- A value is a function with a text. -/
def IsFunction (e : Engine) (source : ByteArray) (v : Value) : Prop :=
  v.kind = .function ∧ e.arena.stringBytes v.offset = .ok source

theorem fail_full (e : Engine) : ∃ o, fail .outOfMemory e = .ok o ∧ IsFull o.1
    ∧ o.2.cursor.consumed = false ∧ o.2.cursor.token = .eof ∧ o.2.suspended = e.suspended := by
  refine ⟨_, rfl, ⟨?_, ErrorLog.kind_lastValue _ _⟩, ?_, ?_, ?_⟩
  · rw [Value.isError, ErrorLog.lastValue, Value.kind_box]
    rfl
  all_goals
    dsimp only
    split <;> rfl

theorem stringBytes_append (holds : e.arena.Holds h scratch) {a : Arena}
    (grown : a.Holds (h ++ [⟨.string source, false⟩]) scratch) :
    a.stringBytes e.arena.used = .ok source := by
  refine grown.stringBytes_eq ?_
  rw [← holds.extent_eq, Heap.at?_middle]

/-- There is no room for a function, or it is made. -/
theorem newFunction_cases (holds : e.arena.Holds h scratch) (small : e.arena.limit.toNat ≤ 2 ^ 29)
    (short : source.size < 2 ^ 31) :
    ∃ o, (Routine.newFunction source e).Ends o
      ∧ ((IsFull o.1 ∧ o.2.cursor.consumed = false ∧ o.2.cursor.token = .eof
          ∧ o.2.suspended = e.suspended)
        ∨ ∃ a, o.2 = { e with arena := a } ∧ o.2.IsFunction source o.1) := by
  obtain ⟨r, run, grown⟩ := holds.newString?_eq small short
  cases r with
  | none =>
    obtain ⟨o, failed, full⟩ := fail_full e
    have string : newString source e = .ok o := by rw [newString_eq, adopt, run, failed]
    refine ⟨o, ?_, .inl full⟩
    simp only [Routine.newFunction, Routine.steps, string, full.1.1]
    exact .finished _
  | some r =>
    obtain ⟨used, a⟩ := r
    obtain ⟨rfl, holds', -⟩ := grown
    have string : newString source e = .ok (.ref .string e.arena.used, { e with arena := a }) := by
      rw [newString_eq, adopt, run]
    have fine : (Value.ref .string e.arena.used).isError = false := by
      rw [Value.isError, Value.kind_ref]
      rfl
    refine ⟨(.ref .function e.arena.used, { e with arena := a }), ?_,
      .inr ⟨a, rfl, Value.kind_ref _ _, ?_⟩⟩
    · simp only [Routine.newFunction, Routine.steps, string, fine, Value.offset_ref]
      exact .finished _
    · rw [Value.offset_ref]
      exact stringBytes_append holds holds'

/-- A function that has been made has the text. -/
theorem isFunction_of_newFunction (holds : e.arena.Holds h scratch)
    (small : e.arena.bytes.size ≤ 2 ^ 29) {f : Value}
    (ends : (Routine.newFunction source e).Ends (f, e')) (fine : f.isError = false) :
    source.size < 2 ^ 31 ∧ e'.IsFunction source f := by
  have short : source.size < 2 ^ 31 := by
    by_contra large
    have large : e.arena.bytes.size < source.size := by omega
    rcases Arena.newString?_large large with full | fault
    · obtain ⟨o, failed, full', -⟩ := fail_full e
      have string : newString source e = .ok o := by rw [newString_eq, adopt, full, failed]
      simp only [Routine.newFunction, Routine.steps, string, full'.1, if_true] at ends
      cases ends
      rw [full'.1] at fine
      cases fine
    · have string : newString source e = .error .fault := by rw [newString_eq, adopt, fault]
      simp only [Routine.newFunction, Routine.steps, string] at ends
      cases ends
  obtain ⟨o, ends', outcome⟩ := newFunction_cases holds
    (holds.limit_le_size.trans small) short
  obtain rfl := ends.unique ends'
  rcases outcome with ⟨full, -⟩ | ⟨a, -, made⟩
  · rw [full.1] at fine
    cases fine
  · exact ⟨short, made⟩

/-! ## Functions that are shown -/

theorem Passes.holds (passes : e.Passes e') (holds : e.arena.Holds h scratch) :
    e'.arena.Holds h scratch := by
  obtain ⟨⟨low, log, cursor, deepest, failures, -, rfl⟩, -, -⟩ := passes
  exact ⟨holds.records, holds.extent_eq, holds.used_le, holds.words, holds.room, holds.top_aligned,
    holds.top_le, holds.used_small⟩

theorem Passes.size_eq (passes : e.Passes e') : e'.arena.bytes.size = e.arena.bytes.size := by
  obtain ⟨⟨low, log, cursor, deepest, failures, -, rfl⟩, -, -⟩ := passes
  rfl

theorem Passes.suspended_eq (passes : e.Passes e') : e'.suspended = e.suspended := by
  obtain ⟨⟨low, log, cursor, deepest, failures, -, rfl⟩, -, -⟩ := passes
  rfl

/-- The outcome of a lone function literal: there is no room for it, or it is made. -/
structure Shows (e : Engine) (source : ByteArray) (o : Value × Engine) : Prop where
  closed : Closed e.mode o
  ends : Closed.EndsAgain o
  suspended : o.2.suspended = e.suspended
  outcome : IsFull o.1 ∨ o.2.IsFunction source o.1

/-- A function literal that nothing follows. -/
theorem shows_access {text : ByteArray} {e₁ : Engine} (holds : e.arena.Holds h scratch)
    (small : e.arena.bytes.size ≤ 2 ^ 29) (short : source.size < 2 ^ 31)
    (origin : e.cursor.origin = .host text 0) (length : e.cursor.length = text.size)
    (makes : e.MakesFunction source e₁) (pos : e₁.cursor.pos = text.size) :
    ∃ o, Production.access.Performs e o ∧ e.Shows source o := by
  obtain ⟨passes, used, ends⟩ := makes
  have holds₁ := passes.holds holds
  obtain ⟨o, made, outcome⟩ := newFunction_cases holds₁
    (holds₁.limit_le_size.trans (passes.size_eq.trans_le small)) short
  have group := (ends o).mpr made
  rcases outcome with ⟨full, seen, last, suspended⟩ | ⟨a, eq, function⟩
  · refine ⟨o, Closed.performs_of_routine ?_, ⟨seen, last, fun fine => ?_⟩, fun fine => ?_,
      suspended.trans passes.suspended_eq, .inl full⟩
    · simp only [Production.routine, Routine.access, Routine.steps]
      refine Progress.Reaches.bind (P := (· = o)) ⟨o, group, rfl⟩ fun r same => ?_
      subst same
      simp only [full.1, if_true]
      exact .finished (Production.leads_value rfl)
    all_goals
      rw [full.1] at fine
      cases fine
  · obtain ⟨v, e₂⟩ := o
    obtain rfl : e₂ = { e₁ with arena := a } := eq
    have fine : v.isError = false := by
      rw [Value.isError, function.1]
      rfl
    have origin₁ := passes.rises.origin.trans origin
    have length₁ := passes.rises.length.trans length
    have advance := Cursor.advance_of_end origin₁ length₁ pos used
    generalize last : { e₁.cursor with
      token := .eof, tokenStart := text.size, tokenLength := 0, consumed := false } = c at advance
    have token : Engine.token { e₁ with arena := a }
        = .ok (.eof, { e₁ with arena := a, cursor := c }) := by
      have token := token_of_host (e := { e₁ with arena := a }) origin₁ length₁ (advance a.bytes)
      rwa [show c.token = .eof by rw [← last]] at token
    have origin₂ : c.use.origin = .host text 0 := by
      rw [← last]
      exact origin₁
    have again := Cursor.advance_of_end origin₂ (by rw [← last]; exact length₁)
      (by rw [← last]; exact pos) rfl
    refine ⟨(v, { e₁ with arena := a, cursor := c }), Closed.performs_of_routine ?_,
      ⟨by rw [← last], by rw [← last], fun _ => passes.mode_eq⟩, fun _ => ⟨?_, ?_⟩,
      passes.suspended_eq, .inr function⟩
    · simp only [Production.routine, Routine.access, Routine.steps]
      refine Progress.Reaches.bind (P := (· = (v, { e₁ with arena := a }))) ⟨_, group, rfl⟩
        fun r same => ?_
      subst same
      simp only [fine, function.1, reduceCtorEq]
      refine .finished (Production.leads_goOn ⟨_, Closed.performs_of_routine ?_, rfl⟩)
      simp only [Production.routine, Routine.accessRest, Routine.steps, token]
      exact .finished (Production.leads_value rfl)
    · rw [← last]
      simp [Cursor.isValid, Cursor.source, origin₁, length₁]
    · simp only [again]

end Engine

section

variable {source : ByteArray} (paren : (Source.ofBytes source).holds 0 '(' = true)
include paren

theorem Cursor.advance_ofText_shownFunction (arena : ByteArray) :
    (Cursor.ofText (shownFunction source)).advance arena = .onFunction source := by
  rw [Cursor.advance, if_pos (by rfl)]
  show Cursor.accept _ ((Source.ofBytes (shownFunction source)).scan 0) = _
  rw [shownFunction, Source.scan_function paren]
  rfl

/-- The evaluation of a function that is shown. -/
theorem Engine.Sound.evaluate_shownFunction {e : Engine} {h : Heap} {scratch : List Value}
    (sound : e.Sound h scratch) (small : e.arena.bytes.size ≤ 2 ^ 29)
    (short : source.size < 2 ^ 31)
    (makes : ∀ e' : Engine, e'.cursor = .onFunction source → e'.mode.dry = false →
      e'.depth = e.depth + 1 → e'.maxDepth = e.maxDepth →
      ∃ e₁, e'.MakesFunction source e₁ ∧ e₁.cursor.pos = (shownFunction source).size) :
    ∃ o, (Production.evaluate (shownFunction source)).Performs e o
      ∧ (IsFull o.1 ∨ o.2.IsFunction source o.1) := by
  have entered : Engine.Sound { Routine.enterText (shownFunction source) e with
      cursor := .onFunction source } h scratch :=
    ⟨sound.holds, sound.heap, sound.scope, sound.pinned, sound.result, sound.roots, sound.scratch⟩
  obtain ⟨e₁, h', m, u, kept, collected, moved, -⟩ := entered.collectIfDue_eq
  obtain ⟨deepest, pending, events, registers⟩ := moved.registers
  have here : e₁.cursor = .onFunction source := by
    rw [registers]
    exact moved.host _ _ _ rfl
  have mode : e₁.mode = {} := by
    rw [registers]
    rfl
  have depth : e₁.depth = e.depth ∧ e₁.maxDepth = e.maxDepth := by
    rw [registers]
    exact ⟨rfl, rfl⟩
  have suspended : e₁.suspended = u e.cursor :: e.suspended.map u := by
    rw [registers]
    rfl
  obtain ⟨e₂, deeper⟩ : ∃ e₂ : Engine, e₂ = { e₁ with depth := e₁.depth + 1 } := ⟨_, rfl⟩
  have here₂ : e₂.cursor = .onFunction source := by
    rw [deeper]
    exact here
  obtain ⟨e₃, makes, pos⟩ := makes e₂ here₂ (by rw [deeper]; exact congrArg Mode.dry mode)
    (by rw [deeper]; exact congrArg (· + 1) depth.1) (by rw [deeper]; exact depth.2)
  have holds : e₂.arena.Holds h' (scratch.map (Value.move m)) := by
    rw [deeper]
    exact moved.sound.holds
  have size : e₂.arena.bytes.size ≤ 2 ^ 29 := by
    rw [deeper]
    exact moved.block.size_eq.trans_le small
  obtain ⟨o, access, shows⟩ := Engine.shows_access holds size short
    (congrArg Cursor.origin here₂) (congrArg Cursor.length here₂) makes pos
  subst deeper
  have value : o.1.kind ≠ .property := by
    intro kind
    rcases shows.outcome with full | function
    · have error := full.1
      rw [Value.isError, kind] at error
      cases error
    · cases function.1.symm.trans kind
  have closed : Closed e₁.mode o := shows.closed
  obtain ⟨e', evaluate, arena⟩ := closed.evaluate
    (Cursor.advance_ofText_shownFunction paren e.arena.bytes) collected here rfl rfl suspended value
     shows.suspended shows.ends access
  refine ⟨(o.1, e'), evaluate, shows.outcome.imp_right fun function => ⟨function.1, ?_⟩⟩
  rw [arena]
  exact function.2

end

/-! ## Function literals in a session -/

/-- A production reads a literal, a name or a group of its own on an engine: at the start of
a chain of accesses, or behind a dot. -/
inductive Production.Heads : Production → Engine → Engine → Prop
  | access (e : Engine) : Heads .access e e
  | accessRest {v : Value} {e e₁ : Engine} (dot : Engine.token e = .ok (.dot, e₁)) :
      Heads (.accessRest v) e { e₁ with cursor := e₁.cursor.use, roots := v :: e₁.roots }

namespace Lockstep

variable {w : World Unit} {s : Standing Unit} {c : Current} {e : Engine}

theorem Ready.heads [Rules Unit] {q : Production} {role : Role Unit} {e₀ : Engine}
    (ready : Ready w s c (fun _ => q) role) (alike : Alike w s c fun _ => e) (heads : q.Heads e e₀) :
    ∃ s' c', Alike w s' c' (fun _ => e₀) ∧ 0 < s'.depth := by
  generalize same : (fun _ : Unit => q) = q' at ready
  have same := congrFun same ()
  cases heads with
  | access =>
    cases ready with
    | access deep => exact ⟨s, c, alike, deep⟩
    | _ => cases same
  | accessRest dot =>
    cases ready with
    | accessRest deep related operand =>
      cases same
      obtain ⟨e₁, token, alike₁⟩ := alike.token
      obtain ⟨-, rfl⟩ := Prod.mk.inj (Except.ok.inj (dot.symm.trans (token ())))
      obtain ⟨e₂, use, alike₂⟩ := alike₁.use
      obtain ⟨e₃, hold, alike₃⟩ := alike₂.holdAll related
      cases funext fun i => (Prod.mk.inj (Except.ok.inj (use i))).2
      cases funext fun i => (Prod.mk.inj (Except.ok.inj (hold i))).2
      exact ⟨_, _, alike₃, deep⟩
    | _ => cases same

end Lockstep

namespace Engine

variable {e : Engine} {source : ByteArray} {v : Value}

theorem IsFunction.render_eq (function : e.IsFunction source v) :
    render v e = .ok (shownFunction source, e) := by
  have fine : v.isError = false := by
    rw [Value.isError, function.1]
    rfl
  simp only [render, fine, Bool.false_eq_true, if_false, readArena, Arena.render, Arena.renderWithin,
    function.1, function.2]
  rfl

variable {length : Nat} {settings : List Setting} {p : HostProgram}

/-- Functions are shown as source that evaluates back.  Wherever a function literal is
executed in a session, in a text of the host or of the arena, it makes a function of some text.
A function of that text is shown by any engine of the session at rest, and the evaluation
of what is shown under the same limit of nesting gives a function of the same text, which is
shown alike, unless there is no room for it. -/
theorem functions_evaluate_back (small : length ≤ 2 ^ 29)
    (made : create? length settings = some e) (behaves : p.Behaves e) {outer : ByteArray}
    {next : Value → HostProgram} {e₀ e₁ e₂ e₃ : Engine} {q : Production} {f : Value}
    (comes : p.Comes 0 0 e (.evaluate outer next) e₀)
    (within : (Production.evaluate outer).Within e₀ q e₁) (heads : q.Heads e₁ e₂)
    (wet : e₂.mode.dry = false) (word : e₂.here.next e₂.text = .keyword .functionKw)
    (ends : (Routine.group e₂).Ends (f, e₃)) (fine : f.isError = false) :
    ∃ source, e₃.IsFunction source f ∧ ∀ (p' : HostProgram) (e' : Engine) (f' : Value),
      p.Comes 0 0 e p' e' → e'.maxDepth = e₂.maxDepth → e'.IsFunction source f' →
      ∃ shown o, render f' e' = .ok (shown, e') ∧ (Production.evaluate shown).Performs e' o
        ∧ (IsFull o.1 ∨ o.2.IsFunction source o.1 ∧ render o.1 o.2 = .ok (shown, o.2)) := by
  obtain ⟨w, c, alike, -⟩ := behaves.course small made comes
  have calm := Lockstep.calm_of_careful ((behaves _ e₀ comes).2 outer next rfl)
  obtain ⟨w₁, s₁, c₁, role, ready, alike₁⟩ :=
    (Lockstep.Ready.evaluateAny outer).within alike calm within
  obtain ⟨s₂, c₂, alike₂, deep⟩ := ready.heads alike₁ heads
  have legible := alike₂.legible ()
  rw [legible.next_eq] at word
  obtain ⟨source, e₄, makes, paren, again⟩ := exists_makesFunction legible wet word ends fine
  obtain ⟨short, function⟩ := isFunction_of_newFunction
    (makes.passes.holds (alike₂.sound ()).holds)
    (makes.passes.size_eq.trans_le (alike₂.fits.size_le ())) ((makes.ends _).mp ends) fine
  refine ⟨source, function, fun p' e' f' comes' depth function' => ?_⟩
  obtain ⟨w', c', alike', -⟩ := behaves.course small made comes'
  have rest : e'.depth = 0 := alike'.depth ()
  have below : e₂.depth = s₂.depth := alike₂.depth ()
  obtain ⟨o, evaluate, outcome⟩ := (alike'.sound ()).evaluate_shownFunction paren
    (alike'.fits.size_le ()) short fun e'' here wet depth' limit =>
      again e'' here wet (by omega) (limit.trans depth)
  exact ⟨shownFunction source, o, function'.render_eq, evaluate,
    outcome.imp_right fun function => ⟨function, function.render_eq⟩⟩

end Engine

/-- The text of a function with a brace in a comment. -/
def bracedText : ByteArray := "(a) \x7b/*\x7d*/return a;\x7d".toUTF8

/-- A session that makes such a function. -/
def HostProgram.braced : HostProgram :=
  .evaluate ("function ".toUTF8 ++ bracedText) fun _ => .done .undefined

theorem HostProgram.watch_braced :
    braced.watch (Production.calls? 30 5) 30 0 0 5 (Engine.initial 96) = true := by
  decide +kernel

namespace Engine

/-- The function is made at the start of an access. -/
def makesBraced? (s : Production × Engine) : Bool :=
  match s with
  | (.access, e) =>
    match (Routine.group e).watch (Production.watch (fun _ _ => true) (fun _ => true) 30) with
    | some (f, e₁) => !f.isError && !e.mode.dry && decide (e.here.next e.text = .keyword .functionKw)
      && decide (e.maxDepth = 0)
      && decide ((e₁.arena.stringBytes f.offset).toOption = some bracedText)
    | none => false
  | _ => false

/-- The function is the value of the text. -/
def givesBraced? (o : Value × Engine) : Bool :=
  o.1.kind == .function && decide ((o.2.arena.stringBytes o.1.offset).toOption = some bracedText)
    && decide (o.2.maxDepth = 0)

theorem braced_makes :
    ((Production.evaluate ("function ".toUTF8 ++ bracedText)).stage? 30 (List.replicate 10 (some 0))
      (initial 96)).any makesBraced? = true := by
  decide +kernel

theorem braced_gives :
    ((Production.evaluate ("function ".toUTF8 ++ bracedText)).watch (fun _ _ => true)
      (fun _ => true) 30 (initial 96)).any (fun o => givesBraced? o &&
        ((Production.evaluate (shownFunction bracedText)).watch (fun _ _ => true) (fun _ => true) 30
          o.2).any givesBraced?) = true := by
  decide +kernel

/-- The function is left by the session, shown and read back. -/
theorem braced_evaluates_back :
    ∃ e f, HostProgram.braced.Comes 0 0 (initial 96) (.done .undefined) e
      ∧ e.IsFunction bracedText f
      ∧ ∃ shown o, render f e = .ok (shown, e) ∧ (Production.evaluate shown).Performs e o
        ∧ o.2.IsFunction bracedText o.1 ∧ render o.1 o.2 = .ok (shown, o.2) := by
  obtain ⟨⟨q, e₁⟩, stage, makes⟩ := (Option.any_eq_true _ _).mp braced_makes
  obtain ⟨⟨f, e⟩, watched, gives⟩ := (Option.any_eq_true _ _).mp braced_gives
  simp only [givesBraced?, Bool.and_eq_true, beq_iff_eq, decide_eq_true_eq,
    Option.any_eq_true] at gives
  obtain ⟨⟨⟨kind, read⟩, depth⟩, o, again, ⟨kind', -⟩, -⟩ := gives
  have comes : HostProgram.braced.Comes 0 0 (initial 96) (.done .undefined) e :=
    .answered (r := ⟨Value, Routine.call (.evaluate _), fun _ => .done .undefined⟩) .start rfl
      (Progress.ends_call.mpr (Production.performs_of_watch watched).1)
  unfold makesBraced? at makes
  split at makes
  · next eq =>
    obtain ⟨rfl, rfl⟩ := Prod.mk.inj eq
    split at makes
    · next f₁ e₂ group =>
      simp only [Bool.and_eq_true, Bool.not_eq_true', decide_eq_true_eq] at makes
      obtain ⟨⟨⟨⟨fine, wet⟩, word⟩, depth₁⟩, read₁⟩ := makes
      have ends := Progress.ends_of_watch
        (fun _ _ _ watched => (Production.performs_of_watch watched).1) group
      obtain ⟨source, made, back⟩ := functions_evaluate_back (by decide) (create?_nil (by decide))
        (HostProgram.behaves_of_watch HostProgram.watch_braced) .start
        (Production.within_of_stage? stage) (.access _) wet word ends fine
      obtain rfl : source = bracedText :=
        Except.ok.inj (made.2.symm.trans (eq_ok_of_toOption read₁))
      have function : e.IsFunction bracedText f := ⟨kind, eq_ok_of_toOption read⟩
      obtain ⟨shown, o', rendered, performs, outcome⟩ :=
        back _ e f comes (depth.trans depth₁.symm) function
      obtain rfl : shownFunction bracedText = shown :=
        congrArg Prod.fst (Except.ok.inj (function.render_eq.symm.trans rendered))
      obtain rfl := performs.unique (Production.performs_of_watch again).1
      refine ⟨e, f, comes, function, _, o', rendered, performs, outcome.resolve_left fun full => ?_⟩
      have error := full.1
      rw [Value.isError, kind'] at error
      cases error
    · cases makes
  · cases makes

end Engine

end ArenaScript
