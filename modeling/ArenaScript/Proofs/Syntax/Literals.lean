import ArenaScript.Proofs.Host.Updates
import ArenaScript.Proofs.Host.Watching
import ArenaScript.Proofs.Lockstep.Sessions
import ArenaScript.Proofs.Source.Quotation

/-!
# Evaluations of string literals

A text that is nothing but a string literal, however its bytes are spelled, gives
the string, unless the engine runs out of memory.  A collection may be due before
the statement; apart from that the evaluation only adds the new string.

Main definitions:

- `Engine.reading`: an engine in front of the first statement of a text.

Main results:

- `Engine.string_literals_round_trip`: what a literal comes to.
-/

namespace ArenaScript

/-! ## Routines that come to an end -/

namespace Progress

variable {α β : Type} {p : Progress α} {P Q : α → Prop}

/-- A routine comes to an end with some property. -/
def Reaches (p : Progress α) (P : α → Prop) : Prop := ∃ a, p.Ends a ∧ P a

theorem Reaches.finished {a : α} (holds : P a) : (Progress.finished a).Reaches P :=
  ⟨a, .finished a, holds⟩

theorem Reaches.bind {R : β → Prop} {f : α → Progress β} (first : p.Reaches P)
    (next : ∀ a, P a → (f a).Reaches R) : (p.bind f).Reaches R := by
  obtain ⟨a, ends, holds⟩ := first
  obtain ⟨b, ends', holds'⟩ := next a holds
  exact ⟨b, ends.bind ends', holds'⟩

end Progress

namespace Production

variable {q : Production} {e : Engine} {P : Value × Engine → Prop}

/-- A production comes to an outcome with some property. -/
def Reaches (q : Production) (e : Engine) (P : Value × Engine → Prop) : Prop :=
  ∃ o, q.Performs e o ∧ P o

/-- The end of a routine leads to an outcome with some property. -/
def Leads (P : Value × Engine → Prop) (r : Next × Engine) : Prop := ∃ o, Yields o r ∧ P o

theorem leads_value {v : Value} (holds : P (v, e)) : Leads P (.value v, e) := ⟨_, rfl, holds⟩

theorem leads_goOn (reaches : q.Reaches e P) : Leads P (.goOn q, e) := reaches

theorem reaches_of_routine (leads : (q.routine e).Reaches (Leads P)) : q.Reaches e P := by
  obtain ⟨r, ends, o, yields, holds⟩ := leads
  exact ⟨o, performs_iff_ends.mpr ⟨r, ends, yields⟩, holds⟩

theorem Reaches.call {α : Type} {R : α → Prop} {f : Value × Engine → Progress α}
    (reaches : q.Reaches e P) (next : ∀ o, P o → (f o).Reaches R) :
    ((Routine.call q e).bind f).Reaches R := by
  obtain ⟨o, performs, holds⟩ := reaches
  obtain ⟨a, ends, result⟩ := next o holds
  exact ⟨a, .waiting performs ends, result⟩

end Production

open Engine

/-! ## Failures -/

namespace Engine

theorem resolve_error {v : Value} (error : v.isError = true) (e : Engine) :
    resolve v e = .ok (v, e) := by
  refine resolve_of_kind_ne (fun kind => ?_) e
  rw [Value.isError, kind] at error
  cases error

/-- An evaluation fails: its value is an error of the kind, and the failure is
the only one recorded. -/
def FailsWith (e : Engine) (f : Failure) (o : Value × Engine) : Prop :=
  o.1.isError = true ∧ ErrorLog.kind o.1 = f.kind ∧ o.2.log = e.log.record f

/-- A statement that starts with a string is an expression. -/
theorem openStatement_of_string {e e₁ : Engine} (token : Engine.token e = .ok (.string, e₁)) :
    Routine.openStatement e = (Routine.call .expression e₁).bind fun r =>
      Progress.ofExcept (Engine.resolve r.1 r.2) := by
  simp only [Routine.openStatement, Routine.steps, token]

end Engine

/-! ## Outcomes that nothing follows -/

/-- The outcome of a part of an expression that nothing follows: the end of the
text is seen next. -/
structure Closed (mode : Mode) (o : Value × Engine) : Prop where
  seen : o.2.cursor.consumed = false
  last : o.2.cursor.token = .eof
  mode_eq : o.1.isError = false → o.2.mode = mode

/-- A token that has not been used is seen again. -/
theorem Engine.token_of_seen {e : Engine} (seen : e.cursor.consumed = false) :
    Engine.token e = .ok (e.cursor.token, e) := by
  simp [Engine.token, Cursor.advance, seen]

/-- The next token of a text of the host. -/
theorem Engine.token_of_host {e : Engine} {text : ByteArray}
    (origin : e.cursor.origin = .host text 0)
    (length : e.cursor.length = text.size) {c : Cursor}
    (next : e.cursor.advance e.arena.bytes = c) :
    Engine.token e = .ok (c.token, { e with cursor := c }) := by
  have valid : e.cursor.isValid e.arena.bytes = true := by
    simp [Cursor.isValid, Cursor.source, origin, length]
  rw [Engine.token, valid, Bool.not_true, Bool.and_false, if_neg Bool.false_ne_true]
  simp only [next]

namespace Closed

variable {e : Engine} {o : Value × Engine} {mode : Mode} {q : Production}

theorem performs_of_routine (leads : (q.routine e).Reaches (Production.Leads (· = o))) :
    q.Performs e o := by
  obtain ⟨_, performs, rfl⟩ := Production.reaches_of_routine leads
  exact performs

theorem after_call {α : Type} {R : α → Prop} {f : Value × Engine → Progress α}
    (performs : q.Performs e o) (next : (f o).Reaches R) : ((Routine.call q e).bind f).Reaches R :=
  Production.Reaches.call (P := (· = o)) ⟨o, performs, rfl⟩ fun _ same => same ▸ next

theorem unary (closed : Closed mode o) (inner : Production.access.Performs e o)
    (seen : e.cursor.consumed = false) (plain : e.cursor.token.unary? = none) :
    Production.unary.Performs e o := by
  refine performs_of_routine ?_
  simp only [Production.routine, Routine.unary, Routine.power, Routine.stepped, Routine.steps,
    token_of_seen seen, plain]
  refine after_call inner ?_
  cases error : o.1.isError with
  | true =>
    simp only [if_true, Routine.steps, error]
    exact .finished (Production.leads_value rfl)
  | false =>
    simp only [Bool.false_eq_true, if_false, Routine.steps, token_of_seen closed.seen, closed.last]
    simp only [error, Bool.false_eq_true, if_false, ne_eq, reduceCtorEq, not_false_eq_true, if_true]
    exact .finished (Production.leads_value rfl)

theorem binary (closed : Closed mode o) (inner : Production.unary.Performs e o) (level : Nat) :
    (Production.binary level).Performs e o := by
  refine performs_of_routine ?_
  simp only [Production.routine, Routine.binary, Routine.steps]
  refine after_call inner ?_
  refine .finished (Production.leads_goOn ⟨_, performs_of_routine ?_, rfl⟩)
  simp only [Production.routine, Routine.binaryRest, Routine.steps]
  cases error : o.1.isError with
  | true =>
    simp only [if_true]
    exact .finished (Production.leads_value rfl)
  | false =>
    simp only [token_of_seen closed.seen, closed.last, Routine.operatorFrom?, Routine.steps]
    exact .finished (Production.leads_value rfl)

theorem logical (closed : Closed e.mode o) {op : LogicalOp}
    (inner : (Routine.operandOf op).Performs e o) : (Production.logical op).Performs e o := by
  refine performs_of_routine ?_
  simp only [Production.routine, Routine.logical, Routine.steps]
  refine after_call inner ?_
  cases error : o.1.isError with
  | true =>
    simp only [if_true]
    exact .finished (Production.leads_value rfl)
  | false =>
    simp only [Routine.steps]
    refine .finished (Production.leads_goOn ⟨_, performs_of_routine ?_, rfl⟩)
    simp only [Production.routine, Routine.logicalRest, Routine.steps, token_of_seen closed.seen,
      closed.last, ne_eq, reduceCtorEq, not_false_eq_true]
    exact .finished (Production.leads_value rfl)

theorem conditional (closed : Closed mode o) (inner : (Production.logical .or).Performs e o) :
    Production.conditional.Performs e o := by
  refine performs_of_routine ?_
  simp only [Production.routine, Routine.conditional, Routine.steps]
  refine after_call inner ?_
  cases error : o.1.isError with
  | true =>
    simp only [if_true]
    exact .finished (Production.leads_value rfl)
  | false =>
    simp only [token_of_seen closed.seen, closed.last, ne_eq, reduceCtorEq, not_false_eq_true,
      Routine.steps]
    exact .finished (Production.leads_value rfl)

theorem assignment (closed : Closed mode o) (inner : Production.conditional.Performs e o) :
    Production.assignment.Performs e o := by
  refine performs_of_routine ?_
  simp only [Production.routine, Routine.assignment, Routine.steps]
  refine after_call inner ?_
  refine .finished (Production.leads_goOn ⟨_, performs_of_routine ?_, rfl⟩)
  simp only [Production.routine, Routine.assignmentRest, Routine.steps]
  cases error : o.1.isError with
  | true =>
    simp only [if_true]
    exact .finished (Production.leads_value rfl)
  | false =>
    simp only [token_of_seen closed.seen, closed.last, Routine.steps]
    exact .finished (Production.leads_value rfl)

/-- An expression that is an access, which nothing follows. -/
theorem expression (closed : Closed e.mode o)
    (inner : Production.access.Performs { e with depth := e.depth + 1 } o)
    (seen : e.cursor.consumed = false) (plain : e.cursor.token.unary? = none) :
    Production.expression.Performs e (o.1, { o.2 with depth := o.2.depth - 1 }) := by
  have level := closed.binary (closed.unary inner seen plain) 0
  have conjunction : (Routine.operandOf .or).Performs { e with depth := e.depth + 1 } o :=
    logical (e := { e with depth := e.depth + 1 }) closed level
  have disjunction : (Production.logical .or).Performs { e with depth := e.depth + 1 } o :=
    logical (e := { e with depth := e.depth + 1 }) closed conjunction
  have whole := closed.assignment (closed.conditional disjunction)
  refine performs_of_routine ?_
  simp only [Production.routine, Routine.expression, Routine.steps]
  refine after_call whole ?_
  exact .finished (Production.leads_value rfl)

end Closed

/-! ## The literal -/

namespace Cursor

/-- The cursor on the only token of a text that is a literal. -/
def onLiteral (text : ByteArray) : Cursor :=
  { Cursor.ofText text with
    pos := text.size, tokenLength := text.size, token := .string, consumed := false }

/-- The cursor at the end of the text. -/
def pastLiteral (text : ByteArray) : Cursor :=
  { onLiteral text with tokenStart := text.size, tokenLength := 0, token := .eof }

theorem isValid_use_onLiteral (text arena : ByteArray) :
    (onLiteral text).use.isValid arena = true := by
  simp [isValid, source, onLiteral, ofText, start, use]

/-- There is no token at the end. -/
theorem scan_pastLiteral (text arena : ByteArray) :
    ((onLiteral text).source arena).scan text.size
      = { token := .eof, start := text.size, length := 0 } := by
  simp [Source.scan, Source.skipBlanks, Source.skipBlanksBound, source, onLiteral, ofText, start]

theorem advance_onLiteral (text arena : ByteArray) :
    (onLiteral text).use.advance arena = pastLiteral text := by
  have here : (onLiteral text).use.source arena = (onLiteral text).source arena := rfl
  rw [advance, if_pos (by rfl), here, show (onLiteral text).use.pos = text.size from rfl,
    scan_pastLiteral]
  rfl

theorem advance_pastLiteral (text arena : ByteArray) :
    (pastLiteral text).use.advance arena = pastLiteral text := by
  have here : (pastLiteral text).use.source arena = (onLiteral text).source arena := rfl
  rw [advance, if_pos (by rfl), here, show (pastLiteral text).use.pos = text.size from rfl,
    scan_pastLiteral]
  rfl

end Cursor

namespace Engine

variable {e : Engine} {bs : List UInt8}

/-- What a literal comes to: the engine is out of memory or nested too deeply, or
the string is added to it and the cursor goes on. -/
inductive ReadsLiteral (e : Engine) (bs : List UInt8) (c : Cursor) : Value × Engine → Prop
  | failed {f : Failure} {o : Value × Engine}
      (why : f = .outOfMemory ∨ f = .stackOverflow ∧ Routine.tooDeep e = true)
      (fails : e.FailsWith f o) (suspended : o.2.suspended = e.suspended)
      (seen : o.2.cursor.consumed = false) (last : o.2.cursor.token = .eof) : ReadsLiteral e bs c o
  | given {v : Value} {e' : Engine} (kind : v.kind = .string)
      (read : e'.arena.stringBytes v.offset = .ok ⟨bs.toArray⟩) (grown : e.Extends e')
      (suspended : e'.suspended = e.suspended) (mode : e'.mode = e.mode) (cursor : e'.cursor = c) :
      ReadsLiteral e bs c (v, e')

/-- A failure ends the text. -/
theorem ReadsLiteral.of_fail {e₁ : Engine} {f : Failure} {c : Cursor}
    (why : f = .outOfMemory ∨ f = .stackOverflow ∧ Routine.tooDeep e = true)
    (log : e₁.log = e.log) (suspended : e₁.suspended = e.suspended) :
    ∃ o, fail f e₁ = .ok o ∧ e.ReadsLiteral bs c o := by
  refine ⟨_, rfl, .failed why ⟨?_, ErrorLog.kind_lastValue _ _, ?_⟩ ?_ ?_ ?_⟩
  · rw [Value.isError, ErrorLog.lastValue, Value.kind_box]
    rfl
  · rw [← log]
    dsimp only
    split <;> rfl
  · rw [← suspended]
    dsimp only
    split <;> rfl
  · dsimp only
    split <;> rfl
  · dsimp only
    split <;> rfl

/-- The end of the text is seen after a literal. -/
theorem ReadsLiteral.closed {text : ByteArray} {o : Value × Engine}
    (reads : e.ReadsLiteral bs (.pastLiteral text) o) : Closed e.mode o := by
  cases reads with
  | failed why fails suspended seen last =>
    refine ⟨seen, last, fun fine => ?_⟩
    rw [fails.1] at fine
    cases fine
  | given kind read grown suspended mode cursor =>
    exact ⟨by rw [cursor]; rfl, by rw [cursor]; rfl, fun _ => mode⟩

end Engine

namespace Source.Quotes

variable {bs word : List UInt8} {e : Engine}

variable (quotes : Quotes bs word)
include quotes

theorem scan (rest : List UInt8) : (ofBytes ⟨(word ++ rest).toArray⟩).scan 0
      = { token := .string, start := 0, length := word.length } :=
  scan_of_quotes quotes (startsWith_ofBytes [] word rest)

theorem unescape : (ofBytes ⟨word.toArray⟩).unescape = (⟨bs.toArray⟩, true) := by
  have here := startsWith_ofBytes [] word []
  rw [List.append_nil] at here
  exact unescape_of_quotes quotes here rfl

/-- The first token of the text is the literal. -/
theorem advance (arena : ByteArray) :
    (Cursor.ofText ⟨word.toArray⟩).advance arena = .onLiteral ⟨word.toArray⟩ := by
  have found := quotes.scan []
  rw [List.append_nil] at found
  have size : ByteArray.size ⟨word.toArray⟩ = word.length := by simp [ByteArray.size]
  simp only [Cursor.advance, Cursor.ofText, Cursor.start, Cursor.source, if_true]
  rw [show (⟨⟨word.toArray⟩, 0, ByteArray.size ⟨word.toArray⟩⟩ : Source)
    = Source.ofBytes ⟨word.toArray⟩ from rfl, found]
  simp [Cursor.accept, Cursor.onLiteral, Cursor.ofText, Cursor.start, size]

variable (short : word.length < 2 ^ 24)
include short

variable (block : e.arena.limit.toNat ≤ e.arena.bytes.size)
include block

/-- Placing the string of a literal: there is no room, or it is added. -/
theorem placeString (here : e.cursor = (Cursor.onLiteral ⟨word.toArray⟩).use) :
    ∃ o, Routine.placeString e = .ok o
      ∧ e.ReadsLiteral bs (Cursor.onLiteral ⟨word.toArray⟩).use o := by
  have size : ByteArray.size ⟨word.toArray⟩ = word.length := by simp [ByteArray.size]
  have decoded := quotes.unescape
  have bound := size_unescape_le (ofBytes ⟨word.toArray⟩)
  rw [decoded] at bound
  have bound : ByteArray.size ⟨bs.toArray⟩ ≤ word.length := size ▸ bound
  have valid : e.cursor.isValid e.arena.bytes = true := by
    rw [here]
    exact Cursor.isValid_use_onLiteral _ _
  have length : e.cursor.tokenLength = word.length := by
    rw [here]
    exact size
  have text : Source.unescape ⟨(e.cursor.source e.arena.bytes).bytes,
      (e.cursor.source e.arena.bytes).start + e.cursor.tokenStart, word.length⟩
      = (⟨bs.toArray⟩, true) := by
    rw [← length, here]
    exact decoded
  simp only [Routine.placeString, Engine.source, Action.runs, valid, if_true, length, text]
  by_cases full : e.arena.limit.toNat < e.arena.used.toNat + 4 + word.length
  · simp only [full, if_true]
    exact ReadsLiteral.of_fail (.inl rfl) rfl rfl
  · obtain ⟨a, written, grown, used, body⟩ := @Arena.Extends.exists_write e.arena
      (e.arena.used.toNat + 4) ⟨bs.toArray⟩ (by omega) (by omega) block
    have count :
        (UInt32.ofNat (ByteArray.size ⟨bs.toArray⟩)).toNat = ByteArray.size ⟨bs.toArray⟩ := by
      rw [UInt32.toNat_ofNat']
      exact Nat.mod_eq_of_lt (by omega)
    simp only [full, if_false, changeArena, Action.runs, written]
    rcases Arena.Extends.newStringInPlace?_cases (a := a)
      (n := UInt32.ofNat (ByteArray.size ⟨bs.toArray⟩)) (by omega)
      (by rw [grown.scratch.limit_eq, grown.below.size_eq]; exact block) with
      none | ⟨a', made, grown', read⟩
    · simp only [place_closeString, adopt, none]
      exact ReadsLiteral.of_fail (.inl rfl) rfl rfl
    · rw [used, count, body] at read
      simp only [place_closeString, adopt, made, used]
      refine ⟨_, rfl, .given (Value.kind_ref _ _) ?_ ⟨grown.trans grown', rfl, rfl, rfl, rfl⟩ rfl rfl
        here⟩
      rw [Value.offset_ref]
      exact read

/-- A literal as a primary expression. -/
theorem primary (wet : e.mode.dry = false) (here : e.cursor = .onLiteral ⟨word.toArray⟩) :
    ∃ o, (Routine.primary e).Ends o ∧ e.ReadsLiteral bs (Cursor.onLiteral ⟨word.toArray⟩).use o := by
  have seen : e.cursor.consumed = false := by rw [here]; rfl
  have noted : noteUse e = .ok ((), { e with
      arena := e.arena.noteLow, deepest := max e.deepest e.depth }) := rfl
  simp only [Routine.primary, Routine.steps, token_of_seen seen, noted]
  by_cases deep : Routine.tooDeep e = true
  · have deep' : Routine.tooDeep { e with
        arena := e.arena.noteLow, deepest := max e.deepest e.depth } = true := deep
    obtain ⟨o, failed, reads⟩ := @ReadsLiteral.of_fail e bs { e with
      arena := e.arena.noteLow, deepest := max e.deepest e.depth } .stackOverflow
      (Cursor.onLiteral ⟨word.toArray⟩).use (.inr ⟨rfl, deep⟩) rfl rfl
    simp only [deep', failed, Routine.steps]
    exact ⟨o, .finished _, reads⟩
  · have deep' : Routine.tooDeep { e with
        arena := e.arena.noteLow, deepest := max e.deepest e.depth } = false :=
      Bool.eq_false_iff.mpr deep
    have used : Engine.use { e with arena := e.arena.noteLow, deepest := max e.deepest e.depth }
        = .ok ((), { e with
          arena := e.arena.noteLow, deepest := max e.deepest e.depth
          cursor := (Cursor.onLiteral ⟨word.toArray⟩).use }) := by
      rw [← here]
      rfl
    have low := Arena.Extends.of_noteLow e.arena
    obtain ⟨o, placed, reads⟩ := quotes.placeString
      (e := { e with
        arena := e.arena.noteLow, deepest := max e.deepest e.depth
        cursor := (Cursor.onLiteral ⟨word.toArray⟩).use }) short
      (by rw [low.below.size_eq, low.scratch.limit_eq]; exact block) rfl
    have literal : Routine.stringLiteral { e with
        arena := e.arena.noteLow, deepest := max e.deepest e.depth
        cursor := (Cursor.onLiteral ⟨word.toArray⟩).use } = .ok o := by
      have awake (a : Arena) (k : Cursor) (n : Nat) :
          isDry { e with arena := a, deepest := n, cursor := k }
            = .ok (false, { e with arena := a, deepest := n, cursor := k }) := by
        rw [← wet]
        rfl
      simp only [Routine.stringLiteral, Action.runs, awake, Bool.false_eq_true, if_false, placed]
    have string : (Cursor.onLiteral ⟨word.toArray⟩).use.token = .string := rfl
    simp only [deep', used, string, literal, Routine.steps]
    refine ⟨o, .finished _, ?_⟩
    cases reads with
    | failed why fails suspended seen last => exact .failed why fails suspended seen last
    | given kind read grown suspended mode cursor =>
      exact .given kind read ⟨low.trans grown.1, grown.2, grown.3, grown.4, grown.5⟩ suspended mode
        cursor

/-- A literal that nothing follows as an access. -/
theorem access (wet : e.mode.dry = false) (here : e.cursor = .onLiteral ⟨word.toArray⟩) :
    ∃ o, Production.access.Performs e o ∧ e.ReadsLiteral bs (.pastLiteral ⟨word.toArray⟩) o := by
  have seen : e.cursor.consumed = false := by rw [here]; rfl
  have string : e.cursor.token = .string := by rw [here]; rfl
  obtain ⟨o, primary, reads⟩ := quotes.primary short block wet here
  have group : (Routine.group e).Ends o := by
    simp only [Routine.group, Routine.steps, token_of_seen seen, string, ne_eq, reduceCtorEq,
      not_false_eq_true]
    exact primary
  cases reads with
  | failed why fails suspended seen' last =>
    refine ⟨o, Closed.performs_of_routine ?_, .failed why fails suspended seen' last⟩
    simp only [Production.routine, Routine.access, Routine.steps]
    refine Progress.Reaches.bind (P := (· = o)) ⟨o, group, rfl⟩ fun r same => ?_
    subst same
    simp only [fails.1, if_true]
    exact .finished (Production.leads_value rfl)
  | @given v e' kind read grown suspended mode cursor =>
    have fine : v.isError = false := by rw [Value.isError, kind]; rfl
    have token : Engine.token e' = .ok (.eof, { e' with cursor := .pastLiteral ⟨word.toArray⟩ }) :=
      token_of_host (by rw [cursor]; rfl) (by rw [cursor]; rfl)
        (by rw [cursor, Cursor.advance_onLiteral])
    refine ⟨(v, { e' with cursor := .pastLiteral ⟨word.toArray⟩ }), Closed.performs_of_routine ?_,
      .given kind read ⟨grown.1, grown.2, grown.3, grown.4, grown.5⟩ suspended mode rfl⟩
    simp only [Production.routine, Routine.access, Routine.steps]
    refine Progress.Reaches.bind (P := (· = (v, e'))) ⟨_, group, rfl⟩ fun r same => ?_
    subst same
    simp only [fine, Bool.false_eq_true, if_false, kind, reduceCtorEq]
    refine .finished (Production.leads_goOn ⟨_, Closed.performs_of_routine ?_, rfl⟩)
    simp only [Production.routine, Routine.accessRest, Routine.steps, token]
    exact .finished (Production.leads_value rfl)

/-- A literal as an expression. -/
theorem expression (wet : e.mode.dry = false) (here : e.cursor = .onLiteral ⟨word.toArray⟩) :
    ∃ o, Production.expression.Performs e o
      ∧ ReadsLiteral { e with depth := e.depth + 1 } bs (.pastLiteral ⟨word.toArray⟩) o := by
  have seen : e.cursor.consumed = false := by rw [here]; rfl
  have plain : e.cursor.token.unary? = none := by rw [here]; rfl
  obtain ⟨o, access, reads⟩ := quotes.access (e := { e with depth := e.depth + 1 }) short block wet
    here
  refine ⟨_, Closed.expression reads.closed access seen plain, ?_⟩
  cases reads with
  | failed why fails suspended seen last => exact .failed why fails suspended seen last
  | given kind read grown suspended mode cursor =>
    exact .given kind read ⟨grown.1, grown.2, grown.3, grown.4, grown.5⟩ suspended mode cursor

omit block in
/-- A literal as the only statement, after the collection in front of it. -/
theorem statement {e₁ : Engine} (collected : collectIfDue e = .ok ((), e₁))
    (block : e₁.arena.limit.toNat ≤ e₁.arena.bytes.size) (wet : e₁.mode.dry = false)
    (here : e₁.cursor = .onLiteral ⟨word.toArray⟩) :
    ∃ o, Production.statement.Performs e o
      ∧ ReadsLiteral { e₁ with depth := e₁.depth + 1 } bs
        (Cursor.pastLiteral ⟨word.toArray⟩).use o := by
  have token : Engine.token e₁ = .ok (.string, e₁) := by
    rw [token_of_seen (by rw [here]; rfl), here]
    rfl
  obtain ⟨o, expression, reads⟩ := quotes.expression short block wet here
  have closed := reads.closed
  cases reads with
  | failed why fails suspended seen last =>
    refine ⟨o, Closed.performs_of_routine ?_, .failed why fails suspended seen last⟩
    simp only [Production.routine, Routine.statement, Routine.steps, collected,
      openStatement_of_string token]
    refine Closed.after_call expression ?_
    simp only [resolve_error fails.1, fails.1, Routine.steps]
    exact .finished (Production.leads_value rfl)
  | @given v e' kind read grown suspended mode cursor =>
    have fine : v.isError = false := by rw [Value.isError, kind]; rfl
    have last : e'.cursor.token = .eof := closed.last
    have used : Engine.use e' = .ok ((), { e' with
        cursor := (Cursor.pastLiteral ⟨word.toArray⟩).use }) := by
      rw [← cursor]
      rfl
    refine ⟨(v, { e' with cursor := (Cursor.pastLiteral ⟨word.toArray⟩).use }),
      Closed.performs_of_routine ?_,
      .given kind read ⟨grown.1, grown.2, grown.3, grown.4, grown.5⟩ suspended mode rfl⟩
    simp only [Production.routine, Routine.statement, Routine.steps, collected,
      openStatement_of_string token]
    refine Closed.after_call expression ?_
    simp only [resolve_of_kind_ne (by rw [kind]; decide), fine, token_of_seen closed.seen, last,
      Routine.endsStatement, used, Routine.steps]
    exact .finished (Production.leads_value rfl)

omit block in
/-- A literal as the only statement of a text. -/
theorem script {e₁ : Engine} (start : e.cursor = .ofText ⟨word.toArray⟩)
    (collected : collectIfDue { e with cursor := .onLiteral ⟨word.toArray⟩ } = .ok ((), e₁))
    (block : e₁.arena.limit.toNat ≤ e₁.arena.bytes.size) (wet : e₁.mode.dry = false)
    (here : e₁.cursor = .onLiteral ⟨word.toArray⟩) :
    ∃ o, (Production.script .undefined).Performs e o
      ∧ ReadsLiteral { e₁ with depth := e₁.depth + 1 } bs
        (Cursor.pastLiteral ⟨word.toArray⟩) o := by
  have token : Engine.token e = .ok (.string, { e with cursor := .onLiteral ⟨word.toArray⟩ }) := by
    exact token_of_host (by rw [start]; rfl) (by rw [start]; rfl) (by rw [start, quotes.advance])
  obtain ⟨o, first, reads⟩ := quotes.statement
    (e := { e with cursor := .onLiteral ⟨word.toArray⟩ }) short collected block wet here
  -- What follows is the end of the text, whether the statement has failed or not.
  suffices rest : ∃ e₂, Engine.token o.2 = .ok (.eof, e₂)
      ∧ ReadsLiteral { e₁ with depth := e₁.depth + 1 } bs (Cursor.pastLiteral ⟨word.toArray⟩)
        (o.1, e₂) by
    obtain ⟨e₂, token', reads'⟩ := rest
    refine ⟨(o.1, e₂), Closed.performs_of_routine ?_, reads'⟩
    simp only [Production.routine, Routine.script, Routine.steps, token]
    refine Closed.after_call first ?_
    refine .finished (Production.leads_goOn ⟨_, Closed.performs_of_routine ?_, rfl⟩)
    simp only [Production.routine, Routine.script, Routine.steps, token']
    exact .finished (Production.leads_value rfl)
  cases reads with
  | failed why fails suspended seen last =>
    exact ⟨o.2, by rw [token_of_seen seen, last], .failed why fails suspended seen last⟩
  | @given v e' kind read grown suspended mode cursor =>
    refine ⟨{ e' with cursor := .pastLiteral ⟨word.toArray⟩ }, ?_,
      .given kind read ⟨grown.1, grown.2, grown.3, grown.4, grown.5⟩ suspended mode rfl⟩
    exact token_of_host (by rw [cursor]; rfl) (by rw [cursor]; rfl)
      (by rw [cursor, Cursor.advance_pastLiteral])

end Source.Quotes

namespace Engine

/-- An engine in front of the statement of a text that is a literal. -/
def reading (text : ByteArray) (e : Engine) : Engine :=
  { Routine.enterText text e with cursor := .onLiteral text }

/-- What the evaluation of a literal comes to, as seen from the engine before it
and the one after the collection in front of the statement. -/
def ComesToLiteral (e e₁ : Engine) (bs : List UInt8) (o : Value × Engine) : Prop :=
  e.FailsWith .outOfMemory o
    ∨ (Routine.tooDeep { e with depth := e.depth + 1 } = true ∧ e.FailsWith .stackOverflow o)
    ∨ (o.1.kind = .string ∧ o.2.arena.stringBytes o.1.offset = .ok ⟨bs.toArray⟩ ∧ e₁.Extends o.2)

theorem Sound.reading {e : Engine} {h : Heap} {scratch : List Value} (sound : e.Sound h scratch)
    (text : ByteArray) : (e.reading text).Sound h scratch :=
  ⟨sound.holds, sound.heap, sound.scope, sound.pinned, sound.result, sound.roots, sound.scratch⟩

end Engine

/-- The evaluation of a literal. -/
theorem Source.Quotes.evaluate {bs word : List UInt8} {e e₁ : Engine} {h h' : Heap}
    {scratch : List Value} {m : UInt32 → UInt32} {k : Cursor → Cursor} {kept : UInt32 → Prop}
    (quotes : Quotes bs word) (short : word.length < 2 ^ 24)
    (collected : collectIfDue (e.reading ⟨word.toArray⟩) = .ok ((), e₁))
    (moved : Moved (e.reading ⟨word.toArray⟩) h scratch e₁ h' m k kept) :
    ∃ o, (Production.evaluate ⟨word.toArray⟩).Performs e o ∧ e.ComesToLiteral e₁ bs o := by
  obtain ⟨deepest, pending, events, registers⟩ := moved.registers
  have here : e₁.cursor = .onLiteral ⟨word.toArray⟩ := by
    rw [registers]
    exact moved.host _ _ _ rfl
  have mode : e₁.mode = {} := by
    rw [registers]
    rfl
  have suspended : e₁.suspended = k e.cursor :: e.suspended.map k := by
    rw [registers]
    rfl
  have log : e₁.log = e.log := by
    rw [registers]
    rfl
  have deep : Routine.tooDeep { e₁ with depth := e₁.depth + 1 }
      = Routine.tooDeep { e with depth := e.depth + 1 } := by
    rw [registers]
    rfl
  obtain ⟨o, script, reads⟩ := quotes.script (e := Routine.enterText ⟨word.toArray⟩ e) short rfl
    collected ((moved.sound.holds.limit_le_top).trans moved.sound.holds.top_le) (by rw [mode]) here
  -- The end of the evaluation finds the cursor that was set aside.
  have left : ∀ o : Value × Engine, o.2.suspended = e₁.suspended →
      (Production.script .undefined).Performs (Routine.enterText ⟨word.toArray⟩ e) o →
      (Production.evaluate ⟨word.toArray⟩).Performs e (o.1, { o.2 with
        evaluations := o.2.evaluations - 1
        cursor := k e.cursor
        suspended := e.suspended.map k
        mode := e.mode }) := by
    intro o same script
    refine Closed.performs_of_routine ?_
    simp only [Production.routine, Routine.evaluate_eq]
    refine Closed.after_call script ?_
    simp only [Routine.leaveText_apply (same.trans suspended), Routine.steps]
    exact .finished (Production.leads_value rfl)
  cases reads with
  | failed why fails suspended' seen last =>
    have fails : e.FailsWith _ o := ⟨fails.1, fails.2.1, log ▸ fails.2.2⟩
    refine ⟨_, left o suspended' script, ?_⟩
    rcases why with rfl | ⟨rfl, why⟩
    · exact .inl fails
    · exact .inr (.inl ⟨deep ▸ why, fails⟩)
  | given kind read grown suspended' mode' cursor =>
    exact ⟨_, left _ suspended' script,
      .inr (.inr ⟨kind, read, grown.1, grown.2, grown.3, grown.4, grown.5⟩)⟩

namespace Engine

/-- String literals round-trip.  However the bytes of a string are spelled
between quotes, the first token of a text that starts so is the literal, it
stands for the bytes, and measuring a literal without writing it agrees with
writing it.  The evaluation of the literal by an engine collects first if a
collection is due.  After that it gives the string and leaves all that was there
unchanged, unless it runs out of memory or the nesting is too deep. -/
theorem string_literals_round_trip (bs word : List UInt8) (quotes : Source.Quotes bs word) :
    (∀ rest arena, ∃ c, (Cursor.ofText ⟨(word ++ rest).toArray⟩).advance arena = c
      ∧ c.token = .string ∧ c.tokenStart = 0 ∧ c.tokenLength = word.length ∧ c.pos = word.length)
    ∧ (Source.ofBytes ⟨word.toArray⟩).unescape = (⟨bs.toArray⟩, true)
    ∧ (∀ s : Source, s.measure = (s.unescape.1.size, s.unescape.2))
    ∧ ∀ (e : Engine) (h : Heap) (scratch : List Value), e.Sound h scratch → word.length < 2 ^ 24 →
      ∃ e₁ o, (if e.threshold < e.arena.used ∨ e.collectPending = true
          then collectNow (e.reading ⟨word.toArray⟩) = .ok ((), e₁) else e₁ = e.reading
            ⟨word.toArray⟩)
        ∧ (Production.evaluate ⟨word.toArray⟩).Performs e o ∧ e.ComesToLiteral e₁ bs o := by
  refine ⟨fun rest arena => ⟨_, rfl, ?_⟩, quotes.unescape, Source.measure_eq, ?_⟩
  · have found := quotes.scan rest
    have here : (Cursor.ofText ⟨(word ++ rest).toArray⟩).advance arena
        = (Cursor.ofText ⟨(word ++ rest).toArray⟩).accept
          ((Source.ofBytes ⟨(word ++ rest).toArray⟩).scan 0) := rfl
    rw [here, found]
    exact ⟨rfl, rfl, rfl, Nat.zero_add _⟩
  · intro e h scratch sound short
    obtain ⟨e₁, h', m, k, kept, collected, moved, -⟩ :=
      (sound.reading ⟨word.toArray⟩).collectIfDue_eq
    obtain ⟨o, performs, comes⟩ := quotes.evaluate short collected moved
    refine ⟨e₁, o, ?_, performs, comes⟩
    simp only [collectIfDue, Action.runs, reading, Routine.enterText, Bool.not_false,
      Bool.true_and, Bool.or_eq_true, decide_eq_true_eq] at collected
    split
    next due => rwa [if_pos due] at collected
    next idle =>
      rw [if_neg idle] at collected
      cases collected
      rfl

/-- A spelled-out letter, read by a new engine. -/
theorem spelled_letter_comes_back :
    Source.Quotes [0x41] [0x27, 0x5c, 0x78, 0x34, 0x31, 0x27]
      ∧ ∃ e₁ o, (Production.evaluate "'\\x41'".toUTF8).Performs (initial 64) o
        ∧ (initial 64).ComesToLiteral e₁ [0x41] o
        ∧ o.1.kind = .string ∧ o.2.arena.stringBytes o.1.offset = .ok "A".toUTF8 := by
  have quotes : Source.Quotes [0x41] [0x27, 0x5c, 0x78, 0x34, 0x31, 0x27] :=
    .intro (.inr rfl) (.cons (.code 0x41 true true) .nil)
  obtain ⟨-, -, -, evaluation⟩ := string_literals_round_trip _ _ quotes
  obtain ⟨e₁, o, -, performs, comes⟩ :=
    evaluation (initial 64) _ _ (initial_sound (by decide) (by decide)) (by decide)
  have outcome : ((Production.evaluate "'\\x41'".toUTF8).perform 30 (initial 64)).toOption.map
      (fun o => (o.1.kind, (o.2.arena.stringBytes o.1.offset).toOption))
      = some (.string, some "A".toUTF8) := by
    decide +kernel
  obtain ⟨o', run, given⟩ := Option.map_eq_some_iff.mp outcome
  obtain rfl := performs.unique ⟨30, eq_ok_of_toOption run⟩
  obtain ⟨string, read⟩ := Prod.mk.inj given
  exact ⟨quotes, e₁, o, performs, comes, string, eq_ok_of_toOption read⟩

/-- A string that nothing refers to does not outlive the collection in front of a literal. -/
theorem literal_takes_the_place_of_garbage :
    ∃ v e o, newString "x".toUTF8 (initial 64) = .ok (v, e)
      ∧ e.arena.stringBytes v.offset = .ok "x".toUTF8
      ∧ (Production.evaluate "'abc'".toUTF8).Performs { e with threshold := 0 } o
      ∧ o.1.kind = .string ∧ o.2.arena.stringBytes v.offset = .ok "abc".toUTF8 := by
  have outcome : ((newString "x".toUTF8 (initial 64)).bind fun r =>
      ((Production.evaluate "'abc'".toUTF8).perform 30 { r.2 with threshold := 0 }).map fun o =>
        ((r.2.arena.stringBytes r.1.offset).toOption, o.1.kind,
          (o.2.arena.stringBytes r.1.offset).toOption)).toOption
      = some (some "x".toUTF8, .string, some "abc".toUTF8) := by
    decide +kernel
  cases made : newString "x".toUTF8 (initial 64) with
  | error h => simp only [made, Except.bind, Except.toOption, reduceCtorEq] at outcome
  | ok r =>
    cases run : (Production.evaluate "'abc'".toUTF8).perform 30 { r.2 with threshold := 0 } with
    | error h =>
      simp only [made, run, Except.bind, Except.map, Except.toOption, reduceCtorEq] at outcome
    | ok o =>
      simp only [made, run, Except.bind, Except.map, Except.toOption, Option.some.injEq,
        Prod.mk.injEq] at outcome
      obtain ⟨before, string, after⟩ := outcome
      exact ⟨r.1, r.2, o, rfl, eq_ok_of_toOption before, ⟨30, run⟩, string,
        eq_ok_of_toOption after⟩

end Engine

end ArenaScript
