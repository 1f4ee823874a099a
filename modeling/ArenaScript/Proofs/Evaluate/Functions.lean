import ArenaScript.Proofs.Arena.Scratch
import ArenaScript.Proofs.Evaluate.DryRun
import ArenaScript.Proofs.Source.Padding

/-!
# Texts of functions

A function keeps the text of its literal from the opening parenthesis to the closing
brace.  What stands around the literal does not matter for how it is read: cut out and put
behind the keyword, its text is read like the literal itself, token by token.

Main definitions:

- `Engine.ReadsFunction`: the way through a function literal.
- `shownFunction`: how a function is shown.

Main results:

- `Engine.dry_run_repeats`: a dry run in a copy of the text.
- `Engine.ReadsFunction.of_ends`, `Engine.ReadsFunction.ends_iff`: function literals are read so.
- `Engine.ReadsFunction.copy`: a literal is read in a copy of its text as it is in the text.
- `Source.scan_function`, `Source.scan_leftParen`: the first tokens of a function that is shown.
-/

namespace ArenaScript

open Engine

/-- What follows a part of a routine that has ended. -/
theorem Progress.ends_bind_iff {α β : Type} {p : Progress α} {f : α → Progress β} {a : α} {b : β}
    (first : p.Ends a) : (p.bind f).Ends b ↔ (f a).Ends b := by
  refine ⟨fun whole => ?_, first.bind⟩
  induction first with
  | finished a => exact whole
  | waiting performs _ ih =>
    cases whole with
    | waiting performs' rest =>
      obtain rfl := performs.unique performs'
      exact ih rest

namespace Routine

/-- What a function literal makes of its text. -/
def newFunction (text : ByteArray) : Routine Value := do
  let string ← newString text
  return if string.isError then string else .ref .function string.offset

/-- The end of a function literal behind its closing brace. -/
def closeFunction (start : Nat) : Routine Value := do
  if ← isDry then return .zero
  newFunction (← textAt start ((← get).cursor.pos - start))

theorem functionLiteral_eq : functionLiteral = (do
    if !(← expect .leftParen) then return ← malformed
    let start := (← get).cursor.pos - 1
    let outcome ← call (.parameters false)
    if outcome.isError then return outcome
    if !(← expect .rightParen) then return ← malformed
    if !(← expect .leftBrace) then return ← malformed
    let outcome ← checkBody
    if outcome.isError then return outcome
    if (← token) ≠ .rightBrace then return ← malformed
    use
    closeFunction start) := rfl

end Routine

namespace Engine

variable {e e' e₁ e₂ e₁' e₂' : Engine} {v v' : Value} {o : Value × Engine} {t : Tie}

/-! ## Tokens that are found -/

/-- The next token. -/
def seen (e : Engine) : Token := (e.cursor.advance e.arena.bytes).token

/-- The engine behind the next token. -/
def past (e : Engine) : Engine := { e with cursor := (e.cursor.advance e.arena.bytes).use }

theorem Passes.past (e : Engine) : e.Passes e.past :=
  (advance e).trans (.of_pos (.of_cursor _ _) (.use _) rfl)

theorem Legible.past (legible : e.Legible) : e.past.Legible := (Passes.past e).legible legible

theorem Legible.token_eq (legible : e.Legible) : Engine.token e
    = .ok (e.seen, { e with cursor := e.cursor.advance e.arena.bytes }) :=
  Routine.Lasts.token_run legible

theorem Legible.expect_eq (legible : e.Legible) (t : Token) : expect t e
    = if e.seen = t then .ok (true, e.past)
      else .ok (false, { e with cursor := e.cursor.advance e.arena.bytes }) := by
  show (Engine.token e).bind _ = _
  rw [legible.token_eq]
  show (if e.seen = t then _ else _ : Action Bool) _ = _
  split <;> rfl

/-- A routine that does not fail has found its token. -/
theorem Legible.of_expect (legible : e.Legible) {t : Token} {x : Routine Value}
    (ends : ((liftM (expect t) >>= fun b => if !b then liftM malformed else x : Routine Value)
      e).Ends o)
    (fine : o.1.isError = false) : e.seen = t ∧ (x e.past).Ends o := by
  simp only [Routine.steps, legible.expect_eq] at ends
  split at ends
  · next same => exact ⟨same, ends⟩
  · have failed : malformed _ = .ok o := Progress.Ends.of_ofExcept ends
    cases fine.symm.trans (isError_of_fail failed)

theorem Legible.of_token (legible : e.Legible) {t : Token} {x : Routine Value}
    (ends : ((liftM Engine.token >>= fun u =>
      if u ≠ t then liftM malformed else liftM use >>= fun _ => x : Routine Value) e).Ends o)
    (fine : o.1.isError = false) : e.seen = t ∧ (x e.past).Ends o := by
  simp only [Routine.steps, legible.token_eq] at ends
  split at ends
  · cases fine.symm.trans (isError_of_fail ends.of_ofExcept)
  · next same => exact ⟨Decidable.not_not.mp same, ends⟩

theorem of_check {x : Routine Value} {f : Value → Routine Value}
    (ends : ((x >>= fun v => if v.isError then pure v else f v : Routine Value) e).Ends o)
    (fine : o.1.isError = false) : ∃ r, (x e).Ends r ∧ r.1.isError = false ∧ (f r.1 r.2).Ends o := by
  obtain ⟨r, first, rest⟩ := ends.of_bind
  refine ⟨r, first, ?_⟩
  simp only [Routine.steps] at rest
  split at rest
  · next fails =>
    cases rest
    cases fine.symm.trans fails
  · next fine => exact ⟨Bool.eq_false_iff.mpr fine, rest⟩

theorem of_get {α : Type} {f : Engine → Routine α} {r : α × Engine} (ends : ((get >>= f) e).Ends r) :
    (f e e).Ends r := ends

/-- A token that the way goes on behind is passed in a copy as well. -/
theorem twin_past (twin : t.Twin e e') (before : e.past.Before t.last) :
    t.Twin e.past e'.past ∧ e'.seen = e.seen := by
  have near := twin.advance (t := t) ⟨before.le, before.full, before.steps⟩
  exact ⟨twin.passes (.past e) (.past e') { near with consumed := rfl }, near.token⟩

/-! ## Function literals -/

/-- The engine at the body of a function literal, which is only checked. -/
def indoors (e : Engine) : Engine :=
  { e with cursor := e.cursor.unuse, mode := { e.mode with dry := true } }

/-- The engine behind the body of a function literal. -/
def outdoors (e : Engine) (m : Mode) : Engine := { e with mode := m }

theorem Legible.indoors (legible : e.Legible) : e.indoors.Legible :=
  ⟨legible.valid, legible.inside, legible.token, legible.number⟩

theorem twin_indoors (twin : t.Twin e e') : t.Twin e.indoors e'.indoors :=
  ⟨twin.reads, twin.reads', twin.depth, twin.maxDepth, { twin.near with consumed := rfl }⟩

theorem twin_outdoors (twin : t.Twin e e') (m m' : Mode) : t.Twin (e.outdoors m) (e'.outdoors m') :=
  ⟨twin.reads, twin.reads', twin.depth, twin.maxDepth, twin.near⟩

theorem Before.of_outdoors {m : Mode} {n : Nat} (before : (e.outdoors m).Before n) : e.Before n :=
  ⟨before.le, before.full, before.steps⟩

theorem checkBody_eq (e : Engine) : Routine.checkBody e =
    (Routine.call (.block false) e.indoors).bind
    fun r => .finished (r.1, r.2.outdoors e.mode) := rfl

/-- A function literal is read from its opening parenthesis on: first its parameters, then
its body. -/
structure ReadsFunction (e : Engine) (v : Value) (e₁ : Engine) (v' : Value) (e₂ : Engine) : Prop
    where
  paren : e.seen = .leftParen
  names : (Production.parameters false).Performs e.past (v, e₁)
  listed : v.isError = false
  close : e₁.seen = .rightParen
  brace : e₁.past.seen = .leftBrace
  body : (Production.block false).Performs e₁.past.past.indoors (v', e₂)
  checked : v'.isError = false
  ending : (e₂.outdoors e₁.mode).seen = .rightBrace

/-- A dry run that starts with no value at hand does the same in a copy of the text. -/
theorem dry_run_repeats {q : Production} (reads : q.ReadsIn e.mode) (reads' : q.ReadsIn e'.mode)
    (both : e.mode.dry = true → e'.mode.dry = true) (none : q.values = []) (free : q.holds = 0)
    (same : q.twin e'.mode = q) (legible : e.Legible) (legible' : e'.Legible)
    (performs : q.Performs e o) (twin : t.Twin e e') (before : o.2.Before t.last) :
    ∃ e₁', q.Performs e' (o.1, e₁') ∧ e'.Passes e₁' ∧ t.Twin o.2 e₁' := by
  have stands : ∀ {e : Engine}, e.Legible → e.Stands e.mode q.holds q.values True := fun legible =>
    ⟨rfl, fun _ => free ▸ Nat.zero_le _, fun _ => legible, fun _ => none ▸ nofun⟩
  have owed := ((Production.dryRun_kept (d := ⟨e.mode, e'.mode⟩) both).contract True).owes
    ⟨stands legible, .inl reads⟩ performs
  obtain ⟨n, o', takes, -, -⟩ := (Production.dryRun_kept (d := ⟨e'.mode, e'.mode⟩) id).takes
    ⟨stands legible', .inl reads'⟩
  obtain ⟨passes', near, value⟩ := (owed.2 trivial).2 reads t e' o' rfl twin
    (Progress.ends_call.mpr (same.symm ▸ takes.performs)) before
  refine ⟨o'.2, ?_, passes', twin.passes owed.1 passes' near⟩
  rw [value]
  exact takes.performs

namespace ReadsFunction

variable (reads : e.ReadsFunction v e₁ v' e₂)
include reads

/-- What is passed over on the way. -/
theorem parts : e.past.Passes e₁ ∧ e₁.past.past.Passes (e₂.outdoors e₁.mode) := by
  refine ⟨dry_run_passes (q := .parameters false) trivial reads.names, ?_⟩
  have body := dry_run_passes (e := e₁.past.past.indoors) (q := .block false) ⟨rfl, rfl⟩ reads.body
  exact .trans (.of_pos (.of_cursor _ _) (.unuse _) rfl) (body.inMode e₁.mode)

theorem passes : e.past.Passes (e₂.outdoors e₁.mode).past := by
  obtain ⟨names, body⟩ := reads.parts
  exact names.trans ((Passes.past e₁).trans ((Passes.past e₁.past).trans (body.trans (.past _))))

/-- The parenthesis is the last byte of its token. -/
theorem holds_paren (used : e.cursor.consumed = true) :
    0 < e.past.cursor.pos ∧ e.reads.holds (e.past.cursor.pos - 1) '(' = true := by
  have next : (e.reads.scan e.cursor.pos).token = .leftParen := by
    have paren := reads.paren
    rwa [Engine.seen, Cursor.advance, if_pos used] at paren
  obtain ⟨holds, stop⟩ := Source.holds_of_sign (c := '(') next (.inr (.inr (.inr ⟨rfl, rfl⟩)))
  have pos : e.past.cursor.pos = e.reads.skipBlanks e.cursor.pos + 1 := by
    rw [← stop, Engine.past, Cursor.advance, if_pos used]
    rfl
  rw [pos]
  exact ⟨Nat.succ_pos _, holds⟩

omit reads in
/-- A function literal that is not an error has been read. -/
theorem of_ends (legible : e.Legible) (ends : (Routine.functionLiteral e).Ends o)
    (fine : o.1.isError = false) : ∃ v e₁ v' e₂, e.ReadsFunction v e₁ v' e₂
      ∧ (Routine.closeFunction (e.past.cursor.pos - 1) (e₂.outdoors e₁.mode).past).Ends o := by
  obtain ⟨paren, ends⟩ := legible.of_expect ends fine
  obtain ⟨⟨v, e₁⟩, names, listed, ends⟩ := of_check (of_get ends) fine
  have names := Progress.ends_call.mp names
  have passes := dry_run_passes (q := .parameters false) trivial names
  have legible₁ := passes.legible legible.past
  obtain ⟨close, ends⟩ := legible₁.of_expect ends fine
  obtain ⟨brace, ends⟩ := legible₁.past.of_expect ends fine
  obtain ⟨r, body, checked, ends⟩ := of_check ends fine
  rw [checkBody_eq] at body
  obtain ⟨⟨v', e₂⟩, block, rest⟩ := body.of_bind
  obtain rfl := rest.of_finished
  have passes' : e₁.past.past.Passes (e₂.outdoors e₁.mode) :=
    .trans (.of_pos (.of_cursor _ _) (.unuse _) rfl) ((dry_run_passes (q := .block false)
      (e := e₁.past.past.indoors) ⟨rfl, rfl⟩ (Progress.ends_call.mp block)).inMode e₁.mode)
  obtain ⟨ending, ends⟩ := (passes'.legible legible₁.past.past).of_token ends fine
  exact ⟨v, e₁, v', e₂, ⟨paren, names, listed, close, brace, Progress.ends_call.mp block, checked,
    ending⟩, ends⟩

/-- A function literal that is read ends as it is closed. -/
theorem ends_iff (legible : e.Legible) : (Routine.functionLiteral e).Ends o
      ↔ (Routine.closeFunction (e.past.cursor.pos - 1) (e₂.outdoors e₁.mode).past).Ends o := by
  obtain ⟨names, body⟩ := reads.parts
  have legible₁ := names.legible legible.past
  have legible₂ := body.legible legible₁.past.past
  simp only [Routine.functionLiteral_eq, Routine.steps, legible.expect_eq, reads.paren, if_true]
  rw [Progress.ends_bind_iff (Progress.ends_call.mpr reads.names)]
  simp only [reads.listed, Routine.steps, legible₁.expect_eq, reads.close, if_true,
    legible₁.past.expect_eq,
    reads.brace, checkBody_eq]
  rw [Progress.ends_bind_iff (Progress.ends_call.mpr reads.body)]
  have ending := legible₂.token_eq
  rw [reads.ending] at ending
  simp only [reads.checked, Routine.steps]
  rw [show Engine.token (e₂.outdoors e₁.past.past.mode) = _ from ending]
  rfl

/-- A function literal is read in a copy of its text as it is in the text. -/
theorem copy (legible : e.Legible) (legible' : e'.Legible)
    (paren' : e'.seen = .leftParen) (twin : t.Twin e.past e'.past) (wet : e.mode.dry = false)
    (ends : (e₂.outdoors e₁.mode).past.cursor.pos = t.last) :
    ∃ e₁' e₂', e'.ReadsFunction v e₁' v' e₂'
      ∧ t.Twin (e₂.outdoors e₁.mode).past (e₂'.outdoors e₁'.mode).past := by
  obtain ⟨names, body⟩ := reads.parts
  have legible₁ := names.legible legible.past
  have legible₂ := body.legible legible₁.past.past
  -- from the end of the literal back to its start
  have before₅ : (e₂.outdoors e₁.mode).past.Before t.last := by
    refine ⟨Nat.le_of_eq ends, fun _ => ?_, .inl ends⟩
    rw [show (e₂.outdoors e₁.mode).past.cursor.token = .rightBrace from reads.ending]
    rfl
  have before₄ := (Passes.past _).before legible₂.inside before₅
  have before₃ := body.before legible₁.past.past.inside before₄
  have before₂ := (Passes.past _).before legible₁.past.inside before₃
  have before₁ := (Passes.past _).before legible₁.inside before₂
  obtain ⟨e₁', names', passes₁', twin₁⟩ := dry_run_repeats (q := .parameters false) (e := e.past)
    trivial trivial
    (fun dry => (nomatch wet.symm.trans (show e.mode.dry = true from dry))) rfl rfl rfl legible.past
    legible'.past reads.names twin before₁
  have legible₁' := passes₁'.legible legible'.past
  obtain ⟨twin₂, close'⟩ := twin_past twin₁ before₂
  obtain ⟨twin₃, brace'⟩ := twin_past twin₂ before₃
  obtain ⟨e₂', body', passes₂', twin₄⟩ := dry_run_repeats (q := .block false)
    (e := e₁.past.past.indoors) ⟨rfl, rfl⟩ ⟨rfl, rfl⟩ (fun _ => rfl) rfl rfl rfl
    legible₁.past.past.indoors legible₁'.past.past.indoors reads.body (twin_indoors twin₃)
    before₄.of_outdoors
  obtain ⟨twin₅, ending'⟩ := twin_past (twin_outdoors twin₄ e₁.mode e₁'.mode) before₅
  exact ⟨e₁', e₂', ⟨paren', names', reads.listed, close'.trans reads.close, brace'.trans
    reads.brace, body',
    reads.checked, ending'.trans reads.ending⟩, twin₅⟩

end ReadsFunction

end Engine

/-! ## The keyword -/

namespace Source

/-- The keyword in front of the text of a function. -/
theorem scan_function {source : ByteArray} (paren : (ofBytes source).holds 0 '(' = true) :
    (ofBytes ("function".toUTF8 ++ source)).scan 0
      = { token := .keyword .functionKw, start := 0, length := 8 } := by
  have size : "function".toUTF8.size = 8 := by decide +kernel
  have front := window_front "function".toUTF8 source
  have back := (window_back "function".toUTF8 source).holds_of_holds paren
  generalize "function".toUTF8 ++ source = text at front back ⊢
  rw [size] at back
  have length : 8 < (ofBytes text).length := lt_of_holds back
  have byte : ∀ k < 8, (ofBytes text).byte k = (ofBytes "function".toUTF8).byte k := by
    intro k less
    have same := front.byte k (by show k < "function".toUTF8.size; omega)
    rwa [Nat.zero_add] at same
  have first : (ofBytes text).byte 0 = 0x66 := (byte 0 (by omega)).trans (by decide +kernel)
  have slash : (ofBytes text).holds 0 '/' = false := by
    simp only [holds, first, show ((0x66 : UInt8) == '/'.toUInt8) = false from rfl, Bool.and_false]
  have step : (ofBytes text).skipOne? 0 = none := by
    simp only [skipOne?, first, slash, show isBlank 0x66 = false from rfl, Bool.and_false,
      Bool.false_and, Bool.false_eq_true, if_false]
  have sign : (ofBytes text).findSign? 0 = none := by
    have table : ∀ sign ∈ signTable, sign.1 ≠ [] ∧ sign.1.head? ≠ some 0x66 := by decide +kernel
    refine List.find?_eq_none.mpr ?_
    rintro ⟨bytes, token⟩ mem starts
    obtain ⟨some, other⟩ := table _ mem
    cases bytes with
    | nil => exact some rfl
    | cons b rest =>
      have here : (ofBytes text).byte 0 = b := (holds_of_startsWith starts).2
      exact other (by rw [← here, first]; rfl)
  have name : ∀ k < 7, isNameByte ((ofBytes text).byte (k + 1)) = true := by
    intro k less
    rw [byte (k + 1) (by omega)]
    revert k
    decide +kernel
  have run : (ofBytes text).skipWhile isNameByte 1 = 8 := by
    have stops : (ofBytes text).byte 8 = 0x28 := (holds_iff.mp back).2
    have last : (ofBytes text).skipWhile isNameByte 8 = 8 := by
      rw [skipWhile_eq, stops, show isNameByte 0x28 = false from rfl, Bool.and_false,
        if_neg Bool.false_ne_true]
    have one : ∀ k < 7, (ofBytes text).skipWhile isNameByte (k + 1)
        = (ofBytes text).skipWhile isNameByte (k + 2) := by
      intro k less
      rw [skipWhile_eq, if_pos (by simp [name k less]; omega)]
    rw [one 0, one 1, one 2, one 3, one 4, one 5, one 6, last] <;> omega
  have word : (ofBytes text).slice 0 8 = "function".toUTF8 := by
    have same := front.slice 0 8 (by show 0 + 8 ≤ "function".toUTF8.size; omega)
    rw [Nat.zero_add] at same
    rw [same]
    decide +kernel
  have found : (ofBytes text).scanName 0 = (.keyword .functionKw, 8) := by
    have starts :
        (decide (0 < (ofBytes text).length) && isNameStart ((ofBytes text).byte 0)) = true := by
      rw [first, decide_eq_true (by omega)]
      rfl
    simp only [scanName, starts, if_true, Nat.zero_add, run, Nat.sub_zero, word]
    decide +kernel
  rw [scan, skipBlanks_of_none step, if_neg (by omega)]
  simp only [scanAt, first, sign, found]
  rfl

/-- An opening parenthesis is a token of its own. -/
theorem scan_leftParen {s : Source} {i : Nat} (paren : s.holds i '(' = true) :
    s.scan i = { token := .leftParen, start := i, length := 1 } := by
  obtain ⟨inside, first⟩ := holds_iff.mp paren
  replace first : s.byte i = 0x28 := first
  have step : s.skipOne? i = none := by
    simp only [skipOne?, first, holds_other paren (show '('.toUInt8 ≠ '/'.toUInt8 by decide),
      show isBlank 0x28 = false from rfl, Bool.and_false, Bool.false_and, Bool.false_eq_true,
        if_false]
  have table : ∀ sign ∈ signTable, sign.1 ≠ [] ∧ (sign.1.head? = some 0x28 → sign =
    ([0x28], .leftParen)) := by
    decide +kernel
  have mem : ([0x28], Token.leftParen) ∈ signTable := by decide +kernel
  have sign : s.findSign? i = some ([0x28], .leftParen) := by
    cases found : s.findSign? i with
    | none =>
      refine absurd ?_ (List.find?_eq_none.mp found _ mem)
      exact startsWith_cons.mpr ⟨inside, first, rfl⟩
    | some sign =>
      obtain ⟨bytes, token⟩ := sign
      obtain ⟨some, only⟩ := table _ (List.mem_of_find?_eq_some found)
      rw [findSign?] at found
      have starts := List.find?_some found
      cases bytes with
      | nil => exact absurd rfl some
      | cons b rest => rw [only (by rw [← (holds_of_startsWith starts).2, first]; rfl)]
  rw [scan, skipBlanks_of_none step, if_neg (by omega)]
  simp only [scanAt, first, sign]
  rfl

end Source

/-! ## Functions that are shown -/

/-- How a function is shown. -/
def shownFunction (source : ByteArray) : ByteArray := "function".toUTF8 ++ source

/-- The cursor on the keyword of a function that is shown. -/
def Cursor.onFunction (source : ByteArray) : Cursor :=
  { Cursor.ofText (shownFunction source) with
    pos := 8, tokenLength := 8, token := .keyword .functionKw, consumed := false }

namespace Engine

variable {e e' : Engine} {o : Value × Engine} {source : ByteArray}

theorem Legible.shows (legible : e.Legible) :
    e.reads.Shows (e.reads.bytes.extract e.reads.start (e.reads.start + e.reads.length)) := by
  have valid : e.reads.start + e.reads.length ≤ e.reads.bytes.size := of_decide_eq_true legible.valid
  refine ⟨?_, valid, rfl⟩
  rw [ByteArray.size_extract]
  omega

/-- A part of what an engine reads is a window. -/
theorem Legible.window (legible : e.Legible) {i n : Nat} (inside : i + n ≤ e.cursor.length) :
    Source.Window e.reads (.ofBytes (e.reads.slice i n)) i ∧ (e.reads.slice i n).size = n := by
  have shows := legible.shows
  have length : e.reads.length = e.cursor.length := Cursor.length_source _ _
  have size := shows.length
  have part := shows.slice (i := i) (n := n) (by omega)
  have count : (e.reads.slice i n).size = n := by
    rw [part, ByteArray.size_extract]
    omega
  exact ⟨shows.window (Source.shows_ofBytes _) (by omega) (by rw [count, part]), count⟩

/-- The keyword of a function literal is passed over first. -/
theorem group_eq (legible : e.Legible) (word : e.seen = .keyword .functionKw) :
    ∃ e₀ e₁, Routine.group e = (if Routine.tooDeep e then
      (liftM (fail .stackOverflow) : Routine Value) e₀
        else Routine.functionLiteral e₁)
      ∧ e.Passes e₁ ∧ e₁.cursor = e.past.cursor := by
  obtain ⟨e₁, found⟩ : ∃ e₁ : Engine, e₁ = { e with cursor := e.cursor.advance e.arena.bytes } :=
    ⟨_, rfl⟩
  have passes : e.Passes e₁ := found ▸ .advance e
  have token := legible.token_eq
  have again : Engine.token e₁ = .ok (.keyword .functionKw, e₁) := by
    have seen : e₁.cursor.consumed = false := found ▸ Cursor.consumed_advance _ _
    rw [(passes.legible legible).token_eq, Engine.seen, Cursor.advance, seen, ← word, found]
    rfl
  rw [word, ← found] at token
  obtain ⟨e₂, noted⟩ : ∃ e₂, noteUse e₁ = .ok ((), e₂) := ⟨_, rfl⟩
  obtain ⟨passes', place⟩ := Routine.Lasts.passes_noteUse noted
  have last : e₂.cursor.use.token = .keyword .functionKw := by
    rw [place, found]
    exact word
  have used : Engine.use e₂ = .ok ((), { e₂ with cursor := e₂.cursor.use }) := rfl
  have deep : Routine.tooDeep e₂ = Routine.tooDeep e := by
    obtain ⟨depth, limit⟩ := (passes.trans passes').depth_eq
    rw [Routine.tooDeep, Routine.tooDeep, depth, limit]
  refine ⟨e₂, { e₂ with cursor := e₂.cursor.use }, ?_, (passes.trans passes').trans
    (.of_pos (.of_cursor _ _) (.use _) rfl), ?_⟩
  · simp only [Routine.group, Routine.primary, Routine.steps, token, again, noted, deep, used, last,
      ne_eq,
      reduceCtorEq, not_false_eq_true, if_true]
  · show e₂.cursor.use = _
    rw [place, found]
    rfl

theorem closeFunction_eq (legible : e.Legible) (wet : e.mode.dry = false) {i : Nat}
    (low : i ≤ e.cursor.pos) :
    Routine.closeFunction i e = Routine.newFunction (e.reads.slice i (e.cursor.pos - i)) e := by
  have inside := legible.inside
  have text := Routine.Lasts.textAt_run legible (i := i) (n := e.cursor.pos - i) (by omega)
  have dry : Engine.isDry e = .ok (false, e) := by
    rw [← wet]
    rfl
  simp only [Routine.closeFunction, Routine.steps, dry, text]

/-- A function literal makes a function of a text once it has been read. -/
structure MakesFunction (e : Engine) (source : ByteArray) (e₁ : Engine) : Prop where
  passes : e.Passes e₁
  used : e₁.cursor.consumed = true
  ends : ∀ o, (Routine.group e).Ends o ↔ (Routine.newFunction source e₁).Ends o

theorem legible_onFunction (here : e.cursor = .onFunction source) :
    e.Legible ∧ e.reads = .ofBytes (shownFunction source) ∧ e.seen = .keyword .functionKw
      ∧ e.past.cursor = (Cursor.onFunction source).use := by
  have size : 8 ≤ (shownFunction source).size := by
    have word : "function".toUTF8.size = 8 := by decide +kernel
    rw [shownFunction, ByteArray.size_append, word]
    omega
  have reads : e.reads = .ofBytes (shownFunction source) := by
    rw [Engine.reads, here]
    rfl
  refine ⟨⟨?_, ?_, ?_, ?_⟩, reads, ?_, ?_⟩
  · show decide (e.reads.start + e.reads.length ≤ e.reads.bytes.size) = true
    rw [reads]
    simp [Source.ofBytes]
  · rw [here]
    exact size
  · rw [here]
    exact (Nat.zero_add 8).trans_le size
  · rw [here]
    exact show Value.zero.kind = .number by decide
  · rw [Engine.seen, here]
    rfl
  · rw [Engine.past, here]
    rfl

theorem window_shownFunction (source : ByteArray) :
    Source.Window (.ofBytes (shownFunction source)) (.ofBytes source) 8
      ∧ 8 + source.size = (shownFunction source).size := by
  have back := Source.window_back "function".toUTF8 source
  have total := ByteArray.size_append (a := "function".toUTF8) (b := source)
  rw [show "function".toUTF8.size = 8 by decide +kernel] at back total
  exact ⟨back, total.symm⟩

/-- The opening parenthesis comes right behind the keyword. -/
theorem past_onFunction (place : e.cursor = (Cursor.onFunction source).use)
    (text : e.reads = .ofBytes (shownFunction source))
      (opening : (Source.ofBytes source).holds 0 '(' = true) :
    e.seen = .leftParen ∧ e.past.cursor = (e.cursor.accept ⟨.leftParen, 8, 1, none⟩).use := by
  have used : e.cursor.consumed = true := by
    rw [place]
    rfl
  have pos : e.cursor.pos = 8 := by
    rw [place]
    rfl
  have advance : e.cursor.advance e.arena.bytes = e.cursor.accept ⟨.leftParen, 8, 1, none⟩ := by
    rw [Cursor.advance, if_pos used, show e.cursor.source e.arena.bytes = _ from text, pos,
      Source.scan_leftParen ((window_shownFunction source).1.holds_of_holds opening)]
  rw [Engine.seen, Engine.past, advance]
  exact ⟨rfl, rfl⟩

/-- A function literal that is made a function is read once more where the function is
shown. -/
theorem exists_makesFunction (legible : e.Legible) (wet : e.mode.dry = false)
    (word : e.seen = .keyword .functionKw) (ends : (Routine.group e).Ends o)
      (fine : o.1.isError = false) :
    ∃ source e₁, e.MakesFunction source e₁ ∧ (Source.ofBytes source).holds 0 '(' = true
      ∧ ∀ e' : Engine, e'.cursor = .onFunction source → e'.mode.dry = false → e'.depth ≤ e.depth →
        e'.maxDepth = e.maxDepth →
        ∃ e₁', e'.MakesFunction source e₁' ∧ e₁'.cursor.pos = (shownFunction source).size := by
  obtain ⟨e₀, e₁, group, passes, place⟩ := group_eq legible word
  have shallow : ¬Routine.tooDeep e = true := by
    intro deep
    rw [group, if_pos deep] at ends
    cases fine.symm.trans (isError_of_fail ends.of_ofExcept)
  rw [if_neg shallow] at group
  have legible₁ := passes.legible legible
  rw [group] at ends
  obtain ⟨v, e₂, v', e₃, reads, -⟩ := ReadsFunction.of_ends legible₁ ends fine
  have used : e₁.cursor.consumed = true := by
    rw [place]
    rfl
  obtain ⟨some, paren⟩ := reads.holds_paren used
  obtain ⟨e₄, last⟩ : ∃ e₄, e₄ = (e₃.outdoors e₂.mode).past := ⟨_, rfl⟩
  have onward : e₁.past.Passes e₄ := last ▸ reads.passes
  have whole := (Passes.past e₁).trans onward
  have legible₄ := whole.legible legible₁
  have low := (onward.rises.pos legible₁.past.inside).1
  obtain ⟨window, size⟩ := legible₄.window (i := e₁.past.cursor.pos - 1)
    (n := e₄.cursor.pos - (e₁.past.cursor.pos - 1)) (by have := legible₄.inside; omega)
  have close := closeFunction_eq legible₄ ((passes.trans whole).mode_eq ▸ wet)
    (i := e₁.past.cursor.pos - 1) (by omega)
  generalize e₄.reads.slice (e₁.past.cursor.pos - 1) _ = source at window size close
  rw [whole.reads_eq] at window
  have opening : (Source.ofBytes source).holds 0 '(' = true := by
    rw [← window.holds_eq '(' (show 0 < source.size by omega)]
    exact paren
  refine ⟨source, e₄, ⟨passes.trans whole, last ▸ rfl, fun o => ?_⟩, opening,
    fun e' here wet' depth limit => ?_⟩
  · rw [group, reads.ends_iff legible₁, ← last, close]
  obtain ⟨legible', reads', word', past'⟩ := legible_onFunction here
  obtain ⟨e₀', e₁', group', passes', place'⟩ := group_eq legible' word'
  have shallow' : ¬Routine.tooDeep e' = true := by
    simp only [Routine.tooDeep, limit, Bool.and_eq_true, decide_eq_true_eq] at shallow ⊢
    omega
  rw [if_neg shallow'] at group'
  rw [past'] at place'
  have text' : e₁'.reads = .ofBytes (shownFunction source) := passes'.reads_eq.trans reads'
  have legible₁' := passes'.legible legible'
  obtain ⟨paren', cursor'⟩ := past_onFunction place' text' opening
  obtain ⟨back, total⟩ := window_shownFunction source
  let t : Tie := ⟨e₁.reads, .ofBytes (shownFunction source), .ofBytes source, e₁.past.cursor.pos -
    1, 8, window,
    back, total⟩
  have twin : t.Twin e₁.past e₁'.past := by
    have token : e₁.past.cursor.token = .leftParen := reads.paren
    refine ⟨(Passes.past e₁).reads_eq, (Passes.past e₁').reads_eq.trans text', ?_, ?_,
      Nat.sub_le _ _, ?_, ?_, ?_, ?_, ?_⟩
    · rw [(passes.trans (.past e₁)).depth_eq.1, (passes'.trans (.past e₁')).depth_eq.1]
      exact depth
    · rw [(passes.trans (.past e₁)).depth_eq.2, (passes'.trans (.past e₁')).depth_eq.2]
      exact limit
    · rw [cursor']
      show 9 + (e₁.past.cursor.pos - 1) = _ + 8
      omega
    · rw [cursor', token]
      rfl
    · rw [cursor']
      rfl
    · rw [token]
      rintro ⟨⟩
    · rw [token]
      rintro ⟨⟩
  have ends : (e₃.outdoors e₂.mode).past.cursor.pos = t.last := by
    rw [← last]
    show _ = e₁.past.cursor.pos - 1 + source.size
    omega
  obtain ⟨e₂', e₃', copied, twin'⟩ := reads.copy legible₁ legible₁' paren' twin
    (passes.mode_eq ▸ wet) ends
  obtain ⟨e₄', last'⟩ : ∃ e₄', e₄' = (e₃'.outdoors e₂'.mode).past := ⟨_, rfl⟩
  rw [← last, ← last'] at twin'
  have whole' : e₁'.Passes e₄' := last' ▸ (Passes.past e₁').trans copied.passes
  have pos' : e₄'.cursor.pos = (shownFunction source).size := by
    have pos : e₄'.cursor.pos + (e₁.past.cursor.pos - 1) = e₄.cursor.pos + 8 := twin'.near.pos
    omega
  refine ⟨e₄', ⟨passes'.trans whole', last' ▸ rfl, fun o => ?_⟩, pos'⟩
  have close' := closeFunction_eq (whole'.legible legible₁') ((passes'.trans whole').mode_eq ▸ wet')
    (i := 8) (by omega)
  rw [whole'.reads_eq, text', pos', ← total, Nat.add_sub_cancel_left, back.slice 0 _
    (by simp [Source.ofBytes])]
    at close'
  have start' : e₁'.past.cursor.pos - 1 = 8 := by
    rw [cursor']
    rfl
  rw [group', copied.ends_iff legible₁', ← last', start', close',
    (Source.shows_ofBytes source).slice (by omega),
    Nat.zero_add, ByteArray.extract_zero_size]

end Engine

end ArenaScript
