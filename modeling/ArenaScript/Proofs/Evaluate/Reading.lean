import ArenaScript.Proofs.Evaluate.Account

/-!
# The routines of a dry run

Every routine of a dry run gets by with the credit of its production: it calls
productions with less credit of their own, or has used up a token before.
-/

namespace ArenaScript

open Engine

/-! ## Tokens that are used up -/

theorem Token.isBare_of_unary? {t : Token} {op : UnaryOp} (found : t.unary? = some op) :
    t.isBare = false := by
  cases t <;> first | rfl | cases found

theorem Routine.isBare_of_operatorFrom? {level : Nat} {t : Token} {op : BinaryOp × Nat}
    (found : operatorFrom? level t = some op) : t.isBare = false := by
  cases t <;> first | rfl | cases found

/-- A dry run goes through no round of a loop. -/
theorem Production.routine_rounds {m : Mode} (dry : m.dry = true) {marks : LoopMarks} {e : Engine}
    (here : marks.after = e.cursor.pos) :
    (Production.rounds m marks).routine e = .finished (.value .undefined, e) := by
  have left : Routine.leaveLoop marks e = .ok (.undefined, e) := by
    show (if !e.mode.returned then _ else _ : Action Value) e = _
    rw [here]
    split <;> rfl
  show Routine.rounds m marks e = _
  unfold Routine.rounds
  simp only [if_pos dry, Routine.steps, left]

theorem Production.performs_rounds {m : Mode} (dry : m.dry = true) {marks : LoopMarks} {e : Engine}
    {o : Value × Engine} (here : marks.after = e.cursor.pos)
    (performs : (Production.rounds m marks).Performs e o) : o = (.undefined, e) := by
  obtain ⟨r, ends, yields⟩ := performs_iff_ends.mp performs
  rw [routine_rounds dry here] at ends
  rw [ends.of_finished] at yields
  exact yields

namespace Routine.Lasts

open Production

variable {d : Modes} {h s l : Nat} {vs : List Value} {A : Assertion}

/-! ## Primary expressions -/

theorem parameters (afterComma : Bool) :
    Still d h vs (Has 0) (.parameters afterComma) (Routine.parameters afterComma) := by
  have stop : ∀ {t s}, Still d h vs (Sees t s) (.parameters afterComma) (Routine.give .undefined) :=
    giveConstant (by decide) rfl rfl
  refine act token fun t => ite (fun _ => stop) fun _ => ite (fun _ => stop) fun _ => ?_
  refine expecting (failing .malformed) (act token fun t => ite (fun _ => stop) fun _ => ?_)
  exact expecting (failing .malformed) (goOn trivial rfl (Nat.zero_le h) rfl rfl fun _ _ => nofun)

section

variable (dry : d.Dry)
include dry

theorem members : Still d (h + 1) vs (Has 0) .members Routine.members := by
  have stop : ∀ {us t s}, Still d (h + 1) us (Sees t s) .members (Routine.give .undefined) :=
    giveConstant (by decide) rfl rfl
  refine act token fun t => ite (fun _ => stop) fun _ => checkGive (memberKey dry) fun key _ => ?_
  refine act useSome fun _ => expecting (failing .malformed) ?_
  refine holdBind (simple dry (q := .expression) (l := 0) rfl rfl)
    (fun value fails => ofError fails (giveError fails))
    fun value fine => ofFine fine ?_
  refine after held (fun object _ => ⟨object, trivial⟩) fun object object' _ _ => addMember dry ?_
  refine ofFine (by decide) (act token fun t => ite (fun _ => stop) fun _ => ?_)
  exact expecting (failing .malformed) (goOn dry.own rfl (Nat.le_add_left 1 h) rfl rfl
    fun _ _ => nofun)

theorem objectLiteral : Gives d h vs (Has 33) Routine.objectLiteral 1 (Has 25) := by
  refine guard dry (checkReturn (l := 1) (constant (l := 33) (by decide) rfl) fun object fine => ?_)
  refine holdBind (call (q := .members) (l := 31) dry.own (fun _ _ _ _ => nofun)
    (Nat.le_add_left 1 h)
    fun _ _ has => has) (fun outcome fails => ofError fails (error fails fun _ _ has => ?_))
    fun outcome fine' => ofFine fine' (weaken (A := Has 31) ?_ fun _ _ has => has)
  · exact Nat.le_trans (Nat.le_of_ble_eq_true rfl) (Nat.le_trans (Nat.le_add_left 31 _) has)
  · refine expecting (failed _ rfl) ?_
    exact value (fun _ settle => settle.tail.head) fine fun _ _ has => has.less rfl

/-- The body of a function is a block whose brace is seen again. -/
theorem checkBody : Gives d h vs (Has 29) Routine.checkBody 1 (HasUnused 1) := by
  refine bindMode fun e e' peers => act (unuse (B := HasUsed 29) fun k c has => ?_) fun _ =>
    changeMode (Mode.eq_of_dry dry.own) (Mode.eq_of_dry dry.copy) ?_
  · exact Nat.le_trans (Nat.add_le_add_right k.credit_use_le _) has
  rw [peers.own, peers.copy]
  refine bind (l := 1) (call (q := .block false) ⟨dry.own, rfl⟩ (fun _ _ _ _ => nofun)
    (Nat.zero_le h)
    fun k c has => ?_) (fun outcome fails => restoreMode (error fails fun _ _ has => ?_))
    fun outcome fine => restoreMode (value (fun _ settle => settle.head) fine fun _ _ has => has)
  · have has : k.use.credit + 29 ≤ c := has
    show k.use.credit + 26 + 2 + 1 ≤ c
    omega
  · exact Nat.le_trans (Nat.le_add_left _ _) has

theorem functionLiteral : Gives d h vs (Has 33) Routine.functionLiteral 1 (Has 25) := by
  refine expecting (failed _ rfl) (bindMode fun e e' _ => ?_)
  refine checkReturn (l := 1) (simple dry (q := .parameters false) rfl rfl) fun outcome _ => ?_
  refine expecting (failed _ rfl) (expecting (failed _ rfl) ?_)
  refine checkReturn (less (checkBody dry) rfl) fun outcome _ => ?_
  refine act token fun t => ite (fun _ => failed _ rfl) fun brace => ?_
  obtain rfl : t = .rightBrace := Decidable.not_not.mp brace
  exact act (use rfl) fun _ => guard dry (constant (by decide) rfl)

/-- A name is a span, which differs from text to text. -/
theorem primary {t : Token} : Lasts d h vs (Sees t 1) (fun _ => True) (Value.Earns 1 (Has 25))
    Value.Like
    Routine.primary Routine.primary := by
  refine act token fun t => act noteUse fun _ => bindMode fun e e' peers => ?_
  by_cases deep : tooDeep e = true
  · rw [if_pos deep]
    exact failed _ rfl
  obtain ⟨tie, twin⟩ := peers.twin
  rw [if_neg deep, if_neg (mt twin.tooDeep deep)]
  -- a token that is not bare pays
  refine act (uses (B := fun k c => Has 1 k c ∧ (k.token.isBare = false → Has 33 k c)) fun k c sees
    => ?_)
    fun _ => bindGet fun e e' peers => ?_
  · refine ⟨Nat.le_trans (Nat.add_le_add_right k.credit_use_le 1) sees.2.2, fun room => ?_⟩
    have worth := Cursor.credit_use sees.1 room
    have has : k.credit + 1 ≤ c := sees.2.2
    show k.use.credit + 33 ≤ c
    omega
  obtain ⟨tie, twin⟩ := peers.twin
  have fails : ∀ f {x' : Routine Value}, Lasts d h vs
    (fun k c => k = e.cursor ∧ e.Legible ∧ Has 1 k c ∧
      (k.token.isBare = false → Has 33 k c)) (fun _ => True) (Value.Earns 1 (Has 25)) Value.Like
      (liftM (Engine.fail f)) x' :=
    fun f _ => fail f fun _ _ here => Nat.le_trans (Nat.le_add_left _ _) here.2.2.1
  have pays : e.cursor.token.isBare = false → ∀ k c, k = e.cursor ∧ e.Legible ∧ Has 1 k c ∧
      (k.token.isBare = false → Has 33 k c) → Has 33 k c := by
    rintro room _ c ⟨rfl, -, -, paid⟩
    exact paid room
  have like : ∀ {x : Routine Value}, e.cursor.token.isBare = false →
      Gives d h vs (Has 33) x 1 (Has 25) → Lasts d h vs
        (fun k c => k = e.cursor ∧ e.Legible ∧ Has 1 k c ∧
          (k.token.isBare = false → Has 33 k c))
        (fun _ => True) (Value.Earns 1 (Has 25)) Value.Like x x :=
    fun room gives => (gives.weaken (pays room)).loosen fun _ _ same => .inl same.symm
  dsimp only
  rw [twin.near.token]
  cases token : e.cursor.token with
  | number =>
    refine pure trivial (fun k c _ here => ?_) (.inl (twin.near.number token))
    have plain : e.cursor.number.isConstant = true := by
      simp only [Value.isConstant, Value.isError, here.2.1.number]
      decide
    exact ⟨.constant plain k, fun fails =>
      absurd fails (Bool.eq_false_iff.mp (Value.isError_of_isConstant plain)),
      fun _ => (pays (by rw [token]; rfl) k c here).less rfl⟩
  | string =>
    refine loosen (V := Eq) ?_ fun _ _ same => .inl same.symm
    refine mono (stringLiteral dry (l := 1) (fun k c here => ?_) fun k c here => ?_)
      fun v k c earns => ⟨earns.1, earns.2.1, fun fine =>
        (pays (by rw [token]; rfl) k c (earns.2.2 fine)).less rfl⟩
    · rw [here.1, token]
    · exact Nat.le_trans (Nat.le_add_left _ _) here.2.2.1
  | leftBrace => exact like (by rw [token]; rfl) (objectLiteral dry)
  | ident =>
    have kind : ∀ i n, (Value.span i n).kind = .span := fun _ _ => Value.kind_box ..
    refine pure trivial (fun k c _ here => ?_) (.inr ⟨kind _ _, kind _ _⟩)
    have plain : (Value.span (.ofNat e.cursor.tokenStart) (.ofNat e.cursor.tokenLength)).isError =
      false := by
      rw [Value.isError, kind]
      rfl
    have sound := Bool.eq_false_iff.mp plain
    refine ⟨⟨?_, ?_, fun _ => ?_, fun fails => absurd fails sound⟩,
      fun fails => absurd fails sound, fun _ => (pays (by rw [token]; rfl) k c here).less rfl⟩
    · rw [kind]; decide
    · rw [kind]; decide
    · have start := Value.spanStart_span_le e.cursor.tokenStart (.ofNat e.cursor.tokenLength)
      have length := Value.spanLength_span_le (.ofNat e.cursor.tokenStart) e.cursor.tokenLength
      have inside := here.2.1.token
      rw [here.1]
      omega
  | keyword word =>
    cases word with
    | functionKw => exact like (by rw [token]; rfl) (functionLiteral dry)
    | nullKw | undefinedKw | trueKw | falseKw =>
      exact like (by rw [token]; rfl) (constant (by decide) rfl)
    | _ => exact fails _
  | _ => exact fails _

theorem group : Lasts d h vs (Has 1) (fun _ => True) (Value.Earns 1 (Has 25)) Value.Like
    Routine.group Routine.group := by
  refine act token fun t => ite (fun _ => primary dry) fun paren => loosen (V := Eq) ?_
    fun _ _ same => .inl same.symm
  obtain rfl : t = .leftParen := Decidable.not_not.mp paren
  refine act (use rfl) fun _ => checkReturn (simple dry (q := .expression) (l := 1) rfl rfl) fun v
    fine =>
    act token fun t => ite (fun _ => failed _ rfl) fun paren => ?_
  obtain rfl : t = .rightParen := Decidable.not_not.mp paren
  exact act (use rfl) fun _ => head fine rfl

/-! ## Expressions -/

theorem expression : Still d h vs (Has 19) .expression Routine.expression :=
  deeper (simple dry (q := .assignment) (l := 0) rfl rfl) (fun _ fails => giveError fails) fun _ _
    => giveHead rfl rfl

/-- What starts with an error ends with it. -/
theorem assignment : Still d h vs (Has 17) .assignment Routine.assignment :=
  bind (simple dry (q := .conditional) (l := 1) rfl rfl)
    (fun v fails => goOn (p := .assignmentRest v) dry.own
      (by simp [Production.share, Production.gain, fails]) (Nat.zero_le h) rfl rfl fun _ =>
        Settle.single)
    fun v fine => goOn (p := .assignmentRest v) dry.own
      (by simp [Production.share, Production.gain, fine]) (Nat.zero_le h) rfl rfl fun _ =>
        Settle.single

theorem assignmentRest (left : Value) :
    Still d h (left :: vs) (Has 0) (.assignmentRest left) (Routine.assignmentRest left) := by
  refine ite giveError fun fine => act token fun t => ?_
  have gain : (Production.assignmentRest left).gain = 0 := if_neg fine
  split
  · refine act (use rfl) fun _ => holding (simple dry (q := .assignment) (l := 0) rfl rfl)
      (fun right fails => ofError fails (giveError fails)) fun right fine => ofFine fine ?_
    refine operands dry (.inl rfl) (goOn (p := .assignmentRest (left.joined right)) dry.own ?_
      (Nat.zero_le h) rfl rfl fun _ settle => .cons (settle.tail.head.joined settle.head) nofun)
    rw [gain, Nat.zero_sub]
    rfl
  · exact giveHead rfl (by rw [gain]; rfl)

theorem chooseFirst : Still d h vs (Has 56) .conditional (Routine.chooseFirst d.own)
    (Routine.chooseFirst d.copy) := by
  refine check (simple dry (q := .conditional) (l := 0) rfl rfl)
    (fun v fails => restoreMode (giveError fails))
    fun v _ => goDry dry (expecting (restoreMode (failing .malformed)) ?_)
  refine bind (simple dry (q := .conditional) (l := 0) rfl rfl) (fun other fails => restoreMode ?_)
    fun other fine => restoreMode ?_
  · rw [if_pos fails]
    exact giveError fails
  · rw [if_neg (Bool.eq_false_iff.mp fine)]
    exact give (fun _ settle => settle.tail.head) fun _ _ has => has.less rfl

theorem chooseSecond : Still d h vs (Has 56) .conditional (Routine.chooseSecond d.own)
    (Routine.chooseSecond d.copy) := by
  refine goDry dry (check (simple dry (q := .conditional) (l := 0) rfl rfl)
    (fun v fails => restoreMode (giveError fails)) fun v _ => ?_)
  exact expecting (restoreMode (failing .malformed))
    (restoreMode (goOn dry.own rfl (Nat.zero_le h) rfl rfl fun _ _ => nofun))

theorem conditional : Still d h vs (Has 14) .conditional Routine.conditional := by
  refine checkGive (simple dry (q := .logical .or) rfl rfl) fun v _ => act token fun t =>
    ite (fun _ => giveHead rfl rfl) fun question => ?_
  obtain rfl : t = .question := Decidable.not_not.mp question
  refine bindMode fun e e' peers => act (use rfl) fun _ => ?_
  rw [peers.own, peers.copy]
  refine resolved (List.mem_cons_self ..) fun u => act (isTruthy (List.mem_cons_self ..)) fun _ => ?_
  exact ite (fun _ => chooseFirst dry) fun _ => chooseSecond dry

theorem logical (op : LogicalOp) : Still d h vs (Has (Production.logical op).share) (.logical op)
    (Routine.logical op) := by
  have operand : Gives d h vs (Has (Production.logical op).share) (Routine.call (operandOf op)) 0
    (Has 25) := by
    cases op with
    | or => exact simple dry (q := .logical .and) rfl rfl
    | and => exact simple dry (q := .binary 0) rfl rfl
  refine checkGive operand fun v _ => bindMode fun e e' peers => ?_
  rw [peers.own, peers.copy]
  exact goOn (p := .logicalRest op v d.own) ⟨dry.own, rfl⟩ rfl (Nat.zero_le h) rfl rfl
    fun _ => Settle.single

theorem logicalRest (op : LogicalOp) (v : Value) : Still d h (v :: vs) (Has 0)
    (.logicalRest op v d.own)
    (Routine.logicalRest op v d.own) (Routine.logicalRest op v d.copy) := by
  refine act token fun t => ite (fun _ => restoreMode (giveHead rfl rfl)) fun same => ?_
  obtain rfl : t = .logical op := Decidable.not_not.mp same
  refine act (use rfl) fun _ => resolved (List.mem_cons_self ..) fun u =>
    act (isTruthy (List.mem_cons_self ..)) fun truth => ?_
  have operand : ∀ {us}, Gives d h us (Has 32) (Routine.call (.logical op)) 0 (Has 32) := by
    cases op with
    | or => exact fewer (simple dry (q := .logical .or) rfl rfl) rfl
    | and => exact fewer (simple dry (q := .logical .and) rfl rfl) rfl
  exact goDryIf dry (guard dry (check operand (fun _ fails => restoreMode (giveError fails))
    fun right _ =>
    goOn (p := .logicalRest op u d.own) ⟨dry.own, rfl⟩ rfl (Nat.zero_le h) rfl rfl
      fun _ settle => settle.tail.single))

theorem binary (level : Nat) : Still d h vs (Has 6) (.binary level) (Routine.binary level) :=
  bind (simple dry (q := .unary) (l := 1) rfl rfl)
    (fun v fails => goOn (p := .binaryRest level v) dry.own
      (by simp [Production.share, Production.gain, fails]) (Nat.zero_le h) rfl rfl fun _ =>
        Settle.single)
    fun v fine => goOn (p := .binaryRest level v) dry.own
      (by simp [Production.share, Production.gain, fine]) (Nat.zero_le h) rfl rfl fun _ =>
        Settle.single

theorem binaryRest (level : Nat) (left : Value) :
    Still d h (left :: vs) (Has 0) (.binaryRest level left) (Routine.binaryRest level left) := by
  refine ite giveError fun fine => act token fun t => ?_
  have gain : (Production.binaryRest level left).gain = 0 := if_neg fine
  split
  · next op own found =>
    refine act (use (isBare_of_operatorFrom? found)) fun _ => holding
      (simple dry (q := .binary (own + 1)) (l := 0) rfl rfl)
      (fun right fails => ofError fails (giveError fails)) fun right fine => ofFine fine ?_
    refine operands dry (.inl rfl) (goOn (p := .binaryRest level (left.joined right)) dry.own ?_
      (Nat.zero_le h) rfl rfl fun _ settle => .cons (settle.tail.head.joined settle.head) nofun)
    rw [gain, Nat.zero_sub]
    rfl
  · exact giveHead rfl (by rw [gain]; rfl)

/-- An operator on values at hand ends a production, unless the right one is an error. -/
theorem giveOperands {q : Production} {left right : Value}
    (first : ∀ k, Settle vs k → left.Settled k)
    (second : ∀ k, Settle vs k → right.Settled k) (op : Value → Value → Action Value)
    (le : ∀ k c, A k c → right.isError = true ∨ (q.stop k).credit + q.gain ≤ c) :
    Still d h vs A q (liftM (Engine.withOperands left right op) >>= fun v => Routine.give v) := by
  refine operands dry (.inl rfl) (pure trivial (fun k c settle here =>
    ⟨(first k settle).joined (second k settle), fun _ => Nat.zero_le c, fun fine => ?_⟩) rfl)
  rcases le k c here with fails | left
  · rw [Value.joined] at fine
    split at fine
    · next error => cases fine.symm.trans error
    · simp only [fails] at fine
      cases fine
  · exact left

theorem stepped : Gives d h vs (Has 3) Routine.stepped 0 (Has 24) := by
  refine checkReturn (l := 0) (simple dry (q := .access) rfl rfl) fun v fine => act token fun t => ?_
  have step : ∀ op, Gives d h (v :: vs) (Has 56) (liftM (Engine.applyStep op v)) 0 (Has 24) :=
    fun op =>
    last (operands dry (.inl rfl) (pure trivial (fun k c settle has => ⟨settle.head.joined
      (.constant (by decide) k), fun _ => Nat.zero_le c, fun _ => has.less rfl⟩) rfl))
  split
  · exact act (use rfl) fun _ => step _
  · exact act (use rfl) fun _ => step _
  · exact head fine rfl

theorem power : Still d h vs (Has 3) .unary Routine.power := by
  refine checkGive (stepped dry) fun v _ => act token fun t => ite (fun _ => giveHead rfl rfl)
    fun power => ?_
  obtain rfl : t = .binary .power := Decidable.not_not.mp power
  refine act (use rfl) fun _ => holding (simple dry (q := .unary) (l := 0) rfl rfl)
    (fun right fails => ?_)
    fun right _ => ?_
  · exact giveOperands dry (fun _ settle => settle.tail.head) (fun _ settle => settle.head) _
      fun _ _ _ => .inl fails
  · exact giveOperands dry (fun _ settle => settle.tail.head) (fun _ settle => settle.head) _
      fun _ _ has => .inr (has.less rfl)

theorem unary : Still d h vs (Has 3) .unary Routine.unary := by
  refine act token fun t => ?_
  split
  · next op found =>
    refine act (use (Token.isBare_of_unary? found)) fun _ => bind
      (simple dry (q := .unary) (l := 0) rfl rfl)
      (fun v fails => ?_) fun v _ => ?_
    · exact giveOperands dry (fun k _ => .constant (by decide) k) (fun _ settle => settle.head) _
        fun _ _ _ => .inl fails
    · exact giveOperands dry (fun k _ => .constant (by decide) k) (fun _ settle => settle.head) _
        fun _ _ has => .inr (has.less rfl)
  · exact less (power dry) rfl

/-! ## Accesses and calls -/

theorem argumentList (afterComma : Bool) :
    Still d h vs (Has 21) (.argumentList afterComma) (Routine.argumentList afterComma) := by
  have stop : ∀ {us t s}, Still d h us (Sees t s) (.argumentList afterComma)
    (Routine.give .undefined) :=
    giveConstant (by decide) rfl rfl
  have rest : ∀ {us}, Still d h us (Has 0) (.argumentList afterComma) (do
      if (← Engine.token) = .rightParen then Routine.give .undefined
      else if !(← Engine.expect .comma) then Routine.give (← Engine.malformed)
      else Routine.goOn (.argumentList true)) :=
    act token fun t => ite (fun _ => stop) fun _ => expecting (failing .malformed)
      (goOn dry.own rfl (Nat.zero_le h) rfl rfl fun _ _ => nofun)
  refine act token fun t => ite (fun _ => stop) fun _ => ite (fun _ => stop) fun _ => ?_
  exact bind (l := 0) (simple dry (q := .expression) rfl rfl) (fun _ _ => less rest rfl) fun _ _ =>
    less rest rfl

/-- The span of an argument list; its extent is of no interest to a dry run. -/
theorem argumentSpan : Lasts d h vs (Sees .leftParen 0) (fun _ => True)
    (fun v k c => (v.isError = true → v.Settled k) ∧ (v.isError = false → Has 1 k c)) Value.Like
    Routine.argumentSpan Routine.argumentSpan := by
  refine bindMode fun e e' _ => bindMode fun e₁ e₁' peers => goDry dry (act (use rfl) fun _ => ?_)
  rw [peers.own, peers.copy]
  refine bind (l := 0) (simple dry (q := .argumentList false) rfl rfl)
    (fun outcome fails => restoreMode (ofError fails ?_)) fun outcome fine => restoreMode
      (ofFine fine ?_)
  · exact pure trivial (fun _ _ settle _ => ⟨fun _ => settle.head,
      fun fine => (nomatch fine.symm.trans fails)⟩) (.inl rfl)
  · have kind : ∀ i n, (Value.span i n).kind = .span := fun _ _ => Value.kind_box ..
    refine expecting (mono (failed (l := 0) (B := Has 1) _ rfl) fun _ _ _ earns =>
      ⟨fun _ => earns.1, earns.2.2⟩)
      (bindMode fun e e' _ => pure trivial (fun k c _ has =>
        ⟨fun fails => ?_, fun _ => has.less rfl⟩)
        (.inr ⟨kind _ _, kind _ _⟩))
    rw [Value.isError, kind] at fails
    cases fails

/-- A dry run calls nothing. -/
theorem applyCall {v arguments arguments' : Value} (fine : arguments.isError = false)
    (like : arguments.Like arguments') :
    Lasts d h (v :: vs) (Has 1) (fun _ => True) (fun u k c => u.Settled k ∧ Has 1 k c) Eq
      (Routine.applyCall v arguments) (Routine.applyCall v arguments') := by
  unfold Routine.applyCall
  rw [like.isError_eq, fine]
  exact ite (fun _ => pure trivial (fun _ _ settle has => ⟨settle.head, has⟩) rfl) fun _ =>
    guard dry (pure trivial (fun k _ _ has => ⟨.constant (by decide) k, has⟩) rfl)

theorem access : Still d h vs (Has 1) .access Routine.access := by
  refine after (group dry) (fun v _ => ⟨v, .inl rfl⟩) fun v v' _ like => earned (fun fails => ?_)
    fun fine => ?_
  · obtain rfl := like.eq_of_isError fails
    exact ofError fails (giveError fails)
  · have name : v.kind = .span → Still d h (v :: vs) (Has 25) .access
        (liftM (Engine.spanText v) >>= fun name => liftM (Engine.lookup name) >>= fun u =>
          Routine.goOn (.accessRest u))
        (liftM (Engine.spanText v') >>= fun name => liftM (Engine.lookup name) >>= fun u =>
          Routine.goOn (.accessRest u)) := fun span =>
      after (spanText (List.mem_cons_self ..) span) (fun name _ => ⟨name, trivial⟩) fun name name' _
        _ =>
        lookup dry (goOn dry.own rfl (Nat.zero_le h) rfl rfl fun k _ => .cons
          (.constant (by decide) k) nofun)
    simp only [like.isError_eq, fine, Bool.false_eq_true, if_false]
    rcases like with rfl | ⟨span, span'⟩
    · exact ite name fun _ => goOn dry.own rfl (Nat.zero_le h) rfl rfl fun _ => Settle.single
    · rw [if_pos span, if_pos span']
      exact name span

theorem accessRest (v : Value) :
    Still d h (v :: vs) (Has 0) (.accessRest v) (Routine.accessRest v) := by
  refine act token fun t => ?_
  split
  · refine act (use rfl) fun _ => hold (less (group dry) rfl) (fun name _ => ⟨name, .inl rfl⟩)
      fun name name' _ like => earned (fun _ => ?_) fun _ => ?_
    all_goals exact operands dry like (goOn dry.own rfl (Nat.zero_le h) rfl rfl fun _ settle =>
      .cons (settle.tail.head.joined settle.head) nofun)
  · refine after (argumentSpan dry) (fun u _ => ⟨u, .inl rfl⟩) fun arguments arguments' _ like => ?_
    rw [like.isError_eq]
    cases fails : arguments.isError with
    | true =>
      obtain rfl := like.eq_of_isError fails
      exact pure trivial (fun _ c _ here => ⟨here.1 rfl, fun _ => Nat.zero_le c,
        fun fine => (nomatch fine.symm.trans fails)⟩) rfl
    | false =>
      refine weaken (A := Has 1) ?_ fun _ _ here => here.2 rfl
      exact act (applyCall dry fails like) fun u => keep (fun _ _ _ here => here.1)
        (weaken (A := Has 1) (goOn dry.own rfl (Nat.zero_le h) rfl rfl fun _ => Settle.single) fun _
          _ here => here.2)
  · exact giveHead rfl rfl

/-! ## Statements -/

/-- A block starts by using up a token. -/
theorem block : Still d h vs (HasUsed 26) (.block false) (Routine.block false) := by
  refine checkGive (value (v := .undefined) (B := HasUsed 26) (fun k _ => .constant (by decide) k)
    (by decide)
    fun _ _ has => has) fun scope _ => act (uses (B := Has 26) fun _ _ has => has) fun _ => ?_
  refine bind (l := 0) (call (q := .blockRest .undefined) dry.own (fun k _ _ _ => ?_) (Nat.zero_le h)
    fun k c has => ?_) (fun v fails => giveError fails) fun v _ => give (fun _ settle => settle.head)
      fun _ _ has => has
  · exact .cons (.constant (by decide) k) nofun
  · exact has

theorem callStatement [pays : A.Pays s] (enough : Nat.ble (23 + l) s = true) :
    Gives d h vs A (Routine.call .statement) l (HasUnused (24 + l)) := by
  refine mono (call (q := .statement) (l := l) dry.own (fun _ _ _ _ => nofun) (Nat.zero_le h)
    fun k c here => ?_) fun v k c earns => ⟨earns.1, earns.2.1, fun fine => ?_⟩
  · have has : k.credit + s ≤ c := pays.has k c here
    have enough := Nat.le_of_ble_eq_true enough
    show k.credit + 21 + 2 + l ≤ c
    omega
  · have has : k.unuse.credit + 24 + l ≤ c := earns.2.2 fine
    show k.unuse.credit + (24 + l) ≤ c
    omega

/-- The rest of a block goes on after a statement that has used up a token, or that
has failed. -/
theorem blockRest (v : Value) : Still d h (v :: vs) (Has (Production.blockRest v).share)
    (.blockRest v)
    (Routine.blockRest v) := by
  refine act token fun t => ite (fun _ => give (fun _ settle => settle.head) fun k c sees => ?_)
    fun on => ?_
  · show k.unuse.credit + 0 ≤ c
    rw [Cursor.unuse_eq sees.1]
    exact Nat.le_trans (Nat.add_le_add_left (Nat.zero_le _) _) sees.2.2
  simp only [Bool.or_eq_true, not_or, Bool.not_eq_true] at on
  rw [show (Production.blockRest v).share = 24 from if_neg (Bool.eq_false_iff.mp on.2)]
  have rest : ∀ {us : List Value} {s} (u : Value),
      Nat.ble ((Production.blockRest u).share + 1) s = true →
      Still d h (u :: us) (HasUnused s) (.blockRest v) (Routine.goOn (.blockRest u)) :=
    fun u enough =>
    goOn dry.own enough (Nat.zero_le h) rfl rfl fun _ => Settle.single
  refine bind (callStatement dry (l := 1) rfl) (fun u fails => bindMode fun e e' peers => ?_)
    fun u fine => bindMode fun e e' peers => ?_
  all_goals rw [peers.token]
  · refine ite (fun _ => failing _) fun _ => rest u ?_
    rw [show (Production.blockRest u).share = 0 from if_pos fails]
    decide
  · refine ite (fun _ => failing _) fun _ => rest u ?_
    rw [show (Production.blockRest u).share = 24 from if_neg (Bool.eq_false_iff.mp fine)]
    decide

theorem callBlock : Gives d h vs (Sees .leftBrace s) (Routine.call (.block false)) 0
    (HasUnused (s + 4)) := by
  refine mono (call (q := .block false) (l := s + 4) ⟨dry.own, rfl⟩ (fun _ _ _ _ => nofun)
    (Nat.zero_le h)
    fun k c sees => ?_) fun v k c earns => ⟨earns.1, fun _ => Nat.zero_le c, fun fine => ?_⟩
  · have worth := Cursor.credit_use sees.1 (by rw [sees.2.1]; rfl)
    have has : k.credit + s ≤ c := sees.2.2
    show k.use.credit + 26 + 2 + (s + 4) ≤ c
    omega
  · have has : k.unuse.credit + 0 + (s + 4) ≤ c := earns.2.2 fine
    show k.unuse.credit + (s + 4) ≤ c
    omega

theorem body : Gives d h vs (Has 32) Routine.body 0 (HasUnused 32) := by
  have enough : ∀ {s k c}, 32 ≤ s → HasUnused s k c → HasUnused 32 k c := fun le has =>
    Nat.le_trans (Nat.add_le_add_left le _) has
  refine act token fun t => ite (fun brace => guard dry ?_) fun _ => assoc ?_
  · cases brace
    exact mono (callBlock dry) fun v k c earns => ⟨earns.1, earns.2.1, fun fine =>
      enough (by decide) (earns.2.2 fine)⟩
  refine bind (resolving (callStatement dry (l := 9) rfl)) (fun v fails => ?_) fun v fine => ?_
  · exact act (unuse (B := fun _ _ => True) fun _ _ _ => trivial) fun _ => error fails fun _ c _ =>
      Nat.zero_le c
  · exact act (unuse (B := HasUnused 32) fun k c has => enough (k := k) (by decide) has) fun _ =>
      value (fun _ settle => settle.head) fine fun _ _ has => has

theorem initializer : Gives d h vs (Has 32) Routine.initializer 0 (Has 32) := by
  refine act token fun t => ite (fun assign => ?_) fun _ => constant (by decide) rfl
  cases assign
  exact act (use rfl) fun _ => fewer (simple dry (q := .expression) rfl rfl) rfl

theorem bindings : Still d h vs (Has 0) (.bindings false) (Routine.bindings false) := by
  refine expecting (failing .malformed) (bindMode fun e e' _ => checkGive
    (less (initializer dry) rfl) fun v _ => ?_)
  refine checkGive (constant (l := 0) (by decide) rfl) fun declared _ => act token fun t => ite
    (fun _ => giveConstant (by decide) rfl rfl) fun _ => ?_
  exact expecting (failing .malformed) (goOn ⟨dry.own, rfl⟩ rfl (Nat.zero_le h) rfl rfl fun _ _ =>
    nofun)

theorem declaration : Gives d h vs (Sees (.keyword .letKw) 21) Routine.declaration 0 (Has 32) :=
  guard dry (act (use rfl) fun _ => fewer (simple dry (q := .bindings false) rfl rfl) rfl)

/-- Neither branch of a choice is taken. -/
theorem choice : Gives d h vs (Sees (.keyword .ifKw) 21) Routine.choice 0 (Has 32) := by
  refine act (use rfl) fun _ => expecting (failed _ rfl) (assoc ?_)
  refine checkReturn (l := 0) (resolving (simple dry (q := .expression) rfl rfl)) fun condition _ =>
    ?_
  refine expecting (failed _ rfl) (act (isTruthy (List.mem_cons_self ..)) fun taken => guard dry
    (goDryIf dry ?_))
  refine checkReturn (less (body dry) rfl) fun v fine => ?_
  simp only [Bool.not_true, Bool.false_and]
  refine keep (v := if taken then v else .undefined) (fun k _ settle _ => ?_) ?_
  · split
    · exact settle.head
    · exact .constant (by decide) k
  have fine' : (if taken then v else .undefined : Value).isError = false := by
    split
    · exact fine
    · decide
  generalize (if taken then v else .undefined : Value) = u at fine' ⊢
  refine ahead ?_ (head fine' rfl) rfl
  refine act drop fun _ => goDryIf dry (checkReturn (body dry) fun other other_fine => bindMode
    fun _ _ _ => ?_)
  simp only [Bool.not_true, Bool.and_false, Bool.false_and]
  refine keep (v := if taken then u else other) (fun k _ settle _ => ?_) (head ?_ rfl)
  · split
    · exact settle.tail.head
    · exact settle.head
  · split
    · exact fine'
    · exact other_fine

/-- An expression, unless it is left out. -/
theorem optional (t : Token) : Gives d h vs (Has 32) (Routine.optional t) 0 (Has 32) :=
  act token fun _ => ite (fun _ => constant (by decide) rfl) fun _ => fewer
    (simple dry (q := .expression) rfl rfl) rfl

theorem loopStart : Gives d h vs (Has 32) Routine.loopStart 0 (Has 32) := by
  refine act token fun t => ?_
  split
  · exact constant (by decide) rfl
  · exact weaken (declaration dry) fun _ _ sees => ⟨sees.1, sees.2.1, Has.less sees.2.2 rfl⟩
  · exact fewer (simple dry (q := .expression) rfl rfl) rfl

/-- The parts of a loop end with its rounds, which a dry run does not go through. -/
theorem closing [pays : A.Pays 32] {marks marks' : Nat → LoopMarks}
    (after : ∀ i, (marks i).after = i)
    (after' : ∀ i, (marks' i).after = i) :
    Gives d h vs A (get >>= fun e => Routine.call (.rounds d.own (marks e.cursor.pos))) 0 (Has 30)
      (get >>= fun e => Routine.call (.rounds d.copy (marks' e.cursor.pos))) := by
  intro sure e c stands here
  have has : sure → e.cursor.credit + 32 ≤ c := fun yes => pays.has _ _ (here yes)
  refine .waiting ⟨⟨stands.mode, fun _ => Nat.zero_le _, stands.legible, fun _ => nofun⟩,
    .inr ⟨_, rfl, dry.own, after _⟩⟩ (fun yes => ?_) fun o performs owed => ?_
  · have has := has yes
    show e.cursor.credit + 0 + 2 ≤ c
    omega
  obtain rfl := performs_rounds dry.own (after _) performs
  refine .finished ⟨trivial, owed.1, fun yes => ⟨(owed.2 yes).1, fun _ => Nat.zero_le _, fun fine =>
    ?_⟩,
    fun yes t e' r' mode' twin ends way => ?_⟩
  · have has := has yes
    have left : (Budget.dryRun d).after (.rounds d.own (marks e.cursor.pos)) (.undefined, e)
        = e.cursor.credit := if_neg (Bool.eq_false_iff.mp fine)
    show e.cursor.credit + 30 ≤ c - (e.cursor.credit + 0 + 2) + (Budget.dryRun d).after _ _
    rw [left]
    omega
  · obtain rfl := performs_rounds dry.copy (after' _) (Progress.ends_call.mp ends)
    exact ⟨.refl e', twin.near, rfl⟩

theorem loopParts : Gives d h vs (Has 32) (Routine.loopParts d.own) 0 (Has 30)
    (Routine.loopParts d.copy) := by
  refine goDry dry (bindMode fun _ _ _ => checkReturn (optional dry .semicolon) fun _ _ => ?_)
  refine expecting (failed _ rfl) (bindMode fun _ _ _ => checkReturn
    (less (optional dry .rightParen) rfl) fun _ _ => ?_)
  refine expecting (failed _ rfl) (bindMode fun _ _ _ => checkReturn (less (body dry) rfl) fun _ _
    => ?_)
  exact closing dry (fun _ => rfl) fun _ => rfl

theorem loop : Gives d h vs (Has 0) Routine.loop 0 (Has 30) := by
  have inScope : ∀ {us}, Gives d h us (Has 0) (Routine.loopInScope d.own) 0 (Has 30)
      (Routine.loopInScope d.copy) :=
    expecting (failed _ rfl) (expecting (failed _ rfl)
      (checkReturn (less (loopStart dry) rfl) fun _ _ =>
      expecting (failed _ rfl) (loopParts dry)))
  -- the mark of a return is that of the dry run itself
  have same : ∀ {m : Mode}, m.dry = true → { m with dry := true, returned := m.returned
    || m.returned } = m := by
    intro m dry
    rw [Bool.or_self, ← dry]
  refine bindMode fun e e' peers => ?_
  simp only [peers.own, peers.copy, dry.own, dry.copy, Bool.not_true, Bool.false_eq_true, if_true,
    if_false]
  refine checkReturn (l := 0) (constant (l := 0) (by decide) rfl) fun scope _ => ?_
  refine bind inScope (fun v fails => changeMode (same dry.own) (same dry.copy) ?_) fun v fine =>
    changeMode (same dry.own) (same dry.copy) ?_
  · simp only [fails, Bool.not_true]
    exact error fails fun _ c _ => Nat.zero_le c
  · simp only [fine, Bool.not_false, if_true]
    exact act closeLoop fun _ => head fine rfl

theorem jump {t : Token} (room : t.isBare = false) (mark : Mode → Mode) :
    Gives d h vs (Sees t 0) (Routine.jump mark) 0 (Has 32) := by
  refine bindMode fun e e' peers => ?_
  simp only [peers.own, peers.copy, dry.own, dry.copy, Bool.not_true, Bool.false_and]
  exact act (use room) fun _ => constant (by decide) rfl

theorem returnStatement : Gives d h vs (Sees (.keyword .returnKw) 0) Routine.returnStatement 0
    (Has 32) := by
  have returned : Gives d h vs (Has 32) Routine.returnValue 0 (Has 32) :=
    act token fun _ => ite (fun _ => constant (by decide) rfl) fun _ => resolving
      (fewer (simple dry (q := .expression) rfl rfl) rfl)
  refine bindMode fun e e' peers => act (use rfl) fun _ => ?_
  simp only [peers.own, peers.copy, dry.own, dry.copy, Bool.not_true, Bool.false_and]
  exact checkReturn returned fun v fine => head fine rfl

theorem openStatement : Gives d h vs (Has 21) Routine.openStatement 0 (Has 24) := by
  have plain : ∀ t, Gives d h vs (Sees t 21) (do Engine.resolve (← Routine.call .expression)) 0
    (Has 24) :=
    fun t => resolving (simple dry (q := .expression) rfl rfl)
  have sees : ∀ {t k c}, Sees t 21 k c → Sees t 0 k c := fun sees =>
    ⟨sees.1, sees.2.1, Has.less sees.2.2 rfl⟩
  refine act token fun t => ?_
  split
  · exact fewer ((jump dry rfl _).weaken fun _ _ => sees) rfl
  · exact fewer ((jump dry rfl _).weaken fun _ _ => sees) rfl
  · exact fewer (declaration dry) rfl
  · exact fewer (choice dry) rfl
  · exact fewer (less (loop dry) rfl) rfl
  · exact fewer ((returnStatement dry).weaken fun _ _ => sees) rfl
  · refine guard dry (mono (callBlock dry) fun v k c earns => ⟨earns.1, earns.2.1, fun fine => ?_⟩)
    exact (Assertion.Pays.has (A := HasUnused 25) k c (earns.2.2 fine)).less rfl
  · refine ite (fun _ => after tokenText (fun text _ => ⟨text, trivial⟩) fun _ _ _ _ => failed _
      rfl) fun _ =>
      plain _
  · exact plain _

theorem statement : Still d h vs (Has 21) .statement Routine.statement := by
  refine collectIfDue dry (checkGive (openStatement dry) fun v _ => act token fun t =>
    ite (fun _ => failing _) fun _ => ?_)
  refine act (uses (B := HasUnused 24) fun k c sees => ?_) fun _ => give
    (fun _ settle => settle.head)
    fun _ _ has => has
  show k.unuse.credit + 24 ≤ c
  rw [Cursor.unuse_eq sees.1]
  exact sees.2.2

end

end Routine.Lasts

end ArenaScript
