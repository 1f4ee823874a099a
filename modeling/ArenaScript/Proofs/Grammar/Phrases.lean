import ArenaScript.Evaluate.Statement
import ArenaScript.Proofs.Source.Parameters

/-!
# The grammar

What a text has to look like for a production to read it, apart from what the
production does on the way.  A place of a text says where the next token is
looked for and which token was seen last.  `Derives` relates the place where a
phrase starts to the one where it ends; its rules follow the routines step by
step, so that the token after a phrase may have been seen already.

Main definitions:

- `Place`: a place of a text.
- `Phrase`: the productions, and the parts of them that have a rule of their own.
- `Spells`, `Derives`: a phrase stands between two places of a text.

Main results:

- `Spells.callable`: the text of a function literal can be called.
-/

namespace ArenaScript.Grammar

/-! ## Places -/

/-- The literal of a string token can be decoded; other tokens have none. -/
def isSound (text : ByteArray) (token : Token) (start length : Nat) : Bool :=
  token ≠ .string || (Source.unescape ⟨text, start, length⟩).2

/-- A place of a text. -/
@[ext]
structure Place where
  /-- Where the next token is looked for. -/
  pos : Nat
  /-- The token seen last. -/
  token : Token
  /-- The token was used, so that the next one is due. -/
  consumed : Bool
  /-- The literal of the token can be decoded. -/
  sound : Bool

namespace Place

/-- The place after the next token is seen, unless the current one is unused. -/
def advance (k : Place) (text : ByteArray) : Place :=
  if k.consumed then
    let lexeme := (Source.ofBytes text).scan k.pos
    { pos := lexeme.start + lexeme.length
      token := lexeme.token
      consumed := false
      sound := isSound text lexeme.token lexeme.start lexeme.length }
  else k

/-- The current token is used up. -/
def use (k : Place) : Place := { k with consumed := true }

/-- The current token is to be seen again. -/
def unuse (k : Place) : Place := { k with consumed := false }

/-- A position before a token. -/
def due (pos : Nat) : Place := ⟨pos, .bad, true, true⟩

/-- A position with a semicolon to be seen. -/
def closed (pos : Nat) : Place := ⟨pos, .semicolon, false, true⟩

/-- The next token. -/
abbrev next (k : Place) (text : ByteArray) : Token := (k.advance text).token

/-- The place behind the next token. -/
abbrev pass (k : Place) (text : ByteArray) : Place := (k.advance text).use

/-- The place behind a step, if one comes next. -/
def passStep (k : Place) (text : ByteArray) : Place :=
  if k.next text = .increment ∨ k.next text = .decrement then k.pass text else k.advance text

@[simp] theorem consumed_advance (k : Place) (text : ByteArray) :
    (k.advance text).consumed = false := by
  unfold advance
  split
  · rfl
  · exact Bool.eq_false_iff.mpr ‹_›

@[simp] theorem advance_of_seen {k : Place} (seen : k.consumed = false) (text : ByteArray) :
    k.advance text = k := by
  simp [advance, seen]

@[simp] theorem advance_advance (k : Place) (text : ByteArray) :
    (k.advance text).advance text = k.advance text :=
  advance_of_seen (k.consumed_advance text) text

@[simp] theorem unuse_pass (k : Place) (text : ByteArray) :
    (k.pass text).unuse = k.advance text := by
  have seen := k.consumed_advance text
  rw [pass, use, unuse, ← seen]

/-- Only the position counts once the token is used. -/
theorem advance_congr {k k' : Place} (used : k.consumed = true) (used' : k'.consumed = true)
    (pos : k.pos = k'.pos) (text : ByteArray) : k.advance text = k'.advance text := by
  rw [advance, advance, if_pos used, if_pos used', pos]

theorem le_advance (k : Place) (text : ByteArray) : k.pos ≤ (k.advance text).pos := by
  unfold advance
  split
  · exact Source.le_stop _ _
  · exact Nat.le_refl _

/-- A token that is due takes up room, unless it is the last one. -/
theorem lt_advance {k : Place} {text : ByteArray} (used : k.consumed = true)
    (proper : k.next text ≠ .eof ∧ k.next text ≠ .bad) : k.pos < (k.advance text).pos := by
  simp only [next, advance, if_pos used] at proper ⊢
  exact (Source.lt_stop_scan proper).2

end Place

/-! ## Phrases -/

/-- Productions and parts of them. -/
inductive Phrase where
  | expression
  | assignment
  | assignmentRest
  | conditional
  | logical (op : LogicalOp)
  | logicalRest (op : LogicalOp)
  | binary (level : Nat)
  | binaryRest (level : Nat)
  | unary
  | access
  | accessRest
  | group
  | primary
  | object
  | members
  | function
  | parameters (afterComma : Bool)
  | arguments
  | argumentList (afterComma : Bool)
  | statement
  | opened
  | block
  | blockRest
  | body
  | bindings
  | initializer
  | choice
  | loop
  | loopStart
  | optional (t : Token)
  | returnValue
  | script

/-- The operands of a logical operator. -/
def operandOf : LogicalOp → Phrase
  | .or => .logical .and
  | .and => .binary 0

/-- A literal or a name of one token. -/
def isAtom : Token → Bool
  | .number | .string | .ident => true
  | .keyword .nullKw | .keyword .undefinedKw | .keyword .trueKw | .keyword .falseKw => true
  | _ => false

/-- The name of a member may be a string. -/
def isKey (t : Token) : Bool := t = .ident || t = .string

/-- A jump. -/
def isJump (t : Token) : Bool := t = .keyword .continueKw || t = .keyword .breakKw

/-- No statement but an expression starts with the token. -/
def opensExpression : Token → Bool
  | .leftBrace => false
  | .keyword word =>
    match word with
    | .continueKw | .breakKw | .letKw | .ifKw | .forKw | .returnKw => false
    | word => !word.isReserved
  | _ => true

open Routine (operatorFrom? endsStatement)

/-- A phrase stands between two places of a text.  A body that is a single statement
may end with the brace of the block around it, which that block does not see
then; in a tidy text it may not. -/
inductive Spells (tidy : Prop) (text : ByteArray) : Phrase → Place → Place → Prop
  -- expressions
  | expression {k k' : Place} (whole : Spells tidy text .assignment k k') :
      Spells tidy text .expression k k'
  | assignment {k k₁ k' : Place} (left : Spells tidy text .conditional k k₁)
      (rest : Spells tidy text .assignmentRest k₁ k') : Spells tidy text .assignment k k'
  | assignmentRest {k k₁ k' : Place} {op : Option BinaryOp} (sign : k.next text = .assign op)
      (right : Spells tidy text .assignment (k.pass text) k₁)
      (rest : Spells tidy text .assignmentRest k₁ k') : Spells tidy text .assignmentRest k k'
  | assignmentEnd {k : Place} (other : ∀ op, k.next text ≠ .assign op) :
      Spells tidy text .assignmentRest k (k.advance text)
  | conditionalEnd {k k₁ : Place} (only : Spells tidy text (.logical .or) k k₁)
      (other : k₁.next text ≠ .question) : Spells tidy text .conditional k (k₁.advance text)
  | conditional {k k₁ k₂ k' : Place} (condition : Spells tidy text (.logical .or) k k₁)
      (question : k₁.next text = .question)
      (first : Spells tidy text .conditional (k₁.pass text) k₂) (colon : k₂.next text = .colon)
      (second : Spells tidy text .conditional (k₂.pass text) k') :
      Spells tidy text .conditional k k'
  | logical {op : LogicalOp} {k k₁ k' : Place} (left : Spells tidy text (operandOf op) k k₁)
      (rest : Spells tidy text (.logicalRest op) k₁ k') : Spells tidy text (.logical op) k k'
  | logicalRest {op : LogicalOp} {k k₁ k' : Place} (sign : k.next text = .logical op)
      (right : Spells tidy text (.logical op) (k.pass text) k₁)
      (rest : Spells tidy text (.logicalRest op) k₁ k') : Spells tidy text (.logicalRest op) k k'
  | logicalEnd {op : LogicalOp} {k : Place} (other : k.next text ≠ .logical op) :
      Spells tidy text (.logicalRest op) k (k.advance text)
  | binary {level : Nat} {k k₁ k' : Place} (left : Spells tidy text .unary k k₁)
      (rest : Spells tidy text (.binaryRest level) k₁ k') : Spells tidy text (.binary level) k k'
  | binaryRest {level own : Nat} {op : BinaryOp} {k k₁ k' : Place}
      (sign : operatorFrom? level (k.next text) = some (op, own))
      (right : Spells tidy text (.binary (own + 1)) (k.pass text) k₁)
      (rest : Spells tidy text (.binaryRest level) k₁ k') :
      Spells tidy text (.binaryRest level) k k'
  | binaryEnd {level : Nat} {k : Place} (other : operatorFrom? level (k.next text) = none) :
      Spells tidy text (.binaryRest level) k (k.advance text)
  | prefixed {k k' : Place} {op : UnaryOp} (sign : (k.next text).unary? = some op)
      (operand : Spells tidy text .unary (k.pass text) k') : Spells tidy text .unary k k'
  | unary {k k₁ : Place} (plain : (k.next text).unary? = none)
      (value : Spells tidy text .access (k.advance text) k₁)
      (other : (k₁.passStep text).next text ≠ .binary .power) :
      Spells tidy text .unary k ((k₁.passStep text).advance text)
  | power {k k₁ k' : Place} (plain : (k.next text).unary? = none)
      (value : Spells tidy text .access (k.advance text) k₁)
      (sign : (k₁.passStep text).next text = .binary .power)
      (exponent : Spells tidy text .unary ((k₁.passStep text).pass text) k') :
      Spells tidy text .unary k k'
  | access {k k₁ k' : Place} (value : Spells tidy text .group k k₁)
      (rest : Spells tidy text .accessRest k₁ k') : Spells tidy text .access k k'
  | property {k k₁ k' : Place} (dot : k.next text = .dot)
      (name : Spells tidy text .group (k.pass text) k₁)
      (rest : Spells tidy text .accessRest k₁ k') : Spells tidy text .accessRest k k'
  | call {k k₁ k' : Place} (opening : k.next text = .leftParen)
      (arguments : Spells tidy text .arguments (k.advance text) k₁)
      (rest : Spells tidy text .accessRest k₁ k') : Spells tidy text .accessRest k k'
  | accessEnd {k : Place} (dot : k.next text ≠ .dot) (opening : k.next text ≠ .leftParen) :
      Spells tidy text .accessRest k (k.advance text)
  | parenthesized {k k₁ : Place} (opening : k.next text = .leftParen)
      (inner : Spells tidy text .expression (k.pass text) k₁)
      (closing : k₁.next text = .rightParen) : Spells tidy text .group k (k₁.pass text)
  | group {k k' : Place} (opening : k.next text ≠ .leftParen)
      (only : Spells tidy text .primary (k.advance text) k') : Spells tidy text .group k k'
  -- literals and names
  | atom {k : Place} (atom : isAtom (k.next text) = true) (sound : (k.advance text).sound = true) :
      Spells tidy text .primary k (k.pass text)
  | objectLiteral {k k' : Place} (opening : k.next text = .leftBrace)
      (rest : Spells tidy text .object (k.pass text) k') : Spells tidy text .primary k k'
  | functionLiteral {k k' : Place} (word : k.next text = .keyword .functionKw)
      (rest : Spells tidy text .function (k.pass text) k') : Spells tidy text .primary k k'
  | object {k k₁ : Place} (all : Spells tidy text .members k k₁)
      (closing : k₁.next text = .rightBrace) : Spells tidy text .object k (k₁.pass text)
  | membersEnd {k : Place} (closing : k.next text = .rightBrace) :
      Spells tidy text .members k (k.advance text)
  | lastMember {k k₁ : Place} (key : isKey (k.next text) = true)
      (sound : (k.advance text).sound = true) (colon : (k.pass text).next text = .colon)
      (value : Spells tidy text .expression ((k.pass text).pass text) k₁)
      (closing : k₁.next text = .rightBrace) : Spells tidy text .members k (k₁.advance text)
  | member {k k₁ k' : Place} (key : isKey (k.next text) = true)
      (sound : (k.advance text).sound = true) (colon : (k.pass text).next text = .colon)
      (value : Spells tidy text .expression ((k.pass text).pass text) k₁)
      (comma : k₁.next text = .comma) (rest : Spells tidy text .members (k₁.pass text) k') :
      Spells tidy text .members k k'
  | function {k k₁ k₂ : Place} (opening : k.next text = .leftParen)
      (names : Spells tidy text (.parameters false) (k.pass text) k₁)
      (closing : k₁.next text = .rightParen) (brace : (k₁.pass text).next text = .leftBrace)
      (body : Spells tidy text .block ((k₁.pass text).advance text) k₂)
      (ending : k₂.next text = .rightBrace) : Spells tidy text .function k (k₂.pass text)
  | parametersCut {afterComma : Bool} {k : Place} (isOver : k.next text = .eof) :
      Spells tidy text (.parameters afterComma) k (k.advance text)
  | noParameters {k : Place} (closing : k.next text = .rightParen) :
      Spells tidy text (.parameters false) k (k.advance text)
  | lastParameter {afterComma : Bool} {k : Place} (name : k.next text = .ident)
      (closing : (k.pass text).next text = .rightParen) :
      Spells tidy text (.parameters afterComma) k ((k.pass text).advance text)
  | parameter {afterComma : Bool} {k k' : Place} (name : k.next text = .ident)
      (comma : (k.pass text).next text = .comma)
      (rest : Spells tidy text (.parameters true) ((k.pass text).pass text) k') :
      Spells tidy text (.parameters afterComma) k k'
  -- arguments
  | arguments {k k₁ : Place} (list : Spells tidy text (.argumentList false) k.use k₁)
      (closing : k₁.next text = .rightParen) : Spells tidy text .arguments k (k₁.pass text)
  | argumentsCut {afterComma : Bool} {k : Place} (isOver : k.next text = .eof) :
      Spells tidy text (.argumentList afterComma) k (k.advance text)
  | noArguments {k : Place} (closing : k.next text = .rightParen) :
      Spells tidy text (.argumentList false) k (k.advance text)
  | lastArgument {afterComma : Bool} {k k₁ : Place} (more : k.next text ≠ .eof)
      (value : Spells tidy text .expression (k.advance text) k₁)
      (opening : afterComma = true ∨ k.next text ≠ .rightParen)
      (closing : k₁.next text = .rightParen) :
      Spells tidy text (.argumentList afterComma) k (k₁.advance text)
  | argument {afterComma : Bool} {k k₁ k' : Place} (more : k.next text ≠ .eof)
      (value : Spells tidy text .expression (k.advance text) k₁)
      (opening : afterComma = true ∨ k.next text ≠ .rightParen) (comma : k₁.next text = .comma)
      (rest : Spells tidy text (.argumentList true) (k₁.pass text) k') :
      Spells tidy text (.argumentList afterComma) k k'
  -- statements
  | statement {k k₁ : Place} (whole : Spells tidy text .opened k k₁)
      (ending : endsStatement (k₁.next text) = true) : Spells tidy text .statement k (k₁.pass text)
  | jump {k : Place} (word : isJump (k.next text) = true) : Spells tidy text .opened k (k.pass text)
  | declaration {k k' : Place} (word : k.next text = .keyword .letKw)
      (names : Spells tidy text .bindings (k.pass text) k') : Spells tidy text .opened k k'
  | choiceStatement {k k' : Place} (word : k.next text = .keyword .ifKw)
      (whole : Spells tidy text .choice (k.advance text) k') : Spells tidy text .opened k k'
  | loopStatement {k k' : Place} (word : k.next text = .keyword .forKw)
      (whole : Spells tidy text .loop (k.advance text) k') : Spells tidy text .opened k k'
  | returnStatement {k k' : Place} (word : k.next text = .keyword .returnKw)
      (value : Spells tidy text .returnValue (k.pass text) k') : Spells tidy text .opened k k'
  | blockStatement {k k' : Place} (brace : k.next text = .leftBrace)
      (whole : Spells tidy text .block (k.advance text) k') : Spells tidy text .opened k k'
  | expressionStatement {k k' : Place} (opens : opensExpression (k.next text) = true)
      (whole : Spells tidy text .expression (k.advance text) k') : Spells tidy text .opened k k'
  | block {k k' : Place} (rest : Spells tidy text .blockRest k.use k') :
      Spells tidy text .block k k'
  | blockEnd {k : Place} (ending : k.next text = .eof ∨ k.next text = .rightBrace) :
      Spells tidy text .blockRest k (k.advance text)
  | blockRest {k k₁ k' : Place} (more : k.next text ≠ .eof) (open' : k.next text ≠ .rightBrace)
      (first : Spells tidy text .statement (k.advance text) k₁)
      (semicolon : k.next text = .leftBrace ∨ k.next text = .keyword .ifKw ∨ k₁.token = .semicolon)
      (rest : Spells tidy text .blockRest k₁ k') : Spells tidy text .blockRest k k'
  | bodyBlock {k k' : Place} (brace : k.next text = .leftBrace)
      (whole : Spells tidy text .block (k.advance text) k') : Spells tidy text .body k k'
  | body {k k₁ : Place} (brace : k.next text ≠ .leftBrace)
      (only : Spells tidy text .statement (k.advance text) k₁)
      (ends : tidy → k₁.token ≠ .rightBrace ∨ k.next text = .keyword .ifKw) :
      Spells tidy text .body k k₁.unuse
  | lastBinding {k k₁ : Place} (name : k.next text = .ident)
      (value : Spells tidy text .initializer (k.pass text) k₁)
      (ending : k₁.next text = .semicolon ∨ k₁.next text = .eof) :
      Spells tidy text .bindings k (k₁.advance text)
  | binding {k k₁ k' : Place} (name : k.next text = .ident)
      (value : Spells tidy text .initializer (k.pass text) k₁) (comma : k₁.next text = .comma)
      (rest : Spells tidy text .bindings (k₁.pass text) k') : Spells tidy text .bindings k k'
  | initializer {k k' : Place} (sign : k.next text = .assign none)
      (value : Spells tidy text .expression (k.pass text) k') : Spells tidy text .initializer k k'
  | noInitializer {k : Place} (sign : k.next text ≠ .assign none) :
      Spells tidy text .initializer k (k.advance text)
  | choice {k k₁ k₂ : Place} (opening : k.use.next text = .leftParen)
      (condition : Spells tidy text .expression (k.use.pass text) k₁)
      (closing : k₁.next text = .rightParen) (first : Spells tidy text .body (k₁.pass text) k₂)
      (other : k₂.use.next text ≠ .keyword .elseKw) : Spells tidy text .choice k k₂.unuse
  | choiceElse {k k₁ k₂ k' : Place} (opening : k.use.next text = .leftParen)
      (condition : Spells tidy text .expression (k.use.pass text) k₁)
      (closing : k₁.next text = .rightParen) (first : Spells tidy text .body (k₁.pass text) k₂)
      (word : k₂.use.next text = .keyword .elseKw)
      (second : Spells tidy text .body (k₂.use.pass text) k') : Spells tidy text .choice k k'
  | loop {k k₁ k₂ k₃ k₄ : Place} (word : k.next text = .keyword .forKw)
      (opening : (k.pass text).next text = .leftParen)
      (start : Spells tidy text .loopStart ((k.pass text).pass text) k₁)
      (first : k₁.next text = .semicolon)
      (condition : Spells tidy text (.optional .semicolon) (k₁.pass text) k₂)
      (second : k₂.next text = .semicolon)
      (step : Spells tidy text (.optional .rightParen) (k₂.pass text) k₃)
      (closing : k₃.next text = .rightParen) (body : Spells tidy text .body (k₃.pass text) k₄) :
      Spells tidy text .loop k (.closed k₄.pos)
  | noStart {k : Place} (sign : k.next text = .semicolon) :
      Spells tidy text .loopStart k (k.advance text)
  | startBindings {k k' : Place} (word : k.next text = .keyword .letKw)
      (names : Spells tidy text .bindings (k.pass text) k') : Spells tidy text .loopStart k k'
  | startExpression {k k' : Place} (sign : k.next text ≠ .semicolon)
      (word : k.next text ≠ .keyword .letKw)
      (whole : Spells tidy text .expression (k.advance text) k') : Spells tidy text .loopStart k k'
  | absent {t : Token} {k : Place} (sign : k.next text = t) :
      Spells tidy text (.optional t) k (k.advance text)
  | present {t : Token} {k k' : Place} (sign : k.next text ≠ t)
      (whole : Spells tidy text .expression (k.advance text) k') :
      Spells tidy text (.optional t) k k'
  | noValue {k : Place} (ending : endsStatement (k.next text) = true) :
      Spells tidy text .returnValue k (k.advance text)
  | value {k k' : Place} (more : endsStatement (k.next text) = false)
      (whole : Spells tidy text .expression (k.advance text) k') :
      Spells tidy text .returnValue k k'
  | scriptEnd {k : Place} (isOver : k.next text = .eof) : Spells tidy text .script k (k.advance text)
  | script {k k₁ k' : Place} (more : k.next text ≠ .eof)
      (first : Spells tidy text .statement (k.advance text) k₁)
      (rest : Spells tidy text .script k₁ k') : Spells tidy text .script k k'

/-- A phrase as it is read. -/
abbrev Derives (text : ByteArray) : Phrase → Place → Place → Prop := Spells False text

namespace Derives

variable {text : ByteArray} {k k₀ k' : Place}

/-- A prefixed operator or a power starts with the next token, seen or not. -/
theorem unary_of_advance (derives : Derives text .unary (k.advance text) k') :
    Derives text .unary k k' := by
  cases derives with
  | prefixed sign operand =>
    rw [Place.next, Place.advance_advance] at sign
    rw [Place.pass, Place.advance_advance] at operand
    exact .prefixed sign operand
  | unary plain value other =>
    rw [Place.next, Place.advance_advance] at plain
    rw [Place.advance_advance] at value
    exact .unary plain value other
  | power plain value sign exponent =>
    rw [Place.next, Place.advance_advance] at plain
    rw [Place.advance_advance] at value
    exact .power plain value sign exponent

/-- The parenthesis after an argument list is used up. -/
theorem consumed_arguments (derives : Derives text .arguments k k') : k'.consumed = true := by
  cases derives with
  | arguments list closing => rfl

end Derives

/-! ## Function literals -/

namespace Spells

variable {tidy : Prop} {text : ByteArray} {k k' : Place}

/-- A phrase does not end before its start. -/
theorem le {p : Phrase} (spells : Spells tidy text p k k') : k.pos ≤ k'.pos := by
  have up : ∀ k : Place, k.pos ≤ (k.advance text).pos := fun k => k.le_advance text
  have use : ∀ k : Place, k.use.pos = k.pos := fun _ => rfl
  have unuse : ∀ k : Place, k.unuse.pos = k.pos := fun _ => rfl
  have closed : ∀ n, (Place.closed n).pos = n := fun _ => rfl
  have step : ∀ k : Place, k.pos ≤ (k.passStep text).pos := fun k => by
    unfold Place.passStep
    split <;> exact up k
  induction spells <;> grind

/-- Parameters before a closing parenthesis are a list of tokens. -/
theorem parameterList {afterComma : Bool} (spells : Spells tidy text (.parameters afterComma) k k')
    (used : k.consumed = true) (closes : k'.next text = .rightParen) :
    k'.consumed = false ∧ (Source.ofBytes text).ParameterList k.pos k'.pos := by
  generalize phrase : Phrase.parameters afterComma = p at spells
  induction spells generalizing afterComma with
  | parametersCut isOver =>
    rw [Place.next, Place.advance_advance] at closes
    cases closes.symm.trans isOver
  | noParameters closing =>
    simp only [Place.next, Place.advance, if_pos used] at closing ⊢
    exact ⟨trivial, .none closing⟩
  | lastParameter name closing =>
    simp only [Place.next, Place.pass, Place.use, Place.advance, if_pos used] at name closing ⊢
    exact ⟨rfl, .last name closing⟩
  | parameter name comma rest ih =>
    obtain ⟨seen, list⟩ := ih rfl closes rfl
    simp only [Place.next, Place.pass, Place.use, Place.advance, if_pos used] at name comma list
    exact ⟨seen, .more name comma list⟩
  | _ => cases phrase

/-- The brace that ends a block lies behind its statements. -/
theorem lt_blockRest (spells : Spells tidy text .blockRest k k') (used : k.consumed = true)
    (closes : k'.next text = .rightBrace) : k.pos < (k'.advance text).pos := by
  generalize phrase : Phrase.blockRest = p at spells
  induction spells with
  | blockEnd =>
    rw [Place.next, Place.advance_advance] at closes
    rw [Place.advance_advance]
    exact Place.lt_advance used (by rw [Place.next, closes]; decide)
  | @blockRest k _ _ _ _ first _ _ _ ih =>
    have up := Nat.le_trans (k.le_advance text) first.le
    cases first with
    | statement => exact Nat.lt_of_le_of_lt up (ih rfl closes rfl)
  | _ => cases phrase

/-- The text of a function literal, from its opening parenthesis on, can be called. -/
theorem callable (spells : Spells tidy text .function k k') (used : k.consumed = true)
    (inside : k'.pos ≤ text.size) : (k.pass text).pos ≤ k'.pos
      ∧ Source.Callable (text.extract ((k.pass text).pos - 1) k'.pos) := by
  cases spells with
  | @function _ k₁ k₂ opening names closing brace body ending =>
    obtain ⟨seen, list⟩ := names.parameterList rfl closing
    have start := Place.lt_advance used (by rw [opening]; decide)
    cases body with
    | block rest =>
    have behind := rest.lt_blockRest rfl ending
    have order := list.le
    -- the brace before the body comes right after the parameters
    rw [Place.pass, Place.advance_of_seen seen] at brace behind
    have behind : ((Source.ofBytes text).scan k₁.pos).stop < (k₂.pass text).pos := behind
    have up := (Source.ofBytes text).le_stop k₁.pos
    exact ⟨by omega, Source.callable_extract (Nat.zero_lt_of_lt start) list brace behind inside⟩

end Spells

end ArenaScript.Grammar
