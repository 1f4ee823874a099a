/-!
# Tokens

The words and signs of the language.  Signs that stand for an operator on two
values carry that operator, and so do the assignments made from one.

Main definitions:

- `BinaryOp`, `UnaryOp`: the strict operators.
- `Token`: what a scanner finds, with its code number.
- `BinaryOp.level`: how tightly an operator binds.
-/

namespace ArenaScript

/-- Operators on two values that evaluate both of them. -/
inductive BinaryOp where
  | power
  | times
  | divide
  | remainder
  | plus
  | minus
  | shiftLeft
  | shiftRight
  | shiftRightZero
  | less
  | lessEq
  | greater
  | greaterEq
  | equal
  | notEqual
  | bitAnd
  | bitXor
  | bitOr
deriving DecidableEq, Repr

/-- Operators on one value, written in front of it. -/
inductive UnaryOp where
  | not
  | complement
  | typeOf
  | plus
  | minus
deriving DecidableEq, Repr

/-- The two operators that may leave their right side unevaluated. -/
inductive LogicalOp where
  | and
  | or
deriving DecidableEq, Repr

/-- How tightly a left-associative operator binds, from 0 for the weakest.
The power operator binds tighter than all of them and has a rule of its own. -/
def BinaryOp.level : BinaryOp → Option Nat
  | .power => none
  | .bitOr => some 0
  | .bitXor => some 1
  | .bitAnd => some 2
  | .equal | .notEqual => some 3
  | .less | .lessEq | .greater | .greaterEq => some 4
  | .shiftLeft | .shiftRight | .shiftRightZero => some 5
  | .plus | .minus => some 6
  | .times | .divide | .remainder => some 7

/-- Words with a meaning of their own. -/
inductive Keyword where
  | breakKw
  | caseKw
  | catchKw
  | classKw
  | constKw
  | continueKw
  | defaultKw
  | deleteKw
  | doKw
  | elseKw
  | finallyKw
  | forKw
  | functionKw
  | ifKw
  | inKw
  | instanceofKw
  | letKw
  | newKw
  | returnKw
  | switchKw
  | thisKw
  | throwKw
  | tryKw
  | varKw
  | voidKw
  | whileKw
  | withKw
  | yieldKw
  | undefinedKw
  | nullKw
  | trueKw
  | falseKw
deriving DecidableEq, Repr

namespace Keyword

/-- Words that are set aside but start no statement of the language. -/
def isReserved : Keyword → Bool
  | caseKw | catchKw | classKw | constKw | defaultKw | deleteKw | doKw | finallyKw | inKw
  | instanceofKw | newKw | switchKw | thisKw | throwKw | tryKw | varKw | voidKw | withKw
  | whileKw | yieldKw => true
  | _ => false

end Keyword

/-- What a scanner finds at a position of a text. -/
inductive Token where
  /-- No token starts here. -/
  | bad
  /-- The text ends here. -/
  | eof
  | ident
  | number
  | string
  | semicolon
  | leftParen
  | rightParen
  | leftBrace
  | rightBrace
  | keyword (word : Keyword)
  | dot
  | increment
  | decrement
  | not
  | complement
  | typeOf
  | binary (op : BinaryOp)
  | logical (op : LogicalOp)
  | colon
  | question
  /-- An assignment, plain or combined with an operator. -/
  | assign (op : Option BinaryOp)
  | comma
deriving DecidableEq, Repr

namespace Token

/-- The number of each combined assignment, in the order of the code numbers. -/
def assignRank : BinaryOp → Nat
  | .plus => 0
  | .minus => 1
  | .times => 2
  | .divide => 3
  | .remainder => 4
  | .shiftLeft => 5
  | .shiftRight => 6
  | .shiftRightZero => 7
  | .bitAnd => 8
  | .bitXor => 9
  | .bitOr => 10
  | .power | .less | .lessEq | .greater | .greaterEq | .equal | .notEqual => 11

/-- The code number of a token.  The signs stand in groups: punctuation below
50, words from 50 on and operators from 100 on. -/
def code : Token → Nat
  | bad => 0
  | eof => 1
  | ident => 2
  | number => 3
  | string => 4
  | semicolon => 5
  | leftParen => 6
  | rightParen => 7
  | leftBrace => 8
  | rightBrace => 9
  | keyword word => 50 + word.ctorIdx
  | dot => 100
  | increment => 102
  | decrement => 103
  | not => 104
  | complement => 105
  | typeOf => 106
  | binary op => 109 + op.ctorIdx
  | logical .and => 127
  | logical .or => 128
  | colon => 129
  | question => 130
  | assign none => 131
  | assign (some op) => 132 + assignRank op
  | comma => 143

/-- The operator a token stands for in front of a value. -/
def unary? : Token → Option UnaryOp
  | not => some .not
  | complement => some .complement
  | typeOf => some .typeOf
  | binary .minus => some .minus
  | binary .plus => some .plus
  | _ => none

end Token

end ArenaScript
