import ArenaScript.Number.Binary64
import ArenaScript.Source
import ArenaScript.Token
import ArenaScript.Value

/-!
# Scanning

Splits a text into tokens.  Blanks and comments stand between tokens.  A sign
is the longest lexeme of the table that fits, a word the longest run of name
bytes, a number the longest literal.

Main definitions:

- `Source.skipBlanks`: the start of the next token.
- `Source.scanName`, `Source.scanNumber`, `Source.scanString?`: the three
  classes of long tokens.
- `Source.scan`: the next token of a text.
- `Source.lexemes`: all tokens of a text.
-/

namespace ArenaScript.Source

/-! ## Blanks and comments -/

/-- The end of a comment whose text starts at a position: right after the first
star and slash that end at or beyond it, or the end of the text. -/
def skipCommentBound (s : Source) : Nat → Nat → Nat
  | 0, i => i
  | bound + 1, i =>
    if i < s.length && !(s.holds (i - 2) '*' && s.holds (i - 1) '/') then
      skipCommentBound s bound (i + 1)
    else i

/-- One run of blanks or one comment at a position, and `none` before a token
or at the end. -/
def skipOne? (s : Source) (i : Nat) : Option Nat :=
  if i < s.length && isBlank (s.byte i) then some (i + 1)
  else if s.holds i '/' && s.holds (i + 1) '/' then some (s.skipWhile (· != 0x0a) (i + 2))
  else if i + 3 < s.length && s.holds i '/' && s.holds (i + 1) '*' then
    some (s.skipCommentBound (s.length - (i + 4)) (i + 4))
  else none

/-- Passes over blanks and comments, at most a number of them. -/
def skipBlanksBound (s : Source) : Nat → Nat → Nat
  | 0, i => i
  | bound + 1, i =>
    match s.skipOne? i with
    | some j => skipBlanksBound s bound j
    | none => i

/-- The first position from `i` on that is neither blank nor in a comment. -/
def skipBlanks (s : Source) (i : Nat) : Nat := s.skipBlanksBound (s.length - i) i

/-! ## Words -/

/-- The words with a meaning of their own. -/
def words : List (String × Token) :=
  [("break", .keyword .breakKw), ("case", .keyword .caseKw), ("catch", .keyword .catchKw),
    ("class", .keyword .classKw), ("const", .keyword .constKw),
    ("continue", .keyword .continueKw), ("default", .keyword .defaultKw),
    ("do", .keyword .doKw), ("else", .keyword .elseKw), ("finally", .keyword .finallyKw),
    ("for", .keyword .forKw), ("function", .keyword .functionKw), ("if", .keyword .ifKw),
    ("in", .keyword .inKw), ("instanceof", .keyword .instanceofKw), ("let", .keyword .letKw),
    ("new", .keyword .newKw), ("return", .keyword .returnKw), ("switch", .keyword .switchKw),
    ("this", .keyword .thisKw), ("throw", .keyword .throwKw), ("try", .keyword .tryKw),
    ("typeof", .typeOf), ("var", .keyword .varKw), ("void", .keyword .voidKw),
    ("while", .keyword .whileKw), ("with", .keyword .withKw), ("yield", .keyword .yieldKw),
    ("undefined", .keyword .undefinedKw), ("null", .keyword .nullKw),
    ("true", .keyword .trueKw), ("false", .keyword .falseKw)]

/-- The words as bytes. -/
def wordTable : List (ByteArray × Token) := words.map fun (w, t) => (w.toUTF8, t)

/-- The token of a run of name bytes. -/
def wordToken (name : ByteArray) : Token :=
  ((wordTable.find? fun (w, _) => w == name).map (·.2)).getD .ident

/-- The word at a position and the position after it. -/
def scanName (s : Source) (i : Nat) : Token × Nat :=
  if i < s.length && isNameStart (s.byte i) then
    let stop := s.skipWhile isNameByte (i + 1)
    (wordToken (s.slice i (stop - i)), stop)
  else (.bad, i)

/-! ## Numbers -/

/-- Adds the digits from `i` up to `stop` to a number in a base. -/
def digitsValue (s : Source) (base : Nat) : (count : Nat) → (i : Nat) → (acc : Nat) → Nat
  | 0, _, acc => acc
  | count + 1, i, acc => digitsValue s base count (i + 1) (acc * base + (hexValue (s.byte i)).toNat)

/-- The number of an exponent; it stops growing once it has five digits. -/
def exponentValue (s : Source) : (count : Nat) → (i : Nat) → (acc : Nat) → Nat
  | 0, _, acc => acc
  | count + 1, i, acc =>
    exponentValue s count (i + 1)
      (if acc < 10000 then acc * 10 + (hexValue (s.byte i)).toNat else acc)

/-- The double reached by adding hexadecimal digits one after the other. -/
def hexFloat (s : Source) : (count : Nat) → (i : Nat) → (acc : Float) → Float
  | 0, _, acc => acc
  | count + 1, i, acc => hexFloat s count (i + 1) (acc * 16 + (hexValue (s.byte i)).toFloat)

/-- The exponent part of a number at a position, if a whole one stands there,
and the position after it. -/
def scanExponent (s : Source) (i : Nat) : Int × Nat :=
  if i < s.length && (s.byte i ||| 0x20) == 0x65 then
    let signed := s.holds (i + 1) '+' || s.holds (i + 1) '-'
    let first := if signed then i + 2 else i + 1
    if first < s.length && isDigit (s.byte first) then
      let stop := s.skipWhile isDigit first
      let value := s.exponentValue (stop - first) first 0
      (if s.holds (i + 1) '-' then -value else value, stop)
    else (0, i)
  else (0, i)

/-- The decimal number at a position and the position after it.  Without a
digit before the exponent the number is 0. -/
def scanDecimal (s : Source) (i : Nat) : UInt64 × Nat :=
  let point := s.skipWhile isDigit i
  let whole := s.digitsValue 10 (point - i) i 0
  let (coefficient, places, stop) :=
    if s.holds point '.' then
      let stop := s.skipWhile isDigit (point + 1)
      let places := stop - (point + 1)
      (s.digitsValue 10 places (point + 1) whole, places, stop)
    else (whole, 0, point)
  let (exponent, last) := s.scanExponent stop
  if point - i + places = 0 then (0, last)
  else (Binary64.ofDecimal coefficient (exponent - places), last)

/-- The number at a position, decimal or hexadecimal, and the position after
it. -/
def scanNumber (s : Source) (i : Nat) : UInt64 × Nat :=
  if i + 2 < s.length && s.holds i '0' && (s.byte (i + 1) ||| 0x20) == 0x78
      && isHexDigit (s.byte (i + 2)) then
    let stop := s.skipWhile isHexDigit (i + 2)
    ((s.hexFloat (stop - (i + 2)) (i + 2) 0).toBits, stop)
  else s.scanDecimal i

/-! ## Strings -/

/-- The position of the quote that closes a string, looking from `i` on.  A
backslash hides the byte after it, and `\x` hides three. -/
def closingQuote? (s : Source) (quote : UInt8) : Nat → Nat → Option Nat
  | 0, _ => none
  | bound + 1, i =>
    if s.length ≤ i then none
    else if s.byte i == quote then some i
    else if s.byte i != 0x5c then closingQuote? s quote bound (i + 1)
    else if s.length < i + 2 then none
    else if s.byte (i + 1) != 0x78 then closingQuote? s quote bound (i + 2)
    else if s.length < i + 4 then none
    else closingQuote? s quote bound (i + 4)

/-- The position after the string at a position. -/
def scanString? (s : Source) (i : Nat) : Option Nat :=
  (s.closingQuote? (s.byte i) (s.length - i) (i + 1)).map (· + 1)

/-! ## Signs -/

/-- The signs, longer ones before their beginnings. -/
def signs : List (String × Token) :=
  [(">>>=", .assign (some .shiftRightZero)), ("!==", .binary .notEqual),
    ("===", .binary .equal), ("<<=", .assign (some .shiftLeft)),
    (">>=", .assign (some .shiftRight)), (">>>", .binary .shiftRightZero),
    ("--", .decrement), ("-=", .assign (some .minus)), ("++", .increment),
    ("+=", .assign (some .plus)), ("**", .binary .power), ("*=", .assign (some .times)),
    ("/=", .assign (some .divide)), ("%=", .assign (some .remainder)), ("&&", .logical .and),
    ("&=", .assign (some .bitAnd)), ("||", .logical .or), ("|=", .assign (some .bitOr)),
    ("<<", .binary .shiftLeft), ("<=", .binary .lessEq), (">>", .binary .shiftRight),
    (">=", .binary .greaterEq), ("^=", .assign (some .bitXor)), ("?", .question),
    (":", .colon), ("(", .leftParen), (")", .rightParen), ("\x7b", .leftBrace),
    ("\x7d", .rightBrace), (";", .semicolon), (",", .comma), (".", .dot), ("~", .complement),
    ("!", .not), ("-", .binary .minus), ("+", .binary .plus), ("*", .binary .times),
    ("/", .binary .divide), ("%", .binary .remainder), ("&", .binary .bitAnd),
    ("|", .binary .bitOr), ("=", .assign none), ("<", .binary .less), (">", .binary .greater),
    ("^", .binary .bitXor)]

/-- The signs as bytes. -/
def signTable : List (List UInt8 × Token) := signs.map fun (w, t) => (w.toUTF8.toList, t)

/-- The longest sign at a position. -/
def findSign? (s : Source) (i : Nat) : Option (List UInt8 × Token) :=
  signTable.find? fun (lexeme, _) => s.startsWith i lexeme

/-! ## Tokens -/

/-- A token in its place. -/
structure Lexeme where
  token : Token
  start : Nat
  length : Nat
  /-- The value of a number. -/
  number : Option Value := none

/-- The token that starts exactly at a position inside the text. -/
def scanAt (s : Source) (i : Nat) : Lexeme :=
  let first := s.byte i
  if first == 0x22 || first == 0x27 then
    match s.scanString? i with
    | some stop => { token := .string, start := i, length := stop - i }
    | none => { token := .bad, start := i, length := 0 }
  else if isDigit first then
    let (bits, stop) := s.scanNumber i
    { token := .number, start := i, length := stop - i, number := some (Value.ofBits bits) }
  else
    match s.findSign? i with
    | some (lexeme, token) => { token, start := i, length := lexeme.length }
    | none =>
      let (token, stop) := s.scanName i
      { token, start := i, length := stop - i }

/-- The next token from a position on. -/
def scan (s : Source) (i : Nat) : Lexeme :=
  let start := s.skipBlanks i
  if s.length ≤ start then { token := .eof, start, length := 0 } else s.scanAt start

/-- Where the text goes on after a token. -/
def Lexeme.stop (l : Lexeme) : Nat := l.start + l.length

/-- The tokens from a position on, at most a number of them. -/
def lexemesFrom (s : Source) : Nat → Nat → List Lexeme
  | 0, _ => []
  | bound + 1, i =>
    let l := s.scan i
    if l.token = .eof ∨ l.token = .bad then [l] else l :: lexemesFrom s bound l.stop

/-- The tokens of a text up to its end or the first place where none starts,
both included. -/
def lexemes (s : Source) : List Lexeme := s.lexemesFrom (s.length + 1) 0

end ArenaScript.Source
