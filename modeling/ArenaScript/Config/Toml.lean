import ArenaScript.Config.Entry
import ArenaScript.Text.Escape
import ArenaScript.Text.Lines

/-!
# Flat TOML files

A configuration in TOML is a sequence of lines `key = value`.  Values are
quoted texts, whole numbers, other numbers and truth values, each with a
spelling of its own.

Main definitions:

- `Toml.bare?`: the value of a spelling without quotes.
- `Toml.entries?`: the entries of a file.
- `Toml.dialect`: what fields take.
-/

namespace ArenaScript.Toml

/-! ## Values without quotes -/

/-- Digits of a base with underscores between them. -/
def isDigits (base : Nat) (text : List Char) : Bool :=
  !text.isEmpty && text.all (fun c => c = '_' || Numeral.isDigitIn base c)
    && Numeral.separated base .elsewhere text

/-- Decimal digits that do not start with a zero, unless it is the only one. -/
def isWhole (text : List Char) : Bool :=
  isDigits 10 text && (text.head? ≠ some '0' || text.length = 1)

/-- The value of digits, as far as it fits. -/
def digits? (base : Nat) (text : List Char) : Option Nat :=
  if isDigits base text then (Numeral.accumulate base 0 text).toOption else none

/-- A whole number that 64 bits can hold. -/
def bounded? (n : Int) : Option Int :=
  if -0x8000000000000000 ≤ n ∧ n < 0x8000000000000000 then some n else none

/-- The whole number of a spelling: decimal with or without a sign, or with a
radix mark. -/
def integer? (text : List Char) : Option Int :=
  match text with
  | '0' :: 'x' :: rest => (digits? 16 rest).bind fun n => bounded? n
  | '0' :: 'o' :: rest => (digits? 8 rest).bind fun n => bounded? n
  | '0' :: 'b' :: rest => (digits? 2 rest).bind fun n => bounded? n
  | _ =>
    let (negative, body) := Numeral.splitSign text
    if isWhole body then
      (digits? 10 body).bind fun n => bounded? (if negative then -(n : Int) else n)
    else none

/-- An exponent mark with its digits. -/
def isExponent : List Char → Bool
  | [] => false
  | mark :: rest => (mark = 'e' || mark = 'E') && isDigits 10 (Numeral.splitSign rest).2

/-- A decimal: digits on both sides of a point, an exponent, or both. -/
def isDecimal (text : List Char) : Bool :=
  let isPart (c : Char) : Bool := c.isDigit || c = '_'
  let body := (Numeral.splitSign text).2
  isWhole (body.takeWhile isPart) &&
    match body.dropWhile isPart with
    | '.' :: rest =>
      isDigits 10 (rest.takeWhile isPart)
        && (rest.all isPart || isExponent (rest.dropWhile isPart))
    | rest => isExponent rest

/-- The number of a spelling, as a bit pattern. -/
def number? (text : List Char) : Option UInt64 :=
  match String.ofList text with
  | "inf" => some Binary64.infinity
  | "+inf" => some Binary64.infinity
  | "-inf" => some (Numeral.withSign true Binary64.infinity)
  | "nan" => some 0x7ff8000000000000
  | "+nan" => some 0x7ff8000000000000
  | "-nan" => some 0x7ff8000000000000
  | _ =>
    if isDecimal text then (Numeral.float (text.filter (· ≠ '_'))).toOption else none

/-- The value of a spelling without quotes. -/
def bare? (text : List Char) : Option Scalar :=
  match String.ofList text with
  | "true" => some (.boolean true)
  | "false" => some (.boolean false)
  | _ => ((integer? text).map .integer).or ((number? text).map .number)

/-! ## Quoted texts -/

/-- The characters with a letter of their own after a backslash. -/
def letter? (c : Char) : Option Char :=
  match c with
  | 'b' => some '\x08'
  | 't' => some '\t'
  | 'n' => some '\n'
  | 'f' => some '\x0c'
  | 'r' => some '\r'
  | 'e' => some '\x1b'
  | '"' => some '"'
  | '\\' => some '\\'
  | _ => none

/-- Reads up to the closing single quote; nothing is escaped. -/
def literal? (text : List Char) : Option (List Char × List Char) :=
  match text.dropWhile (· ≠ '\'') with
  | [] => none
  | _ :: rest => some (text.takeWhile (· ≠ '\''), rest)

/-- Reads a quoted text, if one starts here.  Three quotes would start a text
of several lines, which a flat file has not. -/
def quoted? (text : List Char) : Option (List Char × List Char) :=
  match text with
  | '"' :: '"' :: '"' :: _ => none
  | '\'' :: '\'' :: '\'' :: _ => none
  | '"' :: rest => Text.unquote? letter? rest
  | '\'' :: rest => literal? rest
  | _ => none

/-! ## Lines -/

/-- The character may occur in a key without quotes. -/
def isBareKey (c : Char) : Bool := c.isAlphanum || c = '_' || c = '-'

/-- Reads a key. -/
def key? (text : List Char) : Option (List Char × List Char) :=
  let bare := text.takeWhile isBareKey
  (quoted? text).or (if bare.isEmpty then none else some (bare, text.dropWhile isBareKey))

/-- The entry of a key with the text after its equals sign. -/
def entry? (key : String) (text : List Char) : Option Entry :=
  match quoted? text with
  | some (value, rest) =>
    if Text.isRemark rest then some (.ofText key (String.ofList value)) else none
  | none =>
    let isPart (c : Char) : Bool := !Text.isBlank c && c ≠ '#'
    let value := text.takeWhile isPart
    if Text.isRemark (text.dropWhile isPart) then
      (bare? value).map fun scalar => ⟨key, scalar, String.ofList value⟩
    else none

/-- The entry of a line that is not empty. -/
def line? (text : List Char) : Option Entry := do
  let (key, rest) ← key? text
  match rest.dropWhile Text.isBlank with
  | '=' :: rest => entry? (String.ofList key) (rest.dropWhile Text.isBlank)
  | _ => none

/-! ## Files -/

/-- The character may occur in a line. -/
def isAllowed (c : Char) : Bool := c = '\t' || (' ' ≤ c && c ≠ '\x7f')

/-- The entries of a file; none if it does not follow the format. -/
def entries? (file : String) : Option (List Entry) := do
  let all := Text.lines (· = '\n') (Text.content file)
  if !all.all (·.all isAllowed) then none
  (all.filter fun line => !Text.isRemark line).mapM fun line =>
    line? (line.dropWhile Text.isBlank)

/-! ## Fields -/

/-- The keys are told apart without regard to the case of letters. -/
def sameKey (a b : String) : Bool := a.toList.map Char.toLower = b.toList.map Char.toLower

/-- Each field takes values of its own type; a number may be spelled as a whole
number that doubles hold exactly. -/
def dialect : Dialect where
  names key field := sameKey key field.key
  integer? entry := match entry.value with
    | .integer n => some n
    | _ => none
  number? entry := match entry.value with
    | .integer n =>
      if n.natAbs < 0x20000000000000 then
        some (Numeral.withSign (n < 0) (Binary64.ofRatio n.natAbs 1))
      else none
    | .number bits => some bits
    | _ => none
  text? entry := match entry.value with
    | .text s => some s
    | _ => none

end ArenaScript.Toml
