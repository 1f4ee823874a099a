import ArenaScript.Config.Entry
import ArenaScript.Text.Escape
import ArenaScript.Text.Lines

/-!
# Flat YAML files

A configuration in YAML is a block of lines `key: value`.  Keys and values are
plain or quoted; what a plain value means is read off its spelling.

Main definitions:

- `Yaml.resolve`: the value of a plain spelling.
- `Yaml.entries?`: the entries of a file.
- `Yaml.dialect`: what fields take.
-/

namespace ArenaScript.Yaml

/-! ## Plain values -/

/-- The spellings with a meaning of their own. -/
def named? (text : String) : Option Scalar :=
  if text ∈ ["", "~", "null", "Null", "NULL"] then some .nothing
  else if text ∈ ["true", "True", "TRUE"] then some (.boolean true)
  else if text ∈ ["false", "False", "FALSE"] then some (.boolean false)
  else if text ∈ [".nan", ".NaN", ".NAN"] then some (.number 0x7ff8000000000000)
  else if text ∈ [".inf", ".Inf", ".INF", "+.inf", "+.Inf", "+.INF"] then
    some (.number Binary64.infinity)
  else if text ∈ ["-.inf", "-.Inf", "-.INF"] then
    some (.number (Numeral.withSign true Binary64.infinity))
  else none

/-- An exponent, or nothing. -/
def isExponent : List Char → Bool
  | [] => true
  | mark :: rest =>
    let digits := (Numeral.splitSign rest).2
    (mark = 'e' || mark = 'E') && !digits.isEmpty && digits.all Char.isDigit

/-- A decimal: digits with at most one point, which may stand in front of
them, and an exponent. -/
def isDecimal (text : List Char) : Bool :=
  let body := (Numeral.splitSign text).2
  let whole := body.takeWhile Char.isDigit
  match body.dropWhile Char.isDigit with
  | '.' :: rest =>
    (!whole.isEmpty || !(rest.takeWhile Char.isDigit).isEmpty)
      && isExponent (rest.dropWhile Char.isDigit)
  | rest => !whole.isEmpty && isExponent rest

/-- The number of a spelling that starts with a digit or a sign.  Underscores
do not count; whole numbers come before decimals. -/
def number? (text : List Char) : Option Scalar :=
  let digits := text.filter (· ≠ '_')
  match Numeral.signed digits, Numeral.unsigned digits with
  | .ok n, _ => some (.integer n)
  | .error _, .ok n => some (.integer n)
  | .error _, .error _ =>
    if isDecimal digits then (Numeral.float digits).toOption.map .number else none

/-- The value of a plain spelling. -/
def resolve (text : List Char) : Scalar :=
  let spelling := String.ofList text
  let numeric : Option Scalar := match text with
    | [] => none
    | c :: _ =>
      if c = '.' then (Numeral.float text).toOption.map .number
      else if c.isDigit || c = '+' || c = '-' then number? text
      else none
  ((named? spelling).or numeric).getD (.text spelling)

/-! ## Quoted values -/

/-- The characters with a letter of their own after a backslash. -/
def letter? (c : Char) : Option Char :=
  match c with
  | '0' => some '\x00'
  | 'a' => some '\x07'
  | 'b' => some '\x08'
  | 't' => some '\t'
  | '\t' => some '\t'
  | 'n' => some '\n'
  | 'v' => some '\x0b'
  | 'f' => some '\x0c'
  | 'r' => some '\r'
  | 'e' => some '\x1b'
  | ' ' => some ' '
  | '"' => some '"'
  | '\'' => some '\''
  | '/' => some '/'
  | '\\' => some '\\'
  | 'N' => some '\u0085'
  | '_' => some '\u00a0'
  | 'L' => some '\u2028'
  | 'P' => some '\u2029'
  | _ => none

/-- Reads up to the closing single quote; a quote written twice stands for
itself. -/
def singleQuoted? : List Char → List Char → Option (List Char × List Char)
  | _, [] => none
  | done, '\'' :: '\'' :: rest => singleQuoted? ('\'' :: done) rest
  | done, c :: rest =>
    if c = '\'' then some (done.reverse, rest) else singleQuoted? (c :: done) rest

/-- Reads a quoted text, if one starts here. -/
def quoted? (text : List Char) : Option (List Char × List Char) :=
  match text with
  | '"' :: rest => Text.unquote? letter? rest
  | '\'' :: rest => singleQuoted? [] rest
  | _ => none

/-! ## Lines -/

/-- The text is empty or starts with a blank. -/
def atGap : List Char → Bool
  | [] => true
  | c :: _ => Text.isBlank c

/-- A plain text can start here. -/
def startsPlain : List Char → Bool
  | [] => false
  | c :: rest =>
    if c = '-' || c = '?' || c = ':' then !atGap rest
    else !(",[]\x7b\x7d#&*!|>'\"%@\x60 \t".toList.contains c)

/-- Reads a plain text up to a colon before a gap, or a comment after a blank;
gives the text and what follows. -/
def plain : List Char → List Char → List Char × List Char
  | done, [] => (Text.trimRight done.reverse, [])
  | done, c :: rest =>
    if c = ':' && atGap rest then (Text.trimRight done.reverse, c :: rest)
    else if c = '#' && (done.head?.map Text.isBlank).getD false then
      (Text.trimRight done.reverse, c :: rest)
    else plain (c :: done) rest

/-- Reads a plain or quoted key. -/
def key? (text : List Char) : Option (List Char × List Char) :=
  (quoted? text).or (if startsPlain text then some (plain [] text) else none)

/-- The entry of a key with the text after its colon. -/
def entry? (key : String) (text : List Char) : Option Entry :=
  match quoted? text with
  | some (value, rest) =>
    if Text.isRemark rest then some (.ofText key (String.ofList value)) else none
  | none =>
    if Text.isRemark text then some ⟨key, .nothing, ""⟩
    else if startsPlain text then
      let (value, rest) := plain [] text
      if Text.isRemark rest then some ⟨key, resolve value, String.ofList value⟩ else none
    else none

/-- The entry of a line without its indentation. -/
def line? (text : List Char) : Option Entry := do
  let (key, rest) ← key? text
  match rest.dropWhile Text.isBlank with
  | ':' :: rest =>
    if atGap rest then entry? (String.ofList key) (rest.dropWhile Text.isBlank) else none
  | _ => none

/-! ## Files -/

/-- The character ends a line. -/
def isBreak (c : Char) : Bool := "\n\r\u0085\u2028\u2029".toList.contains c

/-- The character may occur in a file. -/
def isAllowed (c : Char) : Bool :=
  c = '\t' || c = '\n' || c = '\r' || (' ' ≤ c && c ≤ '~') || c = '\u0085'
    || ('\u00a0' ≤ c && c ≠ '\ufeff' && c ≠ '\ufffe' && c ≠ '\uffff')

/-- A line that only separates others. -/
def isEmptyLine (line : List Char) : Bool :=
  match line.dropWhile (· = ' ') with
  | [] => true
  | c :: _ => c = '#'

/-- The line is a mark of three characters, perhaps with more after a gap. -/
def isMark (mark : String) (line : List Char) : Bool :=
  line.take 3 = mark.toList && atGap (line.drop 3)

/-- The lines of the first document. -/
def document? (all : List (List Char)) : Option (List (List Char)) :=
  let body (rest : List (List Char)) : List (List Char) :=
    (rest.takeWhile fun line => !isMark "---" line && !isMark "..." line).filter
      fun line => !isEmptyLine line
  match all.dropWhile isEmptyLine with
  | [] => some []
  | first :: rest =>
    if isMark "---" first then
      if Text.isRemark (first.drop 3) then some (body rest) else none
    else some (body (first :: rest))

/-- The number of blanks before a line. -/
def indentation (line : List Char) : Nat := (line.takeWhile (· = ' ')).length

/-- The entries of a file; none if it does not follow the format.  All lines
have the same indentation. -/
def entries? (file : String) : Option (List Entry) := do
  let text := Text.content file
  if !text.all isAllowed then none
  let body ← document? (Text.lines isBreak text)
  if (body.map indentation).eraseDups.length ≤ 1 then
    body.mapM fun line => line? (line.dropWhile (· = ' '))
  else none

/-! ## Fields -/

/-- A number cut to a whole number.  What is below the range of 64 bits becomes
its least number; what is above is refused. -/
def truncated? (bits : UInt64) : Option Int :=
  let x := Float.ofBits bits
  if x ≤ 9223372036854775808 then
    if x < -9223372036854775808 || x == 9223372036854775808 then some (-9223372036854775808)
    else some (Float.toInt64 x).toInt
  else none

/-- Whole numbers may be spelled as decimals, numbers as whole numbers, and a
text is taken as it is spelled. -/
def dialect : Dialect where
  names key field := key = field.key
  integer? entry := match entry.value with
    | .integer n => if n < 0x8000000000000000 then some n else none
    | .number bits => truncated? bits
    | _ => none
  number? entry := match entry.value with
    | .integer n => some (Numeral.withSign (n < 0) (Binary64.ofRatio n.natAbs 1))
    | .number bits => some bits
    | _ => none
  text? entry := some entry.spelling

end ArenaScript.Yaml
