import ArenaScript.Text.Numeral

/-!
# Escapes

A text between double quotes in a file of settings.  A backslash stands before
a letter for a character, or before a letter that announces the code of one in
hexadecimal digits.

Main definitions:

- `Text.hexCode?`: a character by its code.
- `Text.unquote?`: a text up to its closing quote.
-/

namespace ArenaScript.Text

/-- The character with a code, unless the code is that of half a pair or above
the last plane. -/
def codePoint? (code : Nat) : Option Char :=
  if h : code.isValidChar then some (Char.ofNatAux code h) else none

/-- The character whose code is given by the first `count` hexadecimal digits
of a text. -/
def hexCode? (count : Nat) (text : List Char) : Option Char :=
  let digits := text.take count
  if digits.length = count ∧ digits.all (Numeral.isDigitIn 16) then
    codePoint? (digits.foldl (fun n c => n * 16 + (Numeral.digit? c).getD 0) 0)
  else none

/-- The number of digits after a letter that announces the code of a
character. -/
def codeWidth? (c : Char) : Option Nat :=
  match c with
  | 'x' => some 2
  | 'u' => some 4
  | 'U' => some 8
  | _ => none

/-- The character of an escape, by the text after its backslash, and the number
of characters that the escape takes up there. -/
def escaped? (letter? : Char → Option Char) (text : List Char) : Option (Char × Nat) := do
  let c ← text.head?
  match codeWidth? c with
  | some width => return (← hexCode? width (text.drop 1), width + 1)
  | none => return (← letter? c, 1)

/-- Reads up to the closing double quote, after characters in reverse; gives the
text and what follows it. -/
def unquoteFrom? (letter? : Char → Option Char) (done text : List Char) :
    Option (List Char × List Char) :=
  match text with
  | [] => none
  | c :: rest =>
    if c = '"' then some (done.reverse, rest)
    else if c = '\\' then
      match escaped? letter? rest with
      | some (char, width) => unquoteFrom? letter? (char :: done) (rest.drop width)
      | none => none
    else unquoteFrom? letter? (c :: done) rest
termination_by text.length
decreasing_by
  · simp only [List.length_drop, List.length_cons]
    omega
  · exact Nat.lt_succ_self _

/-- Reads up to the closing double quote, with the letters that stand for
characters. -/
def unquote? (letter? : Char → Option Char) (text : List Char) :
    Option (List Char × List Char) :=
  unquoteFrom? letter? [] text

end ArenaScript.Text
