/-!
# Lines

Files of settings are read line by line.  A line has blanks between its parts,
and a comment from a number sign on.

Main definitions:

- `Text.lines`: the lines of a text.
- `Text.isRemark`: what is left of a line says nothing.
-/

namespace ArenaScript.Text

/-- A blank between the parts of a line. -/
def isBlank (c : Char) : Bool := c = ' ' || c = '\t'

/-- The text without the blanks at its end. -/
def trimRight (text : List Char) : List Char := (text.reverse.dropWhile isBlank).reverse

/-- The rest of a line is empty or a comment. -/
def isRemark (text : List Char) : Bool :=
  match text.dropWhile isBlank with
  | [] => true
  | c :: _ => c = '#'

/-- The lines of a text after the characters of a first line, in reverse, where
some characters end a line and so does a carriage return with a line feed. -/
def linesFrom (isBreak : Char → Bool) : List Char → List Char → List (List Char)
  | line, [] => [line.reverse]
  | line, '\r' :: '\n' :: rest => line.reverse :: linesFrom isBreak [] rest
  | line, c :: rest =>
    if isBreak c then line.reverse :: linesFrom isBreak [] rest
    else linesFrom isBreak (c :: line) rest

/-- The lines of a text. -/
def lines (isBreak : Char → Bool) (text : List Char) : List (List Char) :=
  linesFrom isBreak [] text

/-- The characters of a file without a byte order mark at its start. -/
def content (file : String) : List Char :=
  match file.toList with
  | '\ufeff' :: rest => rest
  | text => text

end ArenaScript.Text
