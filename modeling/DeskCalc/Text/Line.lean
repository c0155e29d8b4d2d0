/-!
# Lines of Text

A text is divided into lines by line feeds, by carriage returns, and by the two in that order,
which end one line and not two. What follows the last line end is a line as well, though an
empty one if the text is complete.

Input that is typed is divided by line feeds alone.

## Main definitions

* `Text.lines`: The lines of a text, whatever ends them.
* `Text.fedLines`: The lines of a text that line feeds end.
-/

namespace DeskCalc

namespace Text

/-- A list of lines with a character before the first of them. -/
def prependChar (c : Char) : List (List Char) → List (List Char)
  | [] => [[c]]
  | line :: rest => (c :: line) :: rest

/-- The lines of a text, whatever ends them. -/
def lines : List Char → List (List Char)
  | [] => [[]]
  | '\r' :: '\n' :: rest => [] :: lines rest
  | c :: rest => if c = '\r' ∨ c = '\n' then [] :: lines rest else prependChar c (lines rest)

/-- The lines of a text that line feeds end, where an empty rest is no line. -/
def fedLines : List Char → List (List Char)
  | [] => []
  | '\n' :: rest => [] :: fedLines rest
  | c :: rest => prependChar c (fedLines rest)

end Text

end DeskCalc
