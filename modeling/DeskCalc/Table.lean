/-!
# Tables

A table is written with its columns aligned to the right, each as wide as its widest cell or
its name, and one space between them. Characters that would break the lines are escaped.

A cell may be missing. A column where all are missing says so with one word, and a column that
has others with another.

## Main definitions

* `Table.Column`: A name and its cells.
* `Table.texts`: The texts of a column, with its name first.
* `Table.render`: The lines of a table.
-/

namespace DeskCalc

namespace Table

/-- A column of a table. -/
structure Column where
  /-- The name, which stands above the cells. -/
  name : String
  /-- The cells, from top to bottom. -/
  cells : List (Option String)
  deriving Repr

/-- A character of a cell, as it is written. -/
def escapeChar : Char → List Char
  | '\t' => ['\\', 't']
  | '\r' => ['\\', 'r']
  | '\n' => ['\\', 'n']
  | c => [c]

/-- The text of a cell, as it is written. -/
def escape (s : String) : List Char := s.toList.flatMap escapeChar

/-- The word for a missing cell. -/
def missing (c : Column) : List Char :=
  if c.cells.all Option.isNone then ['N', 'o', 'n', 'e'] else ['N', 'a', 'N']

/-- The texts of a column, with its name first. -/
def texts (c : Column) : List (List Char) :=
  escape c.name :: c.cells.map fun cell =>
    match cell with
    | some s => escape s
    | none => missing c

/-- Texts made equally long by spaces before them. -/
def alignRight (column : List (List Char)) : List (List Char) :=
  let width := (column.map List.length).foldl max 0
  column.map fun cs => List.replicate (width - cs.length) ' ' ++ cs

/-- The lines of a table, given its columns as they are written and how many lines there
    are. -/
def joinColumns (count : Nat) : List (List (List Char)) → List (List Char)
  | [] => List.replicate count []
  | [last] => last
  | column :: rest => (column.zip (joinColumns count rest)).map fun (cell, line) =>
      cell ++ ' ' :: line

/-- The lines of a table without rows. -/
def emptyLines (columns : List Column) : List String :=
  ["Empty DataFrame", "Columns: [" ++ ", ".intercalate (columns.map Column.name) ++ "]",
    "Index: []"]

/-- The lines of a table with the given number of rows. -/
def render (rows : Nat) (columns : List Column) : List String :=
  if rows = 0 then emptyLines columns
  else (joinColumns (rows + 1) (columns.map fun c => alignRight (texts c))).map String.ofList

end Table

end DeskCalc
