import DeskCalc.Text.Blank
import DeskCalc.Text.Line

/-!
# Expression Files

A file of expressions, one on each line. Blanks around an expression do not belong to it,
empty lines say nothing, and a line that starts with a number sign is a comment.

## Main definitions

* `ExpressionFile.isExpression`: Whether a stripped line is an expression.
* `ExpressionFile.ofText`: The expressions in a text.
* `ExpressionFile.ofBytes?`: The expressions in a file, if it is text.
-/

namespace DeskCalc

namespace ExpressionFile

/-- Whether a stripped line is an expression: neither empty nor a comment. -/
def isExpression : List Char → Bool
  | [] => false
  | c :: _ => c != '#'

/-- The expressions in a text. -/
def ofText (s : String) : List String :=
  (((Text.lines s.toList).map Text.stripChars).filter isExpression).map String.ofList

/-- The expressions in a file. There are none to be had if its bytes are no UTF-8. -/
def ofBytes? (bytes : ByteArray) : Option (List String) := (String.fromUTF8? bytes).map ofText

end ExpressionFile

end DeskCalc
