import DeskCalc.Decimal
import DeskCalc.Fault

/-!
# Numbers in Text

Reading the text of a number: digits, and perhaps a point and more digits. As much of the text
is read as has that form, and the rest is ignored, so a second point ends the number.

The digits may be those of any script. Either side of the point may be empty, but not both.

## Main definitions

* `Numeral.decimal?`: The decimal at the start of a text.
* `Numeral.read`: The number nearest to it.
-/

namespace DeskCalc

namespace Numeral

/-- The values of the digits at the start of a text. -/
def leadingDigits (cs : List Char) : List Nat :=
  (cs.takeWhile Text.isDigit).filterMap Text.digitValue?

/-- The text after the digits at its start. -/
def afterDigits (cs : List Char) : List Char := cs.dropWhile Text.isDigit

/-- The digits after the point at the start of a text, none if there is no point. -/
def fractionDigits : List Char → List Nat
  | '.' :: rest => leadingDigits rest
  | _ => []

/-- The decimal at the start of a text, unless there is no digit in it. -/
def decimal? (cs : List Char) : Option Decimal :=
  match leadingDigits cs, fractionDigits (afterDigits cs) with
  | [], [] => none
  | whole, fraction => some (.ofDigits whole fraction)

/-- The number nearest to the decimal at the start of a text. -/
def read (text : String) : Except Fault Binary64 :=
  match decimal? text.toList with
  | some d => .ok d.toBinary64
  | none => .error (.unreadableNumber text)

end Numeral

end DeskCalc
