import DeskCalc.Text.Digit
import DeskCalc.Token

/-!
# Scanning an Expression

Splits a typed text into tokens. Scanning never fails: a character that fits nowhere becomes a
token of its own, and it is left to the conversion to complain about it.

Numbers and names are taken as long as they can be. A number is any run of digits and points
that starts with a digit, or with a point and a digit; how much of it is read as a number is
decided later. Only ASCII counts as a digit or a letter here.

## Main definitions

* `Scan.isSpace`, `Scan.isNumeral`, `Scan.isLetter`, `Scan.isNameChar`, `Scan.isSymbol`: The
  classes of characters.
* `Token.scan`: The tokens of a text.
-/

namespace DeskCalc

namespace Scan

/-- The characters that separate tokens. -/
def isSpace (c : Char) : Bool := c == ' ' || c == '\t' || c == '\n'

/-- The characters that continue a number. -/
def isNumeral (c : Char) : Bool := Text.isAsciiDigit c || c == '.'

/-- The characters that start a name. -/
def isLetter (c : Char) : Bool :=
  (97 ≤ c.toNat && c.toNat ≤ 122) || (65 ≤ c.toNat && c.toNat ≤ 90) || c == '_'

/-- The characters that continue a name. -/
def isNameChar (c : Char) : Bool := isLetter c || Text.isAsciiDigit c

/-- The operators of one character, the brackets and the comma. -/
def isSymbol (c : Char) : Bool :=
  ['+', '-', '*', '/', '^', '(', ')', ',', '!', '%'].contains c

/-- Whether a text starts with a digit. -/
def startsWithDigit : List Char → Bool
  | c :: _ => Text.isAsciiDigit c
  | [] => false

/-- Whether a number starts at the character with the given text after it. -/
def startsNumber (c : Char) (rest : List Char) : Bool :=
  Text.isAsciiDigit c || (c == '.' && startsWithDigit rest)

/-- Dropping from the front does not lengthen a list. -/
theorem length_dropWhile_le (p : Char → Bool) (cs : List Char) :
    (cs.dropWhile p).length ≤ cs.length :=
  (List.dropWhile_suffix p).length_le

/-- The tokens of a list of characters. -/
def tokens : List Char → List Token
  | [] => []
  | c :: rest =>
    if isSpace c then tokens rest
    else if startsNumber c rest then
      .number (String.ofList (c :: rest.takeWhile isNumeral)) :: tokens (rest.dropWhile isNumeral)
    else if isLetter c then
      .identifier (String.ofList (c :: rest.takeWhile isNameChar)) ::
        tokens (rest.dropWhile isNameChar)
    else if isSymbol c then .operator (String.singleton c) :: tokens rest
    else .unknown (String.singleton c) :: tokens rest
  termination_by cs => cs.length
  decreasing_by
    all_goals
      have := length_dropWhile_le isNumeral rest
      have := length_dropWhile_le isNameChar rest
      simp only [List.length_cons]
      omega

end Scan

/-- The tokens of a text. -/
def Token.scan (s : String) : List Token := Scan.tokens s.toList

end DeskCalc
