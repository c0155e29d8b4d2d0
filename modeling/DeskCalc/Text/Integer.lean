import DeskCalc.Text.Blank
import DeskCalc.Text.Digit

/-!
# Integers in Text

Reading an integer that a person or another program has written: blanks around it, a sign, and
digits of any script, where single underscores may separate them.

Numbers of more than `Text.maxIntegerDigits` digits are refused, since reading one takes time
that grows with the square of its length. That refusal comes before a look at what follows the
digits.

## Main definitions

* `Text.readInteger`: The integer that a text stands for.
-/

namespace DeskCalc

namespace Text

/-- The most digits an integer may have. -/
def maxIntegerDigits : Nat := 4300

/-- Why a text was not read as an integer. -/
inductive IntegerFault where
  /-- It is not written as one. -/
  | malformed
  /-- It has more digits than are read. -/
  | tooLong (digits : Nat)
  deriving DecidableEq, Repr

/-- Whether a character may stand around an integer: a blank, other than the information
    separators. -/
def isIntegerPadding (c : Char) : Bool := isBlank c && !(28 ≤ c.toNat && c.toNat ≤ 31)

/-- The digit values in a row where single underscores may stand between digits. -/
def separatedDigits? : List Char → Option (List Nat)
  | [] => none
  | [c] => (digitValue? c).map ([·])
  | c :: '_' :: rest => do
    let d ← digitValue? c
    let ds ← separatedDigits? rest
    return d :: ds
  | c :: rest => do
    let d ← digitValue? c
    let ds ← separatedDigits? rest
    return d :: ds

/-- Reads a natural number up to its last digit or underscore, and requires that only padding
    follows it. -/
def readNatural (cs : List Char) : Except IntegerFault Nat :=
  match separatedDigits? (cs.takeWhile fun c => isDigit c || c == '_') with
  | none => .error .malformed
  | some ds =>
    if maxIntegerDigits < ds.length then .error (.tooLong ds.length)
    else if (cs.dropWhile fun c => isDigit c || c == '_').all isIntegerPadding then
      .ok (digitsValue ds)
    else .error .malformed

/-- Reads an integer. -/
def readInteger (s : String) : Except IntegerFault Int :=
  match s.toList.dropWhile isIntegerPadding with
  | '-' :: cs => (readNatural cs).map fun n => -(n : Int)
  | '+' :: cs => (readNatural cs).map fun n => (n : Int)
  | cs => (readNatural cs).map fun n => (n : Int)

end Text

end DeskCalc
