import DeskCalc.Text.Blank

/-!
# Angle Modes

The unit of angles, which the trigonometric functions take and their inverses give.

## Main definitions

* `AngleMode`: Degrees or radians.
* `AngleMode.name`: How a mode is shown.
* `AngleMode.ofText?`: The mode that a text names.
-/

namespace DeskCalc

/-- The unit of angles. -/
inductive AngleMode where
  /-- A full turn is 360. -/
  | degrees
  /-- A full turn is the circumference of the unit circle. -/
  | radians
  deriving DecidableEq, Repr

namespace AngleMode

/-- How a mode is shown. -/
def name : AngleMode → String
  | .degrees => "DEGREES"
  | .radians => "RADIANS"

/-- The capital letter of a letter, as far as the letters of mode names go. Two letters
    outside ASCII have their capitals within it, the dotless `i` and the long `s`. -/
def upper (c : Char) : Char :=
  if c = 'ı' then 'I' else if c = 'ſ' then 'S' else c.toUpper

/-- The mode that a text names, in full or by its first three letters, in any case and with
    blanks around it. -/
def ofText? (s : String) : Option AngleMode :=
  let word := String.ofList ((Text.stripChars s.toList).map upper)
  if word = "DEGREES" ∨ word = "DEG" then some .degrees
  else if word = "RADIANS" ∨ word = "RAD" then some .radians
  else none

end AngleMode

end DeskCalc
