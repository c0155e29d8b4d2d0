import DeskCalc.Decimal.Shortest
import DeskCalc.Decimal.Layout

/-!
# Displayed Numbers

How results are shown. Whole numbers have no point, fractions have as few digits as read back,
and very large and very small numbers have a power of ten. Zero is shown without its sign.

## Main definitions

* `Display.scientificFrom`, `Display.positionalFrom`: Where the layouts change.
* `Display.text`: The text a number is shown as.
-/

namespace DeskCalc

namespace Display

/-- The magnitude from which on numbers are shown with a power of ten. -/
def scientificFrom : Binary64 := Decimal.toBinary64 ⟨1, 21⟩

/-- The magnitude below which numbers are shown with a power of ten. -/
def positionalFrom : Binary64 := Decimal.toBinary64 ⟨1, -6⟩

/-- The text of the magnitude of a finite number other than zero. -/
def magnitude (x : Binary64) : List Char :=
  if scientificFrom.le x || x.lt positionalFrom then (Decimal.shortest x).scientific 1
  else (Decimal.shortest x).positional

/-- The text that a number is shown as. -/
def text : Binary64 → String
  | .nan => "NaN"
  | .inf negative => if negative then "-Infinity" else "Infinity"
  | x@(.finite negative m ..) =>
    if m = 0 then "0"
    else String.ofList ((if negative then ['-'] else []) ++ magnitude x.abs)

end Display

end DeskCalc
