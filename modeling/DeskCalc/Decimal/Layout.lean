import DeskCalc.Decimal

/-!
# Decimals as Text

A decimal can be written out positionally, with zeros filling the places between its digits
and the point, or scientifically, with one digit before the point and the power of ten after
the digits.

The layouts take the row of digits and the exponent of the first of them, which is where the
number's magnitude is.

## Main definitions

* `Decimal.digitChars`, `Decimal.leading`: The row of digits and the first one's exponent.
* `Decimal.positional`: The layout with all places written out.
* `Decimal.scientific`: The layout with a power of ten.
-/

namespace DeskCalc

namespace Decimal

/-- The row of digits. -/
def digitChars (d : Decimal) : List Char := Nat.toDigits 10 d.digits

/-- The exponent of the first digit. -/
def leading (d : Decimal) : Int := d.exponent + d.digitChars.length - 1

/-- All places written out. A point appears only where digits follow it. -/
def positional (d : Decimal) : List Char :=
  let ds := d.digitChars
  let places := (-d.exponent).toNat
  if 0 ≤ d.exponent then ds ++ List.replicate d.exponent.toNat '0'
  else if places < ds.length then
    ds.take (ds.length - places) ++ '.' :: ds.drop (ds.length - places)
  else '0' :: '.' :: (List.replicate (places - ds.length) '0' ++ ds)

/-- A signed power of ten, with at least the given number of digits. -/
def exponentChars (width : Nat) (e : Int) : List Char :=
  let ds := Nat.toDigits 10 e.natAbs
  'e' :: (if e < 0 then '-' else '+') :: (List.replicate (width - ds.length) '0' ++ ds)

/-- One digit, the rest after a point, and the power of ten. -/
def scientific (width : Nat) (d : Decimal) : List Char :=
  let mantissa := match d.digitChars with
    | first :: second :: rest => first :: '.' :: second :: rest
    | ds => ds
  mantissa ++ exponentChars width d.leading

end Decimal

end DeskCalc
