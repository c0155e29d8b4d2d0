import DeskCalc.Binary64.Rounding
import DeskCalc.Text.Digit

/-!
# Decimals

A decimal is a natural number of digits scaled by a power of ten: what a row of digits with a
point in it stands for, and what is written out when a number is shown.

Its value is an exact rational, and the floating-point number it denotes is that value rounded
once.

## Main definitions

* `Decimal`: Digits and a power of ten.
* `Decimal.toRat`: The exact value.
* `Decimal.toBinary64`: The nearest floating-point number.
* `Decimal.ofDigits`: The decimal with the given digits before and after the point.
* `Decimal.trim`: The same value without trailing zeros among the digits.
-/

namespace DeskCalc

/-- The number `digits * 10 ^ exponent`. -/
structure Decimal where
  /-- All digits, as one natural number. -/
  digits : Nat
  /-- The power of ten that they are scaled by. -/
  exponent : Int
  deriving DecidableEq, Repr

namespace Decimal

/-- The power of ten with the given exponent, exactly. -/
def tenPow (k : Int) : Rat :=
  if 0 ≤ k then ((Nat.pow 10 k.toNat : Nat) : Rat) else mkRat 1 (Nat.pow 10 (-k).toNat)

/-- The exact value. -/
def toRat (d : Decimal) : Rat :=
  if 0 ≤ d.exponent then ((d.digits * Nat.pow 10 d.exponent.toNat : Nat) : Rat)
  else mkRat d.digits (Nat.pow 10 (-d.exponent).toNat)

/-- The nearest floating-point number, ties to even, infinite when out of range. -/
def toBinary64 (d : Decimal) : Binary64 := .ofRat d.toRat

/-- The decimal with the given digits before and after the point. -/
def ofDigits (whole fraction : List Nat) : Decimal :=
  ⟨Text.digitsValue (whole ++ fraction), -(fraction.length : Int)⟩

/-- The same value without trailing zeros among the digits, up to the given number of them. -/
def trim : (fuel : Nat) → Decimal → Decimal
  | 0, d => d
  | fuel + 1, d =>
    if d.digits ≠ 0 ∧ d.digits % 10 = 0 then trim fuel ⟨d.digits / 10, d.exponent + 1⟩ else d

end Decimal

end DeskCalc
