import DeskCalc.Binary64.Basic

/-!
# Rounding to Binary64

Every result is the exact rational result, rounded once: to the nearest representable number,
and from the middle between two of them to the one whose significand is even.

The exponent is read off the magnitude. A number in `[2 ^ e, 2 ^ (e + 1))` has neighbours
spaced `2 ^ (e - 52)` apart, but never closer than `2 ^ (-1074)`, so the significand is the
magnitude counted in that spacing, rounded to an integer. Rounding up may carry into the next
power of two, which is then the smallest significand of the next spacing; a magnitude whose
spacing lies beyond the largest exponent is infinite.

## Main definitions

* `roundHalfEven`: The integer nearest to a quotient, ties to even.
* `floorLog2`: The exponent of the largest power of two not above a quotient.
* `Binary64.ofScaled`: The number `n * 2 ^ q`, infinite when it is out of range.
* `Binary64.roundQuotient`: The number nearest to a positive quotient.
* `Binary64.ofRat`: The number nearest to a rational.
-/

namespace DeskCalc

/-- The integer nearest to `num / den`. From the middle between two integers, the even one. -/
def roundHalfEven (num den : Nat) : Nat :=
  let n := num / den
  let r := num % den
  if 2 * r < den then n
  else if den < 2 * r then n + 1
  else n + n % 2

/-- The largest `e` with `2 ^ e ≤ num / den`, for a positive quotient. The lengths of the two
    numbers leave two candidates, and one comparison picks between them. -/
def floorLog2 (num den : Nat) : Int :=
  let e : Int := (num.log2 : Int) - den.log2
  if den <<< e.toNat ≤ num <<< (-e).toNat then e else e - 1

namespace Binary64

/-- The number `n * 2 ^ q`, for a significand that fits or that rounding has just carried to
    `2 ^ 53`. What does not fit either way is out of range. -/
def ofScaled (negative : Bool) (n : Nat) (q : Int) : Binary64 :=
  if h : Canonical n q then .finite negative n q h
  else if h : n = 9007199254740992 ∧ Canonical 4503599627370496 (q + 1) then
    .finite negative 4503599627370496 (q + 1) h.2
  else .inf negative

/-- The number nearest to the positive quotient `num / den`, with the given sign. -/
def roundQuotient (negative : Bool) (num den : Nat) : Binary64 :=
  let q := max (floorLog2 num den - 52) (-1074)
  ofScaled negative (roundHalfEven (num <<< (-q).toNat) (den <<< q.toNat)) q

/-- The number nearest to a rational. Zero gives the positive zero, and a negative rational
    that rounds to zero the negative one. -/
def ofRat (r : Rat) : Binary64 :=
  if r.num = 0 then zero false
  else roundQuotient (decide (r.num < 0)) r.num.natAbs r.den

/-- The number nearest to an integer. -/
def ofInt (n : Int) : Binary64 := ofRat n

end Binary64

end DeskCalc
