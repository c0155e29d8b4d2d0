import DeskCalc.Decimal
import DeskCalc.Binary64.Arithmetic

/-!
# Shortest Decimals

The decimal that a number is shown as: the one with the fewest digits that still rounds to the
number, and among those the nearest to it.

With a fixed number of digits, the decimals near a number form a grid, and the two grid points
around the number are the only candidates worth testing: whatever lies further out on the same
side rounds to the number only if the nearer one does. So one, two, three digits are tried in
turn, up to seventeen, which always suffice.

## Main definitions

* `floorLog10`: The exponent of the largest power of ten not above a positive rational.
* `Decimal.shortestAt?`: The better of the two candidates with a given number of digits.
* `Decimal.shortest`: The decimal with the fewest digits.
-/

namespace DeskCalc

/-- The largest `e` with `10 ^ e ≤ r`, for a positive rational. The power of two gives an
    estimate that is off by at most one. -/
def floorLog10 (r : Rat) : Int :=
  let e := floorLog2 r.num.natAbs r.den * 30103 / 100000
  if r < Decimal.tenPow e then e - 1
  else if Decimal.tenPow (e + 1) ≤ r then e + 1
  else e

namespace Decimal

/-- Of two candidates around a value, the nearer one; halfway between them, the even one. -/
def nearer (r : Rat) (below above : Decimal) : Decimal :=
  let down := r - below.toRat
  let up := above.toRat - r
  if down < up then below
  else if up < down then above
  else if below.digits % 2 = 0 then below
  else above

/-- The better decimal among the two neighbours of `r` on the grid with spacing `10 ^ k` that
    reads back as `x`, for a positive number `x` with value `r`. -/
def shortestAt? (x : Binary64) (r : Rat) (k : Int) : Option Decimal :=
  let below : Decimal := ⟨(r / tenPow k).floor.toNat, k⟩
  let above : Decimal := ⟨below.digits + 1, k⟩
  match decide (below.toBinary64 = x), decide (above.toBinary64 = x) with
  | true, true => some (nearer r below above)
  | true, false => some below
  | false, true => some above
  | false, false => none

/-- The decimal with the fewest digits that reads back as a positive number, and of those the
    nearest to it. -/
def shortest (x : Binary64) : Decimal :=
  let r := x.toRat
  let e := floorLog10 r
  match (List.range 17).findSome? fun n : Nat => shortestAt? x r (e - n) with
  | some d => d.trim 17
  | none => ⟨0, 0⟩

end Decimal

end DeskCalc
