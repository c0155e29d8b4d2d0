import DeskCalc.Binary64.Rounding

/-!
# Fixed-Point Series

Elementary functions to any precision, in integers. An integer `u` at scale `w` stands for
`u / 2 ^ w`, and each function here takes the scale first and answers at that scale.

The answers are estimates. Every step drops less than a few units, and no function takes more
than a few thousand steps, so an answer is off by less than `Estimate.slack` units. That is
all a caller needs: it widens the answer by the slack and looks whether rounding still has
one possible outcome, and if not, it asks again at a finer scale.

Arguments are brought near zero before a series is summed, each by the identity of its own
function: a multiple of `ln 2` for the exponential, a multiple of a quarter turn for sine and
cosine, half angles for the arc tangent, a power of two for the logarithm.

## Main definitions

* `FixedPoint.pi`, `FixedPoint.ln2`: Constants.
* `FixedPoint.sin`, `FixedPoint.cos`: Near zero.
* `FixedPoint.reduceTurn`: A quarter turn count and what is left of an angle.
* `FixedPoint.arctan2`: The angle of a point in the first quadrant.
* `FixedPoint.ln`, `FixedPoint.exp`: Logarithm and exponential.
* `Estimate`: A value that is known up to the slack.
* `Estimate.settle`: The only number that estimates of growing precision round to.
-/

namespace DeskCalc

namespace FixedPoint

/-- One, at scale `w`. -/
def one (w : Nat) : Int := ((1 <<< w : Nat) : Int)

/-- The rational at scale `w`, rounded down. -/
def ofRat (w : Nat) (r : Rat) : Int := r.num * one w / r.den

/-- The sum of a series from its current term on, until a term vanishes at this scale. The
    term with index `k` is followed by `next k term`. -/
def sumTerms (next : Nat → Int → Int) : (fuel k : Nat) → (term : Int) → Int
  | 0, _, _ => 0
  | fuel + 1, k, term =>
    if term = 0 then 0 else term + sumTerms next fuel (k + 1) (next k term)

/-- The sum of `p / (2 k + 1)` over the powers that start with `p` and are each `ratio` times
    the one before. -/
def sumOdd (w : Nat) (ratio : Int) : (fuel k : Nat) → (p : Int) → Int
  | 0, _, _ => 0
  | fuel + 1, k, p =>
    if p = 0 then 0
    else p.tdiv (2 * k + 1) + sumOdd w ratio fuel (k + 1) ((p * ratio).tdiv (one w))

/-- The arc tangent of a number near zero. -/
def arctanNear (w : Nat) (t : Int) : Int :=
  sumOdd w (-(t * t).tdiv (one w)) (w + 8) 0 t

/-- The inverse hyperbolic tangent of a number near zero, which is the same series without
    the alternating signs. -/
def artanhNear (w : Nat) (t : Int) : Int :=
  sumOdd w ((t * t).tdiv (one w)) (w + 8) 0 t

/-! ### Constants -/

/-- The ratio of circle to diameter, by Machin's formula, with sixteen bits to spare. -/
def pi (w : Nat) : Int :=
  let v := w + 16
  (16 * arctanNear v (one v / 5) - 4 * arctanNear v (one v / 239)) / one 16

/-- A quarter turn. -/
def halfPi (w : Nat) : Int := pi w / 2

/-- The natural logarithm of two, with sixteen bits to spare. -/
def ln2 (w : Nat) : Int :=
  let v := w + 16
  2 * artanhNear v (one v / 3) / one 16

/-! ### Angles -/

/-- The sine of a number near zero. -/
def sin (w : Nat) (r : Int) : Int :=
  let square := (r * r).tdiv (one w)
  sumTerms (fun k t => -(t * square).tdiv ((2 * k + 2) * (2 * k + 3) * one w)) (w + 8) 0 r

/-- The cosine of a number near zero. -/
def cos (w : Nat) (r : Int) : Int :=
  let square := (r * r).tdiv (one w)
  sumTerms (fun k t => -(t * square).tdiv ((2 * k + 1) * (2 * k + 2) * one w)) (w + 8) 0 (one w)

/-- The nearest whole number of quarter turns to an angle, and what the angle exceeds it by.
    The quarter turn is taken with as many more bits as the angle has before the point, since
    its error is multiplied by their number. -/
def reduceTurn (w : Nat) (x : Rat) : Int × Int :=
  let v := w + 32 + (floorLog2 x.num.natAbs x.den).toNat
  let quarter := halfPi v
  let angle := ofRat v x
  let turns := (2 * angle + quarter) / (2 * quarter)
  (turns, (angle - turns * quarter) / one (v - w))

/-- The tangent of half the angle whose tangent is `t`. -/
def halveTangent (w : Nat) (t : Int) : Int :=
  let secant : Int := ((one (2 * w) + t * t).toNat.sqrt : Nat)
  t * one w / (one w + secant)

/-- The arc tangent of a number from zero to one, by way of an eighth of the angle. -/
def arctanUnit (w : Nat) (t : Int) : Int :=
  8 * arctanNear w (halveTangent w (halveTangent w (halveTangent w t)))

/-- The angle at the origin of a point in the first quadrant, at whatever scale its
    coordinates share. -/
def arctan2 (w : Nat) (y x : Int) : Int :=
  if y ≤ x then arctanUnit w (y * one w / x)
  else halfPi w - arctanUnit w (x * one w / y)

/-- The square root of a rational that is not negative. -/
def sqrt (w : Nat) (r : Rat) : Int :=
  (((r.num.toNat <<< (2 * w)) / r.den).sqrt : Nat)

/-! ### Logarithm and exponential -/

/-- The natural logarithm of a positive rational. The power of two is chosen to leave a
    factor between three quarters and three halves. -/
def ln (w : Nat) (r : Rat) : Int :=
  let e := floorLog2 r.num.natAbs r.den
  let e := if 3 / 2 ≤ r * Binary64.twoPow (-e) then e + 1 else e
  let m := r * Binary64.twoPow (-e)
  e * ln2 w + 2 * artanhNear w (ofRat w ((m - 1) / (m + 1)))

end FixedPoint

/-- The value `units / 2 ^ scale`, known up to `Estimate.slack` units. -/
structure Estimate where
  /-- The numerator. -/
  units : Int
  /-- The exponent of the denominator. -/
  scale : Int

namespace Estimate

/-- How many units an estimate may be off by. -/
def slack : Int := 1048576

/-- The number that everything within the slack rounds to, if there is only one. -/
def settled? (e : Estimate) : Option Binary64 :=
  let lowest := Binary64.ofRat ((e.units - slack : Int) * Binary64.twoPow (-e.scale))
  let highest := Binary64.ofRat ((e.units + slack : Int) * Binary64.twoPow (-e.scale))
  if lowest = highest then some lowest else none

/-- The scales that are tried, each twice as fine as the one before. -/
def scales : List Nat := [160, 320, 640, 1280, 2560]

/-- The number that the estimated value rounds to. A value that lies exactly in the middle
    between two numbers would never settle, so those are for the caller to answer exactly. -/
def settle (estimate : Nat → Estimate) : Binary64 :=
  match scales.findSome? fun w => (estimate w).settled? with
  | some x => x
  | none =>
    let last := estimate 2560
    Binary64.ofRat (last.units * Binary64.twoPow (-last.scale))

/-- The quotient of two values at scale `w`. A denominator that has lost leading bits makes
    the quotient less certain, by twice as many bits, so it is answered at a coarser scale. -/
def quotient (w : Nat) (num den : Int) : Estimate :=
  let lost : Int := w - den.natAbs.log2 + 1
  let scale : Int := w - 2 * lost
  ⟨num * FixedPoint.one scale.toNat / (den * FixedPoint.one (-scale).toNat), scale⟩

/-- The exponential of a value at scale `w`. Beyond eleven hundred the result is out of range
    in either direction, so a larger exponent is treated as that one. -/
def exp (w : Nat) (x : Int) : Estimate :=
  let bound := 1100 * FixedPoint.one w
  let x := max (-bound) (min bound x)
  let ln2 := FixedPoint.ln2 w
  let k := (2 * x + ln2) / (2 * ln2)
  let r := x - k * ln2
  ⟨FixedPoint.sumTerms (fun n t => (t * r).tdiv ((n + 1) * FixedPoint.one w)) (w + 8) 0
    (FixedPoint.one w), w - k⟩

end Estimate

end DeskCalc
