import DeskCalc.Binary64.Arithmetic
import DeskCalc.Binary64.FixedPoint

/-!
# Elementary Functions

Trigonometric functions and their inverses, exponential, logarithms and powers, each rounded
correctly: the result is the number nearest to the exact value of the function.

A value of one of these functions is, apart from a few arguments that are listed first, never
exactly representable nor halfway between two numbers, so ever finer estimates settle it. For
powers the exceptions are the rational ones, and `exactPow?` finds them.

The rest is the treatment of zeros, infinities and arguments outside a function's domain.

## Main definitions

* `Binary64.sin`, `Binary64.cos`, `Binary64.tan`: Angles in radians.
* `Binary64.asin`, `Binary64.acos`, `Binary64.atan`: Their principal inverses.
* `Binary64.exp`, `Binary64.ln`, `Binary64.log10`: Exponential and logarithms.
* `Binary64.pow`: Powers, over all pairs of numbers.
-/

namespace DeskCalc

namespace Binary64

/-- The bits between the leading one of a number and the point, on either side. Working with
    this many more keeps an estimate's relative precision. -/
def distanceFromOne (x : Rat) : Nat := (floorLog2 x.num.natAbs x.den).natAbs

/-! ### Angles -/

/-- The sine of a quarter-turn count and a remainder. -/
def sinTurned (w : Nat) (turns : Int) (r : Int) : Int :=
  match (turns % 4).toNat with
  | 0 => FixedPoint.sin w r
  | 1 => FixedPoint.cos w r
  | 2 => -FixedPoint.sin w r
  | _ => -FixedPoint.cos w r

/-- The sine, estimated. -/
def sinEstimate (x : Rat) (w : Nat) : Estimate :=
  let v := w + distanceFromOne x
  let (turns, r) := FixedPoint.reduceTurn v x
  ⟨sinTurned v turns r, v⟩

/-- The cosine, estimated: the sine of a quarter turn more. -/
def cosEstimate (x : Rat) (w : Nat) : Estimate :=
  let (turns, r) := FixedPoint.reduceTurn w x
  ⟨sinTurned w (turns + 1) r, w⟩

/-- The tangent, estimated. -/
def tanEstimate (x : Rat) (w : Nat) : Estimate :=
  let v := w + distanceFromOne x
  let (turns, r) := FixedPoint.reduceTurn v x
  .quotient v (sinTurned v turns r) (sinTurned v (turns + 1) r)

/-- The sine. An infinity has none, and a zero is its own. -/
def sin : Binary64 → Binary64
  | x@(.finite ..) => if x.isZero then x else Estimate.settle (sinEstimate x.toRat)
  | _ => .nan

/-- The cosine. An infinity has none. -/
def cos : Binary64 → Binary64
  | x@(.finite ..) => if x.isZero then one else Estimate.settle (cosEstimate x.toRat)
  | _ => .nan

/-- The tangent. An infinity has none, and a zero is its own. -/
def tan : Binary64 → Binary64
  | x@(.finite ..) => if x.isZero then x else Estimate.settle (tanEstimate x.toRat)
  | _ => .nan

/-- The angle of the point `(x, √(1 - x²))` for `x` from zero to one, measured from the
    second axis, estimated. -/
def asinEstimate (x : Rat) (w : Nat) : Estimate :=
  let v := w + distanceFromOne x
  ⟨FixedPoint.arctan2 v (FixedPoint.ofRat v x) (FixedPoint.sqrt v (1 - x * x)), v⟩

/-- The angle of the point `(x, √(1 - x²))` for `x` from minus one to one, estimated. -/
def acosEstimate (x : Rat) (w : Nat) : Estimate :=
  let y := FixedPoint.sqrt w (1 - x * x)
  if x < 0 then ⟨FixedPoint.pi w - FixedPoint.arctan2 w y (FixedPoint.ofRat w (-x)), w⟩
  else ⟨FixedPoint.arctan2 w y (FixedPoint.ofRat w x), w⟩

/-- The arc tangent of a positive number, estimated. -/
def atanEstimate (x : Rat) (w : Nat) : Estimate :=
  let v := w + distanceFromOne x
  ⟨FixedPoint.arctan2 v (FixedPoint.ofRat v x) (FixedPoint.one v), v⟩

/-- The arc sine, between a quarter turn either way. Outside `[-1, 1]` there is none. -/
def asin : Binary64 → Binary64
  | x@(.finite s ..) =>
    if x.isZero then x
    else if 1 < x.abs.toRat then .nan
    else (Estimate.settle (asinEstimate x.abs.toRat)).withSign s
  | _ => .nan

/-- The arc cosine, from zero to half a turn. Outside `[-1, 1]` there is none. -/
def acos : Binary64 → Binary64
  | x@(.finite ..) =>
    if 1 < x.abs.toRat then .nan
    else if x = one then zero false
    else Estimate.settle (acosEstimate x.toRat)
  | _ => .nan

/-- The arc tangent, a quarter turn at the infinities. -/
def atan : Binary64 → Binary64
  | .nan => .nan
  | .inf s => (Estimate.settle fun w => ⟨FixedPoint.halfPi w, w⟩).withSign s
  | x@(.finite s ..) =>
    if x.isZero then x else (Estimate.settle (atanEstimate x.abs.toRat)).withSign s

/-! ### Exponential and logarithms -/

/-- The exponential. -/
def exp : Binary64 → Binary64
  | .nan => .nan
  | .inf negative => if negative then zero false else .inf false
  | x@(.finite ..) =>
    if x.isZero then one else Estimate.settle fun w => .exp w (FixedPoint.ofRat w x.toRat)

/-- A logarithm, given by its values at positive numbers other than one. At zero it is
    negatively infinite, and negative numbers have none. -/
def logarithm (atPositive : Rat → Binary64) : Binary64 → Binary64
  | .nan => .nan
  | .inf negative => if negative then .nan else .inf false
  | x@(.finite negative ..) =>
    if x.isZero then .inf true
    else if negative then .nan
    else if x = one then zero false
    else atPositive x.toRat

/-- The natural logarithm. -/
def ln : Binary64 → Binary64 :=
  logarithm fun r => Estimate.settle fun w => ⟨FixedPoint.ln w r, w⟩

/-- The exponent of a power of ten. Those above the twenty-second are no numbers of this
    format. -/
def log10Exact? (r : Rat) : Option Nat :=
  (List.range 23).find? fun n => r = (Nat.pow 10 n : Nat)

/-- The logarithm to base ten. -/
def log10 : Binary64 → Binary64 :=
  logarithm fun r =>
    match log10Exact? r with
    | some n => ofInt n
    | none => Estimate.settle fun w => .quotient w (FixedPoint.ln w r) (FixedPoint.ln w 10)

/-! ### Powers -/

/-- An odd number and an exponent of two with the same product, for a significand that is not
    zero. -/
def oddPart (m : Nat) (q : Int) : Nat × Int :=
  (List.range 53).foldl (fun (m, q) _ => if m % 2 = 0 then (m / 2, q + 1) else (m, q)) (m, q)

/-- The exact square root of `m * 2 ^ q`, with `m` odd, where there is one. -/
def exactSqrt? (p : Nat × Int) : Option (Nat × Int) :=
  let root := p.1.sqrt
  if root * root = p.1 ∧ p.2 % 2 = 0 then some (root, p.2 / 2) else none

/-- The exact value of a power of a positive number `m * 2 ^ q`, where that value could be
    representable or lie halfway between two numbers. The exponent is a fraction with a power
    of two below: that many square roots must be exact, and what is then raised to the
    numerator has an odd part of one, or a result that soon needs too many bits. -/
def exactPow? (m : Nat) (q : Int) (y : Rat) : Option Rat :=
  let (m, q) := oddPart m q
  if m = 1 then
    if q * y.num % y.den = 0 then
      some (twoPow (max (-4000) (min 4000 (q * y.num / y.den))))
    else none
  else if 0 < y.num ∧ y.num ≤ 64 ∧ y.den ≤ 32 then
    match (List.range y.den.log2).foldlM (fun p _ => exactSqrt? p) (m, q) with
    | some (m, q) => some ((Nat.pow m y.num.toNat : Nat) * twoPow (q * y.num))
    | none => none
  else none

/-- A power of a positive number, estimated by way of the logarithm. The logarithm's error is
    multiplied by the exponent, so it is taken with as many more bits. -/
def powEstimate (x y : Rat) (w : Nat) : Estimate :=
  let v := w + 32 + (floorLog2 y.num.natAbs y.den).toNat
  .exp w (FixedPoint.ln v x * y.num / (y.den * FixedPoint.one (v - w)))

/-- The power of a positive number other than one to an exponent other than zero. -/
def powPositive (m : Nat) (q : Int) (y : Rat) : Binary64 :=
  match exactPow? m q y with
  | some r => ofRat r
  | none => Estimate.settle (powEstimate ((m : Rat) * twoPow q) y)

/-- Whether a rational is an odd integer. -/
def isOddInt (r : Rat) : Bool := r.den == 1 && r.num % 2 == 1

/-- A power with an infinite exponent, which depends on where the base's magnitude lies. -/
def powInf (x : Binary64) (negative : Bool) : Binary64 :=
  if x.abs = one then one
  else if xor negative (x.abs.lt one) then zero false
  else .inf false

/-- The power. An exponent of zero gives one, and so does a base of one, even with NaN; an
    exponent of one half is the square root, on all bases. A zero or infinite base keeps its
    sign only under an odd exponent; a negative base needs an integer. -/
def pow (x y : Binary64) : Binary64 :=
  if y.isZero then one
  else if x = one then one
  else if y = half then sqrt x
  else match x, y with
    | .nan, _ => .nan
    | _, .nan => .nan
    | x, .inf negative => powInf x negative
    | .inf s, y@(.finite t ..) =>
      let sign := s && isOddInt y.toRat
      if t then zero sign else .inf sign
    | .finite s m q _, y@(.finite t ..) =>
      let sign := s && isOddInt y.toRat
      if m = 0 then
        if t then .inf sign else zero sign
      else if s && y.toRat.den != 1 then .nan
      else if m = 4503599627370496 ∧ q = -52 then one.withSign sign
      else (powPositive m q y.toRat).withSign sign

end Binary64

end DeskCalc
