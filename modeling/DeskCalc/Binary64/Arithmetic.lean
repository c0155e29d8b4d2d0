import DeskCalc.Binary64.Rounding

/-!
# Floating-Point Arithmetic

The operations that the format itself defines. On finite numbers each of them is the exact
rational operation followed by one rounding; what remains is the algebra of infinities, NaN
and the sign of zero, which is spelled out case by case.

No operation fails. Dividing by zero gives an infinity, and an operation without a result
gives NaN; whether such a value is acceptable is for the caller to decide.

## Main definitions

* `Binary64.add`, `Binary64.sub`, `Binary64.mul`, `Binary64.div`: The four operations.
* `Binary64.rem`: The remainder of truncated division.
* `Binary64.sqrt`: The square root.
* `Binary64.floor`, `Binary64.ceil`: Rounding to integers.
* `Binary64.lt`, `Binary64.le`, `Binary64.eq`: Comparison by value.
* `Binary64.truncate?`: The integer part of a finite number.
-/

namespace DeskCalc

namespace Binary64

/-! ### Comparison -/

/-- Whether `x < y`. NaN is less than nothing and nothing is less than NaN. -/
def lt : Binary64 → Binary64 → Bool
  | .nan, _ | _, .nan => false
  | .inf s, .inf t => s && !t
  | .inf s, .finite .. => s
  | .finite .., .inf t => !t
  | x@(.finite ..), y@(.finite ..) => decide (x.toRat < y.toRat)

/-- Whether `x` and `y` are the same number. Both zeros are; NaN is not even itself. -/
def eq : Binary64 → Binary64 → Bool
  | .nan, _ | _, .nan => false
  | .inf s, .inf t => s == t
  | .inf _, .finite .. => false
  | .finite .., .inf _ => false
  | x@(.finite ..), y@(.finite ..) => decide (x.toRat = y.toRat)

/-- Whether `x ≤ y`. -/
def le (x y : Binary64) : Bool := x.lt y || x.eq y

/-! ### The four operations -/

/-- The number nearest to a rational, where an exact zero takes the given sign. -/
def ofRatSigned (negative : Bool) (r : Rat) : Binary64 :=
  if r.num = 0 then zero negative else ofRat r

/-- The sum. Opposite infinities have none, and an exact zero is positive unless both
    operands are negative zeros. -/
def add : Binary64 → Binary64 → Binary64
  | .nan, _ | _, .nan => .nan
  | .inf s, .inf t => if s = t then .inf s else .nan
  | .inf s, .finite .. => .inf s
  | .finite .., .inf t => .inf t
  | x@(.finite s ..), y@(.finite t ..) => ofRatSigned (s && t) (x.toRat + y.toRat)

/-- The difference, which is the sum with the opposite. -/
def sub (x y : Binary64) : Binary64 := add x y.neg

/-- The product. Zero times infinity has none; the sign is that of the rule of signs, for
    zeros and infinities too. -/
def mul : Binary64 → Binary64 → Binary64
  | .nan, _ | _, .nan => .nan
  | .inf s, .inf t => .inf (s != t)
  | .inf s, y@(.finite t ..) => if y.isZero then .nan else .inf (s != t)
  | x@(.finite s ..), .inf t => if x.isZero then .nan else .inf (s != t)
  | x@(.finite s ..), y@(.finite t ..) => ofRatSigned (s != t) (x.toRat * y.toRat)

/-- The quotient. Zero by zero and infinity by infinity have none; any other number divided
    by zero is infinite. -/
def div : Binary64 → Binary64 → Binary64
  | .nan, _ | _, .nan => .nan
  | .inf _, .inf _ => .nan
  | .inf s, .finite t .. => .inf (s != t)
  | .finite s .., .inf t => zero (s != t)
  | x@(.finite s ..), y@(.finite t ..) =>
    if y.isZero then
      if x.isZero then .nan else .inf (s != t)
    else ofRatSigned (s != t) (x.toRat / y.toRat)

/-- The part of a rational before the point. -/
def truncateRat (r : Rat) : Int := Int.tdiv r.num r.den

/-- The remainder of truncated division, `x - y * trunc (x / y)`: exact, smaller than `y` in
    magnitude, and signed like `x`, a zero remainder included. -/
def rem : Binary64 → Binary64 → Binary64
  | .nan, _ | _, .nan => .nan
  | .inf _, _ => .nan
  | x@(.finite ..), .inf _ => x
  | x@(.finite s ..), y@(.finite ..) =>
    if y.isZero then .nan
    else ofRatSigned s (x.toRat - y.toRat * truncateRat (x.toRat / y.toRat))

/-! ### Roots and integers -/

/-- The square root of the positive number `m * 2 ^ q`. The root of an integer with over 110
    bits is taken, and a remainder is remembered as one more unit in a further place, which
    is far below the place where rounding decides. -/
def sqrtScaled (m : Nat) (q : Int) : Binary64 :=
  let shift : Nat := 112 + (q % 2).toNat
  let n := m <<< shift
  let root := n.sqrt
  let sticky := if root * root = n then 0 else 1
  ofRat ((2 * root + sticky : Nat) * twoPow ((q - shift) / 2 - 1))

/-- The square root. A negative number has none, except the negative zero, which is its own. -/
def sqrt : Binary64 → Binary64
  | .nan => .nan
  | .inf negative => if negative then .nan else .inf false
  | x@(.finite negative m q _) =>
    if m = 0 then x else if negative then .nan else sqrtScaled m q

/-- The result of rounding a finite number to an integer by the given rule. Infinities and
    NaN stay as they are, and a zero result keeps the number's sign. -/
def toIntegral (rule : Rat → Int) : Binary64 → Binary64
  | x@(.finite negative ..) => ofRatSigned negative (rule x.toRat)
  | x => x

/-- The largest integer not above the number. -/
def floor (x : Binary64) : Binary64 := x.toIntegral Rat.floor

/-- The smallest integer not below the number. -/
def ceil (x : Binary64) : Binary64 := x.toIntegral Rat.ceil

/-- The integer part of a finite number. -/
def truncate? : Binary64 → Option Int
  | x@(.finite ..) => some (truncateRat x.toRat)
  | _ => none

end Binary64

end DeskCalc
