import DeskCalc.Binary64.Elementary

/-!
# Arithmetics

The operations on numbers that evaluation is built from, as a parameter. How an expression is
evaluated, in which order, and what is checked on the way, does not depend on what these
operations compute, and keeping them apart lets that be said.

The calculator uses one arithmetic, in which every operation is rounded correctly.

## Main definitions

* `Arithmetic`: A choice of the operations.
* `Arithmetic.standard`: The correctly rounded ones.
* `Binary64.pi`, `Binary64.e`: The constants.
-/

namespace DeskCalc

/-- The operations on numbers. -/
structure Arithmetic where
  /-- The sum. -/
  add : Binary64 → Binary64 → Binary64
  /-- The difference. -/
  sub : Binary64 → Binary64 → Binary64
  /-- The product. -/
  mul : Binary64 → Binary64 → Binary64
  /-- The quotient. -/
  div : Binary64 → Binary64 → Binary64
  /-- The remainder of the truncated quotient. -/
  rem : Binary64 → Binary64 → Binary64
  /-- The power. -/
  pow : Binary64 → Binary64 → Binary64
  /-- The opposite. -/
  neg : Binary64 → Binary64
  /-- The magnitude. -/
  abs : Binary64 → Binary64
  /-- The largest integer not above. -/
  floor : Binary64 → Binary64
  /-- The smallest integer not below. -/
  ceil : Binary64 → Binary64
  /-- The square root. -/
  sqrt : Binary64 → Binary64
  /-- The exponential. -/
  exp : Binary64 → Binary64
  /-- The natural logarithm. -/
  ln : Binary64 → Binary64
  /-- The logarithm to base ten. -/
  log10 : Binary64 → Binary64
  /-- The sine of an angle in radians. -/
  sin : Binary64 → Binary64
  /-- The cosine of an angle in radians. -/
  cos : Binary64 → Binary64
  /-- The tangent of an angle in radians. -/
  tan : Binary64 → Binary64
  /-- The arc sine, in radians. -/
  asin : Binary64 → Binary64
  /-- The arc cosine, in radians. -/
  acos : Binary64 → Binary64
  /-- The arc tangent, in radians. -/
  atan : Binary64 → Binary64

/-- The operations of the floating-point format, and the elementary functions rounded
    correctly. -/
def Arithmetic.standard : Arithmetic where
  add := Binary64.add
  sub := Binary64.sub
  mul := Binary64.mul
  div := Binary64.div
  rem := Binary64.rem
  pow := Binary64.pow
  neg := Binary64.neg
  abs := Binary64.abs
  floor := Binary64.floor
  ceil := Binary64.ceil
  sqrt := Binary64.sqrt
  exp := Binary64.exp
  ln := Binary64.ln
  log10 := Binary64.log10
  sin := Binary64.sin
  cos := Binary64.cos
  tan := Binary64.tan
  asin := Binary64.asin
  acos := Binary64.acos
  atan := Binary64.atan

/-- The number nearest to the ratio of a circle to its diameter. -/
def Binary64.pi : Binary64 := .finite false 7074237752028440 (-51) (by decide)

/-- The number nearest to the base of the natural logarithm. -/
def Binary64.e : Binary64 := .finite false 6121026514868073 (-51) (by decide)

end DeskCalc
