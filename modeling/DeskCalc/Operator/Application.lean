import DeskCalc.Arithmetic
import DeskCalc.Fault
import DeskCalc.Operator

/-!
# Applying Operators

What the operators do to numbers. The binary ones have a result for all operands, if need be
an infinity or NaN; the factorial is refused where it is not defined or too large.

## Main definitions

* `Operator.binary?`: The operation of a binary operator.
* `Operator.factorialOf`: The factorial of a number.
* `Operator.applyBinary`, `Operator.applyUnary`: The operator with a given symbol, applied.
-/

namespace DeskCalc

namespace Operator

/-- The operation of an operator that takes two operands. -/
def binary? (ar : Arithmetic) : Operator → Option (Binary64 → Binary64 → Binary64)
  | .plus => some ar.add
  | .minus => some ar.sub
  | .times => some ar.mul
  | .divide => some ar.div
  | .remainder => some ar.rem
  | .power => some ar.pow
  | .factorial => none
  | .negate => none

/-- The number multiplied by `i` and by so many integers that follow it, each product rounded
    before the next. The first product that is not finite ends it. -/
def multiplyUp (ar : Arithmetic) : (count i : Nat) → Binary64 → Option Binary64
  | 0, _, x => some x
  | count + 1, i, x =>
    let product := ar.mul x (.ofInt i)
    if product.isFinite then multiplyUp ar count (i + 1) product else none

/-- The factorial, of a whole number that is not negative. -/
def factorialOf (ar : Arithmetic) (x : Binary64) : Except Fault Binary64 :=
  match x.truncate? with
  | none => .error .invalidFactorial
  | some n =>
    if x.lt (.zero false) then .error .negativeFactorial
    else if !x.eq (ar.floor x) then .error .nonIntegerFactorial
    else match multiplyUp ar (n.toNat - 1) 2 .one with
      | some product => .ok product
      | none => .error (.factorialOverflow n)

/-- The binary operator with the given symbol, applied. -/
def applyBinary (ar : Arithmetic) (symbol : String) (x y : Binary64) : Except Fault Binary64 :=
  match (ofSymbol? symbol).bind (binary? ar) with
  | some f => .ok (f x y)
  | none => .error (.unsupportedOperator symbol)

/-- The unary operator with the given symbol, applied. -/
def applyUnary (ar : Arithmetic) (symbol : String) (x : Binary64) : Except Fault Binary64 :=
  match ofSymbol? symbol with
  | some .negate => .ok (ar.neg x)
  | some .factorial => factorialOf ar x
  | _ => .error (.unsupportedOperator symbol)

end Operator

end DeskCalc
