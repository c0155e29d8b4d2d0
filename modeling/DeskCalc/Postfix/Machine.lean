import DeskCalc.Function
import DeskCalc.Numeral
import DeskCalc.Operator.Application
import DeskCalc.Token

/-!
# Running Postfix

Evaluates tokens in postfix order on a stack of numbers. An operand is pushed; an operator or
a call takes its operands from the stack and pushes its result.

Operands are checked when they are taken, not when they are pushed: an infinity or NaN may be
the result of a step, but no step computes with it and it cannot be the final result. They are
taken from the top, so of two unacceptable operands the last is the one that is reported.

A call looks first whether the stack holds all its arguments. An operator does not, and finds
out when it takes one that is not there.

## Main definitions

* `Postfix.takeOperand`, `Postfix.takeArguments`: Operands taken from the stack.
* `Postfix.execute`: The effect of one token on the stack, whose top comes first.
* `Postfix.executeAll`: The effect of several.
* `Postfix.evaluate`: The value of a list of tokens.

## Theorems

* `Postfix.executeAll_append`: A run can be cut anywhere.
-/

namespace DeskCalc

namespace Postfix

/-- The operand on top of the stack, and the stack without it. -/
def takeOperand : List Binary64 → Except Fault (Binary64 × List Binary64)
  | [] => .error .missingOperand
  | x :: stack => if x.isFinite then .ok (x, stack) else .error (.nonFiniteOperand x)

/-- So many operands from the top of the stack, in the order in which they were pushed and
    before those that are given, and the stack without them. -/
def takeArguments : Nat → List Binary64 → List Binary64 →
    Except Fault (List Binary64 × List Binary64)
  | 0, args, stack => .ok (args, stack)
  | n + 1, args, stack => do
    let (x, stack) ← takeOperand stack
    takeArguments n (x :: args) stack

/-- The effect of a call. A count that is missing means one argument, and a negative one
    none. -/
def executeCall (ar : Arithmetic) (mode : AngleMode) (name : String) (argc : Option Int)
    (stack : List Binary64) : Except Fault (List Binary64) := do
  let count := argc.getD 1
  if (stack.length : Int) < count then .error (.missingArguments name count)
  else
    let (args, stack) ← takeArguments count.toNat [] stack
    let x ← Function.call ar mode name args
    return x :: stack

/-- The effect of an operator. -/
def executeOperator (ar : Arithmetic) (symbol : String) (stack : List Binary64) :
    Except Fault (List Binary64) :=
  match Operator.ofSymbol? symbol with
  | none => .error (.unsupportedOperator symbol)
  | some op =>
    match op.binary? ar with
    | none => do
      let (x, stack) ← takeOperand stack
      let z ← Operator.applyUnary ar symbol x
      return z :: stack
    | some f => do
      let (y, stack) ← takeOperand stack
      let (x, stack) ← takeOperand stack
      return f x y :: stack

/-- The effect of a token on the stack. -/
def execute (ar : Arithmetic) (mode : AngleMode) (t : Token) (stack : List Binary64) :
    Except Fault (List Binary64) :=
  match t.kind with
  | .number => (Numeral.read t.text).map (· :: stack)
  | .identifier => (Constant.value t.text).map (· :: stack)
  | .call => executeCall ar mode t.text t.argc stack
  | .operator => executeOperator ar t.text stack
  | .unknown => .error (.unexpectedToken t.spelling)

/-- The effect of a list of tokens on the stack. -/
def executeAll (ar : Arithmetic) (mode : AngleMode) :
    List Token → List Binary64 → Except Fault (List Binary64)
  | [], stack => .ok stack
  | t :: rest, stack => do
    let stack ← execute ar mode t stack
    executeAll ar mode rest stack

/-- The effect of a list of tokens is the effect of a first part and then that of the rest. -/
theorem executeAll_append (ar : Arithmetic) (mode : AngleMode) (ts us : List Token)
    (stack : List Binary64) :
    executeAll ar mode (ts ++ us) stack = (executeAll ar mode ts stack).bind
      (executeAll ar mode us) := by
  induction ts generalizing stack with
  | nil => rfl
  | cons t ts ih =>
    simp only [List.cons_append, executeAll, bind, Except.bind]
    cases execute ar mode t stack with
    | error e => rfl
    | ok s => exact ih s

/-- The value that a run has left on the stack. It must be the only one, and finite. -/
def result : List Binary64 → Except Fault Binary64
  | [x] => if x.isFinite then .ok x else .error (.nonFiniteResult x)
  | stack => .error (.leftoverValues stack.length)

/-- The value of a list of tokens in postfix order. -/
def evaluate (ar : Arithmetic) (mode : AngleMode) (ts : List Token) : Except Fault Binary64 := do
  let stack ← executeAll ar mode ts []
  result stack

end Postfix

end DeskCalc
