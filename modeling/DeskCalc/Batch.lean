import DeskCalc.Evaluation

/-!
# Batches

Many expressions evaluated in one angle mode, with a row for each of them.

The expressions may also come as a column of values, which are turned into texts first. In a
column of numbers one fraction makes all of them fractions; in any other column each value is
taken for itself.

## Main definitions

* `Batch.evaluate`: The evaluations of a list of expressions.
* `Batch.result`: The value of one of them in a column of numbers.
* `Batch.columnTexts`: The texts of a column of values.
* `Batch.failures`: How many evaluations have no value.
-/

namespace DeskCalc

namespace Batch

/-- The evaluations of a list of expressions. -/
def evaluate (ar : Arithmetic) (evaluator : Evaluator) (expressions : List String) :
    List Evaluation :=
  expressions.map fun text => evaluator.evaluate ar text none

/-- The value of an evaluation in a column of numbers, where NaN says that there is none. -/
def result (e : Evaluation) : Binary64 := e.value?.getD .nan

/-- How many evaluations have no value. -/
def failures (evaluations : List Evaluation) : Nat := evaluations.countP fun e => !e.isOk

/-- The exit code for a list of evaluations: whether one of them has no value. -/
def exitCode (evaluations : List Evaluation) : Nat := if failures evaluations = 0 then 0 else 1

/-- The names of the columns. -/
def columns : List String := ["expression", "result", "formatted", "error"]

/-- Whether a value is a number. -/
def isNumber : Payload → Bool
  | .int _ => true
  | .float _ => true
  | _ => false

/-- Whether a value is a fraction. -/
def isFraction : Payload → Bool
  | .float _ => true
  | _ => false

/-- A number as a fraction. -/
def toFraction : Payload → Payload
  | .int n => .float (.ofInt n)
  | p => p

/-- The texts of a column of values. -/
def columnTexts (items : List Payload) : List String :=
  if items.all isNumber && items.any isFraction then
    items.map fun p => (toFraction p).plainText
  else items.map Payload.plainText

end Batch

end DeskCalc
