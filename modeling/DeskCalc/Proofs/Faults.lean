import DeskCalc.Function
import DeskCalc.Numeral
import DeskCalc.Operator.Application
import DeskCalc.Proofs.Outcome

/-!
# What Each Operation Can Fail With

Reading a number, looking up a name, calling a function and taking a factorial each have a few
faults of their own. They are listed here once, as exactly as a caller may want to know them, and
what is said elsewhere about the faults of whole expressions is read off these lists.

## Theorems

* `Numeral.failsOnly_read`, `Constant.failsOnly_value`: The faults of operands.
* `Function.failsOnly_call`: The faults of calls.
* `Operator.failsOnly_factorialOf`: The faults of factorials.
-/

namespace DeskCalc

open Outcome

theorem Numeral.failsOnly_read (text : String) :
    FailsOnly (fun f => f = .unreadableNumber text) (Numeral.read text) := by
  rw [Numeral.read]
  split
  · exact .ok _
  · exact .error rfl

theorem Constant.failsOnly_value (name : String) :
    FailsOnly (fun f => f = .unknownIdentifier name) (Constant.value name) := by
  rw [Constant.value]
  split
  · exact .ok _
  · exact .error rfl

/-- A function blames the number of its arguments, and gives the right one. -/
theorem Meaning.failsOnly_apply (mode : AngleMode) (m : Meaning) (args : List Binary64) :
    FailsOnly (fun f => ∃ expected, f = .arityMismatch expected args.length)
      (m.apply mode args) := by
  rw [Meaning.apply.eq_def]
  split
  · exact .ok _
  · exact .error ⟨.one, rfl⟩
  · exact .ok _
  · exact .error ⟨.two, rfl⟩
  · exact .ok _
  · exact .error ⟨.atLeastOne, rfl⟩

/-- A call blames its name or the number of its arguments. -/
theorem Function.failsOnly_call (ar : Arithmetic) (mode : AngleMode) (name : String)
    (args : List Binary64) :
    FailsOnly (fun f => f = .unsupportedFunction name ∨
      ∃ expected, f = .arityMismatch expected args.length) (Function.call ar mode name args) := by
  rw [Function.call]
  split
  · exact (Meaning.failsOnly_apply mode _ args).mono fun _ => .inr
  · exact .error (.inl rfl)

/-- A factorial blames its operand. An infinity or NaN is refused in a way that no other operand
    is. -/
theorem Operator.failsOnly_factorialOf (ar : Arithmetic) (x : Binary64) :
    FailsOnly (fun f => (f = .invalidFactorial ∧ x.isFinite = false) ∨ f = .negativeFactorial ∨
      f = .nonIntegerFactorial ∨ ∃ n, f = .factorialOverflow n) (Operator.factorialOf ar x) := by
  rw [Operator.factorialOf]
  cases x with
  | nan => exact .error (.inl ⟨rfl, rfl⟩)
  | inf negative => exact .error (.inl ⟨rfl, rfl⟩)
  | finite negative m q canonical =>
      rw [Binary64.truncate?]
      dsimp only
      split
      · exact .error (.inr (.inl rfl))
      · split
        · exact .error (.inr (.inr (.inl rfl)))
        · split
          · exact .ok _
          · exact .error (.inr (.inr (.inr ⟨_, rfl⟩)))

end DeskCalc
