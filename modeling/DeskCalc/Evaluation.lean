import DeskCalc.Display
import DeskCalc.Postfix.Conversion
import DeskCalc.Postfix.Machine
import DeskCalc.Settings
import DeskCalc.Token.Scan
import DeskCalc.Wording

/-!
# Evaluating an Expression

The whole way from a typed text to its value, and what there is to say about the outcome. The
arithmetic is a parameter here as it is for the machine, since nothing on the way looks into it.

An evaluator holds an angle mode, which a single evaluation may override. The evaluation keeps
the expression and the mode that was used, and its outcome is a finite number or what stopped
it, never both and never neither; the displayed text, the fault's key and the sentence for the
user are all read off that outcome.

## Main definitions

* `Expression.toPostfix`: The postfix order of a text's tokens.
* `Expression.value`: The value of a text.
* `Evaluation`: An expression that has been evaluated.
* `Evaluator`: An angle mode to evaluate in.
-/

namespace DeskCalc

namespace Expression

/-- The tokens of a text in postfix order. -/
def toPostfix (text : String) : Except Failure (List Token) := Postfix.ofTokens (Token.scan text)

/-- The value of a text. -/
def value (ar : Arithmetic) (mode : AngleMode) (text : String) : Except Failure Binary64 := do
  let ts ← toPostfix text
  (Postfix.evaluate ar mode ts).mapError .fault

end Expression

/-- An expression that has been evaluated. -/
structure Evaluation where
  /-- The text. -/
  expression : String
  /-- The angle mode that was used. -/
  mode : AngleMode
  /-- The value, or what stopped the evaluation. -/
  outcome : Except Failure Binary64

namespace Evaluation

/-- Whether there is a value. -/
def isOk (e : Evaluation) : Bool := e.outcome.isOk

/-- The value. -/
def value? (e : Evaluation) : Option Binary64 := e.outcome.toOption

/-- What stopped the evaluation. -/
def failure? (e : Evaluation) : Option Failure :=
  match e.outcome with
  | .ok _ => none
  | .error f => some f

/-- The kind of fault that was found. -/
def kind? (e : Evaluation) : Option FaultKind := e.failure?.bind Failure.kind?

/-- The text that the value is shown as. -/
def formatted? (e : Evaluation) : Option String := e.value?.map Display.text

/-- The key of what stopped the evaluation. -/
def key? (e : Evaluation) : Option String := e.failure?.map Failure.key

/-- The sentence for the user about what stopped the evaluation. -/
def wording? (language : Language) (e : Evaluation) : Option String :=
  e.failure?.map fun f => f.wording language

/-- The line that reports the outcome to the user. -/
def report (language : Language) (e : Evaluation) : String :=
  match e.outcome with
  | .ok x => Display.text x
  | .error f => "Error: " ++ f.wording language

end Evaluation

/-- An angle mode to evaluate in. -/
structure Evaluator where
  /-- The mode of evaluations that name none of their own. -/
  mode : AngleMode
  deriving DecidableEq, Repr

namespace Evaluator

/-- The mode of an evaluation that may name one of its own. -/
def modeFor (e : Evaluator) : Option Payload → Except UnknownMode AngleMode
  | none => .ok e.mode
  | some .null => .ok e.mode
  | some p => AngleMode.ofPayload p

/-- Evaluates a text, in the given mode if there is one. -/
def evaluate (ar : Arithmetic) (e : Evaluator) (text : String) (mode : Option AngleMode) :
    Evaluation :=
  let mode := mode.getD e.mode
  ⟨text, mode, Expression.value ar mode text⟩

end Evaluator

end DeskCalc
