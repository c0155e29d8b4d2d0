import DeskCalc.Binary64.Basic

/-!
# Faults of an Expression

Everything that can be wrong with an expression. A fault says what was found; its kind, of
which there is a fixed list, is what a caller distinguishes and what the user is told in words.

Two kinds have two causes each. A number is invalid when its text cannot be read and when a
value that is not finite would be computed with; the stack runs short for an operator and for
a call, and only the call is named.

## Main definitions

* `FaultCategory`, `FaultKind`: The kinds of faults, in the order in which they are listed.
* `FaultKind.key`, `FaultKind.ofKey?`: The key under which a kind is worded.
* `FaultKind.category`: The stage of the work that a kind belongs to.
* `Fault`: What went wrong.
* `Fault.kind`, `Fault.message`: Its kind, and the kind's key with the details.
* `Failure`: A fault, or a symbol that is not known at all.
-/

namespace DeskCalc

/-- What part of an expression's structure a fault concerns. -/
inductive FaultCategory where
  /-- Its characters. -/
  | lexical
  /-- The order of its tokens. -/
  | syntactic
  /-- Its names and argument counts. -/
  | semantic
  /-- Its numbers. -/
  | arithmetic
  /-- The balance of operands and operators. -/
  | structural
  deriving DecidableEq, Repr

/-- The name of a category. -/
def FaultCategory.name : FaultCategory → String
  | .lexical => "lexical"
  | .syntactic => "syntax"
  | .semantic => "semantic"
  | .arithmetic => "arithmetic"
  | .structural => "structural"

/-- The kinds of faults. -/
inductive FaultKind where
  /-- A character that means nothing. -/
  | unknownToken
  /-- A comma outside brackets. -/
  | misplacedComma
  /-- A bracket without its partner. -/
  | mismatchedParentheses
  /-- A call without arguments. -/
  | zeroArgumentFunctionCall
  /-- A call whose brackets never came. -/
  | unclosedFunctionCall
  /-- A token of a kind that has no place here. -/
  | unexpectedToken
  /-- A name that is no constant. -/
  | unknownIdentifier
  /-- A call with the wrong number of arguments. -/
  | arityMismatch
  /-- A call of a function that does not exist. -/
  | unsupportedFunction
  /-- An operator that cannot be applied. -/
  | unsupportedOperator
  /-- A factorial of an infinity or of NaN. -/
  | invalidFactorial
  /-- A factorial of a negative number. -/
  | negativeFactorial
  /-- A factorial of a fraction. -/
  | nonIntegerFactorial
  /-- A factorial beyond the largest number. -/
  | factorialOverflow
  /-- A text that is no number, or a value that is not finite. -/
  | invalidNumber
  /-- A result that is not finite. -/
  | nonFiniteResult
  /-- Too few operands. -/
  | stackUnderflow
  /-- Too many operands. -/
  | invalidExpression
  deriving DecidableEq, Repr

namespace FaultKind

/-- All kinds of faults. -/
def all : List FaultKind :=
  [.unknownToken, .misplacedComma, .mismatchedParentheses, .zeroArgumentFunctionCall,
    .unclosedFunctionCall, .unexpectedToken, .unknownIdentifier, .arityMismatch,
    .unsupportedFunction, .unsupportedOperator, .invalidFactorial, .negativeFactorial,
    .nonIntegerFactorial, .factorialOverflow, .invalidNumber, .nonFiniteResult, .stackUnderflow,
    .invalidExpression]

/-- The key under which a kind is worded. -/
def key : FaultKind → String
  | .unknownToken => "error_unknown_token"
  | .misplacedComma => "error_misplaced_comma"
  | .mismatchedParentheses => "error_mismatched_parentheses"
  | .zeroArgumentFunctionCall => "error_zero_argument_function_call"
  | .unclosedFunctionCall => "error_unclosed_function_call"
  | .unexpectedToken => "error_unexpected_token"
  | .unknownIdentifier => "error_unknown_identifier"
  | .arityMismatch => "error_arity_mismatch"
  | .unsupportedFunction => "error_unsupported_function"
  | .unsupportedOperator => "error_unsupported_operator"
  | .invalidFactorial => "error_invalid_factorial"
  | .negativeFactorial => "error_negative_factorial"
  | .nonIntegerFactorial => "error_non_integer_factorial"
  | .factorialOverflow => "error_factorial_overflow"
  | .invalidNumber => "error_invalid_number"
  | .nonFiniteResult => "error_non_finite_result"
  | .stackUnderflow => "error_stack_underflow"
  | .invalidExpression => "error_invalid_expression"

/-- The kind with the given key. -/
def ofKey? (s : String) : Option FaultKind := all.find? fun k => k.key == s

/-- Every kind is found under its key. -/
theorem ofKey?_key (k : FaultKind) : ofKey? k.key = some k := by
  cases k <;> decide

/-- The category of a kind. -/
def category : FaultKind → FaultCategory
  | .unknownToken => .lexical
  | .misplacedComma | .mismatchedParentheses | .zeroArgumentFunctionCall | .unclosedFunctionCall
  | .unexpectedToken => .syntactic
  | .unknownIdentifier | .arityMismatch | .unsupportedFunction | .unsupportedOperator => .semantic
  | .invalidFactorial | .negativeFactorial | .nonIntegerFactorial | .factorialOverflow
  | .invalidNumber | .nonFiniteResult => .arithmetic
  | .stackUnderflow | .invalidExpression => .structural

end FaultKind

/-- How many arguments a function takes. -/
inductive Arity where
  /-- Exactly one. -/
  | one
  /-- Exactly two. -/
  | two
  /-- One or more. -/
  | atLeastOne
  deriving DecidableEq, Repr

/-- What is wrong with an expression. -/
inductive Fault where
  /-- A token of unknown kind, with its text. -/
  | unknownToken (text : String)
  /-- A comma outside all brackets. -/
  | misplacedComma
  /-- A bracket without its partner. -/
  | mismatchedParentheses
  /-- A call of the named function without arguments. -/
  | zeroArgumentCall (name : String)
  /-- The named function without its brackets. -/
  | unclosedCall (name : String)
  /-- A token, as it is spelled, that does not belong here. -/
  | unexpectedToken (spelling : String)
  /-- A name that is no constant. -/
  | unknownIdentifier (name : String)
  /-- A call with so many arguments where others are expected. -/
  | arityMismatch (expected : Arity) (got : Nat)
  /-- A call of a function that does not exist. -/
  | unsupportedFunction (name : String)
  /-- A symbol that is no operator, or not one of so many operands. -/
  | unsupportedOperator (symbol : String)
  /-- A factorial of an infinity or of NaN. -/
  | invalidFactorial
  /-- A factorial of a negative number. -/
  | negativeFactorial
  /-- A factorial of a number that is not whole. -/
  | nonIntegerFactorial
  /-- A factorial of the given number, which is too large. -/
  | factorialOverflow (n : Int)
  /-- A text that does not start with a number. -/
  | unreadableNumber (text : String)
  /-- An operand that is not finite. -/
  | nonFiniteOperand (x : Binary64)
  /-- A result that is not finite. -/
  | nonFiniteResult (x : Binary64)
  /-- An operator without its operands. -/
  | missingOperand
  /-- A call of the named function with fewer values left than it takes. -/
  | missingArguments (name : String) (argc : Int)
  /-- So many values are left where one should be. -/
  | leftoverValues (count : Nat)
  deriving DecidableEq

namespace Fault

/-- The kind of a fault. -/
def kind : Fault → FaultKind
  | .unknownToken _ => .unknownToken
  | .misplacedComma => .misplacedComma
  | .mismatchedParentheses => .mismatchedParentheses
  | .zeroArgumentCall _ => .zeroArgumentFunctionCall
  | .unclosedCall _ => .unclosedFunctionCall
  | .unexpectedToken _ => .unexpectedToken
  | .unknownIdentifier _ => .unknownIdentifier
  | .arityMismatch .. => .arityMismatch
  | .unsupportedFunction _ => .unsupportedFunction
  | .unsupportedOperator _ => .unsupportedOperator
  | .invalidFactorial => .invalidFactorial
  | .negativeFactorial => .negativeFactorial
  | .nonIntegerFactorial => .nonIntegerFactorial
  | .factorialOverflow _ => .factorialOverflow
  | .unreadableNumber _ => .invalidNumber
  | .nonFiniteOperand _ => .invalidNumber
  | .nonFiniteResult _ => .nonFiniteResult
  | .missingOperand => .stackUnderflow
  | .missingArguments .. => .stackUnderflow
  | .leftoverValues _ => .invalidExpression

/-- How a message names a value that is not finite. -/
def nonFiniteName : Binary64 → String
  | .inf negative => if negative then "-inf" else "inf"
  | _ => "nan"

/-- What a message says about the number of arguments. -/
def arityDetail (got : Nat) : Arity → String
  | .one => "expected 1 argument, got " ++ toString got
  | .two => "expected 2 arguments, got " ++ toString got
  | .atLeastOne => "expected at least 1 argument"

/-- What a message adds to the kind of a fault. -/
def detail? : Fault → Option String
  | .unknownToken text => some text
  | .zeroArgumentCall name => some name
  | .unclosedCall name => some name
  | .unexpectedToken spelling => some spelling
  | .unknownIdentifier name => some name
  | .arityMismatch expected got => some (arityDetail got expected)
  | .unsupportedFunction name => some name
  | .unsupportedOperator symbol => some symbol
  | .factorialOverflow n => some (toString n ++ "!")
  | .unreadableNumber text => some text
  | .nonFiniteOperand x => some (nonFiniteName x)
  | .nonFiniteResult x => some (nonFiniteName x)
  | .missingArguments name argc => some (name ++ " needs " ++ toString argc ++ " arguments")
  | .leftoverValues count => some (toString count ++ " values left on stack")
  | .misplacedComma | .mismatchedParentheses | .invalidFactorial | .negativeFactorial
  | .nonIntegerFactorial | .missingOperand => none

/-- The key of a fault's kind, with the details if there are any. -/
def message (f : Fault) : String :=
  match f.detail? with
  | some detail => f.kind.key ++ ": " ++ detail
  | none => f.kind.key

end Fault

/-- What stops an expression from being evaluated. -/
inductive Failure where
  /-- Something is wrong with the expression. -/
  | fault (f : Fault)
  /-- An operator token holds a symbol that has no precedence. No typed text leads to it. -/
  | unranked (symbol : String)
  deriving DecidableEq

namespace Failure

/-- The kind of fault, where there is one. -/
def kind? : Failure → Option FaultKind
  | .fault f => some f.kind
  | .unranked _ => none

/-- The key under which what is no kind of fault is worded. -/
def genericKey : String := "error_generic"

/-- The key under which a failure is worded. -/
def key (f : Failure) : String :=
  match f.kind? with
  | some k => k.key
  | none => genericKey

end Failure

end DeskCalc
