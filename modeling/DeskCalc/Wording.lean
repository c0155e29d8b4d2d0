import DeskCalc.Fault

/-!
# Wording of Faults

What the user is told about a fault, in each of the languages that the calculator speaks. The
kind alone decides the sentence; the details of a fault are not in it.

## Main definitions

* `Language`: The languages.
* `Language.ofTag`: The language with a given tag, English for tags that are not known.
* `FaultKind.wording`: The sentence for a kind of fault.
* `Language.genericWording`: The sentence for anything else.
* `Failure.wording`: The sentence for what stopped an evaluation.
-/

namespace DeskCalc

/-- The languages that faults are worded in. -/
inductive Language where
  /-- English. -/
  | english
  /-- Portuguese, as in Brazil. -/
  | portuguese
  deriving DecidableEq, Repr

namespace Language

/-- All languages. -/
def all : List Language := [.english, .portuguese]

/-- The tag of a language. -/
def tag : Language → String
  | .english => "en"
  | .portuguese => "pt_br"

/-- The language with the given tag. -/
def ofTag? (s : String) : Option Language := all.find? fun l => l.tag == s

/-- Every language is found under its tag. -/
theorem ofTag?_tag (l : Language) : ofTag? l.tag = some l := by
  cases l <;> decide

/-- The language with the given tag, English if there is none. -/
def ofTag (s : String) : Language := (ofTag? s).getD .english

/-- The sentence for what is no kind of fault. -/
def genericWording : Language → String
  | .english => "Error evaluating the expression."
  | .portuguese => "Erro ao avaliar a expressão."

end Language

namespace FaultKind

/-- The sentences in English. -/
def english : FaultKind → String
  | .unknownToken => "Unknown token."
  | .misplacedComma => "Comma in an invalid position."
  | .mismatchedParentheses => "Mismatched parentheses."
  | .zeroArgumentFunctionCall => "Function call with no arguments."
  | .unclosedFunctionCall => "Unclosed function call."
  | .unexpectedToken => "Unexpected token."
  | .unknownIdentifier => "Unknown identifier."
  | .arityMismatch => "Invalid number of arguments."
  | .unsupportedFunction => "Unsupported function."
  | .unsupportedOperator => "Unsupported operator."
  | .invalidFactorial => "Invalid factorial."
  | .negativeFactorial => "Can't compute the factorial of a negative number."
  | .nonIntegerFactorial => "Factorial is only defined for integers."
  | .factorialOverflow => "Factorial exceeded the numeric limit."
  | .invalidNumber => "Invalid number."
  | .nonFiniteResult =>
    "The result of this calculation was infinite or not a number (NaN). Check that you are " ++
    "not dividing by zero or using something like the square root of a negative number."
  | .stackUnderflow =>
    "A number or argument is missing. E.g.: +2, 2*, 2 + ( ), 2 +, sin() with no value, " ++
    "pow(2) missing the 2nd argument."
  | .invalidExpression =>
    "I couldn't calculate it because the expression is written in a format the calculator " ++
    "doesn't recognize (check parentheses, signs, and names like sin/sqrt)."

/-- The sentences in Portuguese. -/
def portuguese : FaultKind → String
  | .unknownToken => "Token desconhecido."
  | .misplacedComma => "Vírgula em posição inválida."
  | .mismatchedParentheses => "Parênteses não correspondentes."
  | .zeroArgumentFunctionCall => "Chamada de função sem argumentos."
  | .unclosedFunctionCall => "Chamada de função não finalizada."
  | .unexpectedToken => "Token inesperado."
  | .unknownIdentifier => "Identificador desconhecido."
  | .arityMismatch => "Quantidade de argumentos inválida."
  | .unsupportedFunction => "Função não suportada."
  | .unsupportedOperator => "Operador não suportado."
  | .invalidFactorial => "Fatorial inválido."
  | .negativeFactorial => "Não é possível calcular fatorial de número negativo."
  | .nonIntegerFactorial => "O fatorial só é definido para inteiros."
  | .factorialOverflow => "Fatorial excedeu o limite numérico."
  | .invalidNumber => "Número inválido."
  | .nonFiniteResult =>
    "O resultado dessa conta deu infinito ou não é um número (NaN). Verifique se você não " ++
    "está dividindo por zero ou usando algo como raiz de número negativo."
  | .stackUnderflow =>
    "Faltou um número ou um argumento. Ex: +2, 2*, 2 + ( ), 2 +, sin() sem valor, pow(2) sem " ++
    "o argumento 2."
  | .invalidExpression =>
    "Não consegui calcular porque a conta está escrita em um formato que a calculadora não " ++
    "reconhece (verifique parênteses, sinais e nomes como sin/sqrt)."

/-- The sentence for a kind of fault. -/
def wording : Language → FaultKind → String
  | .english => english
  | .portuguese => portuguese

end FaultKind

/-- The sentence for what stopped an evaluation. -/
def Failure.wording (language : Language) (f : Failure) : String :=
  match f.kind? with
  | some k => k.wording language
  | none => language.genericWording

end DeskCalc
