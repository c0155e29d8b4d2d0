import DeskCalc.AngleMode
import DeskCalc.Arithmetic
import DeskCalc.Fault

/-!
# Functions and Constants

What the names in an expression mean. Names are looked up without regard to case.

Only the six trigonometric functions look at the angle mode: three convert their argument from
degrees, three convert their result to degrees.

## Main definitions

* `Constant`, `Constant.value`: The named numbers.
* `Function`: The named functions, in the order in which they are listed.
* `Function.meaning`: What a function does, together with how many arguments it takes.
* `Function.call`: A call by name.
-/

namespace DeskCalc

/-- A name in lower case. -/
def lowercase (name : String) : String := String.ofList (name.toList.map Char.toLower)

/-! ### Constants -/

/-- The named numbers. -/
inductive Constant where
  /-- The ratio of a circle to its diameter. -/
  | pi
  /-- The base of the natural logarithm. -/
  | e
  deriving DecidableEq, Repr

namespace Constant

/-- All constants. -/
def all : List Constant := [.pi, .e]

/-- The name of a constant. -/
def name : Constant → String
  | .pi => "pi"
  | .e => "e"

/-- The number that a constant stands for. -/
def toBinary64 : Constant → Binary64
  | .pi => .pi
  | .e => .e

/-- The constant with the given name. -/
def ofName? (s : String) : Option Constant := all.find? fun c => c.name == lowercase s

/-- Every constant is found under its name. -/
theorem ofName?_name (c : Constant) : ofName? c.name = some c := by
  cases c <;> decide

/-- The value of the constant with the given name. -/
def value (name : String) : Except Fault Binary64 :=
  match ofName? name with
  | some c => .ok c.toBinary64
  | none => .error (.unknownIdentifier name)

end Constant

/-! ### Functions -/

/-- The named functions. -/
inductive Function where
  /-- The sine of an angle. -/
  | sin
  /-- The cosine of an angle. -/
  | cos
  /-- The tangent of an angle. -/
  | tan
  /-- The angle with the given sine. -/
  | asin
  /-- The angle with the given cosine. -/
  | acos
  /-- The angle with the given tangent. -/
  | atan
  /-- The square root. -/
  | sqrt
  /-- The magnitude. -/
  | abs
  /-- The exponential. -/
  | exp
  /-- The natural logarithm. -/
  | ln
  /-- The logarithm to base ten. -/
  | log
  /-- The largest integer not above. -/
  | floor
  /-- The smallest integer not below. -/
  | ceil
  /-- The nearest integer. -/
  | round
  /-- The power. -/
  | pow
  /-- The smallest argument. -/
  | min
  /-- The largest argument. -/
  | max
  deriving DecidableEq, Repr

/-- What a function does, by the number of arguments it takes. -/
inductive Meaning where
  /-- To one argument. -/
  | one (f : AngleMode → Binary64 → Binary64)
  /-- To two arguments. -/
  | two (f : Binary64 → Binary64 → Binary64)
  /-- To the first of its arguments and the rest of them. -/
  | atLeastOne (f : Binary64 → List Binary64 → Binary64)

/-- The result of a function on its arguments, if it takes that many. -/
def Meaning.apply (mode : AngleMode) : Meaning → List Binary64 → Except Fault Binary64
  | .one f, [x] => .ok (f mode x)
  | .one _, args => .error (.arityMismatch .one args.length)
  | .two f, [x, y] => .ok (f x y)
  | .two _, args => .error (.arityMismatch .two args.length)
  | .atLeastOne f, x :: rest => .ok (f x rest)
  | .atLeastOne _, [] => .error (.arityMismatch .atLeastOne 0)

namespace Arithmetic

/-- The number 180. -/
def halfTurn : Binary64 := .ofInt 180

/-- An angle in radians, given in the mode's unit. The factor is rounded before it is used. -/
def toRadians (ar : Arithmetic) (mode : AngleMode) (x : Binary64) : Binary64 :=
  match mode with
  | .degrees => ar.mul x (ar.div .pi halfTurn)
  | .radians => x

/-- An angle in the mode's unit, given in radians. The factor is rounded before it is used. -/
def ofRadians (ar : Arithmetic) (mode : AngleMode) (x : Binary64) : Binary64 :=
  match mode with
  | .degrees => ar.mul x (ar.div halfTurn .pi)
  | .radians => x

/-- The nearest integer, from the middle between two the larger one. -/
def round (ar : Arithmetic) (x : Binary64) : Binary64 :=
  let below := ar.floor x
  if Binary64.half.le (ar.sub x below) then ar.add below .one else below

end Arithmetic

/-- The argument that the comparison prefers to all others, where the first of equal ones
    stays. Not a number if one of them is not. -/
def extremum (better : Binary64 → Binary64 → Bool) (first : Binary64) (rest : List Binary64) :
    Binary64 :=
  if (first :: rest).any Binary64.isNaN then .nan
  else rest.foldl (fun best x => if better x best then x else best) first

namespace Function

/-- All functions. -/
def all : List Function :=
  [.sin, .cos, .tan, .asin, .acos, .atan, .sqrt, .abs, .exp, .ln, .log, .floor, .ceil, .round,
    .pow, .min, .max]

/-- The name of a function. -/
def name : Function → String
  | .sin => "sin"
  | .cos => "cos"
  | .tan => "tan"
  | .asin => "asin"
  | .acos => "acos"
  | .atan => "atan"
  | .sqrt => "sqrt"
  | .abs => "abs"
  | .exp => "exp"
  | .ln => "ln"
  | .log => "log"
  | .floor => "floor"
  | .ceil => "ceil"
  | .round => "round"
  | .pow => "pow"
  | .min => "min"
  | .max => "max"

/-- The function with the given name. -/
def ofName? (s : String) : Option Function := all.find? fun f => f.name == lowercase s

/-- Every function is found under its name. -/
theorem ofName?_name (f : Function) : ofName? f.name = some f := by
  cases f <;> decide

/-- What a function does. -/
def meaning (ar : Arithmetic) : Function → Meaning
  | .sin => .one fun mode x => ar.sin (ar.toRadians mode x)
  | .cos => .one fun mode x => ar.cos (ar.toRadians mode x)
  | .tan => .one fun mode x => ar.tan (ar.toRadians mode x)
  | .asin => .one fun mode x => ar.ofRadians mode (ar.asin x)
  | .acos => .one fun mode x => ar.ofRadians mode (ar.acos x)
  | .atan => .one fun mode x => ar.ofRadians mode (ar.atan x)
  | .sqrt => .one fun _ x => ar.sqrt x
  | .abs => .one fun _ x => ar.abs x
  | .exp => .one fun _ x => ar.exp x
  | .ln => .one fun _ x => ar.ln x
  | .log => .one fun _ x => ar.log10 x
  | .floor => .one fun _ x => ar.floor x
  | .ceil => .one fun _ x => ar.ceil x
  | .round => .one fun _ x => ar.round x
  | .pow => .two ar.pow
  | .min => .atLeastOne (extremum fun x best => x.lt best)
  | .max => .atLeastOne (extremum fun x best => best.lt x)

/-- The call of the function with the given name. -/
def call (ar : Arithmetic) (mode : AngleMode) (name : String) (args : List Binary64) :
    Except Fault Binary64 :=
  match ofName? name with
  | some f => (f.meaning ar).apply mode args
  | none => .error (.unsupportedFunction name)

end Function

end DeskCalc
