import DeskCalc.Decimal.Layout
import DeskCalc.Decimal.Shortest
import DeskCalc.Text.Quoted

/-!
# Payloads

Values that come from outside the calculator: a stored history that is read back, a setting
that someone has made. They have the shape of JSON documents, with whole numbers kept apart
from fractions, and nothing about them can be taken for granted.

A payload that is refused is shown in the message, so every payload has a text.

## Main definitions

* `Payload`: A value from outside.
* `Payload.isTruthy`: Whether a value counts as given.
* `Payload.field?`: A field of an object.
* `Payload.inspect`: How a message shows a value.
* `Payload.plainText`: The same, but a text as it is.
-/

namespace DeskCalc

/-- A value from outside. -/
inductive Payload where
  /-- Nothing. -/
  | null
  /-- A truth value. -/
  | bool (b : Bool)
  /-- A whole number, of any size. -/
  | int (n : Int)
  /-- A number that was written with a point or an exponent. -/
  | float (x : Binary64)
  /-- A text. -/
  | text (s : String)
  /-- Several values in a row. -/
  | list (items : List Payload)
  /-- Named values, in the order in which they were written, each name once. -/
  | object (fields : List (String × Payload))

instance : Inhabited Payload := ⟨.null⟩

namespace Payload

/-- Whether a value counts as given: nothing, zeros and whatever is empty do not. -/
def isTruthy : Payload → Bool
  | .null => false
  | .bool b => b
  | .int n => n != 0
  | .float x => !x.isZero
  | .text s => s != ""
  | .list items => !items.isEmpty
  | .object fields => !fields.isEmpty

/-- A field of an object, if the value is an object and has it. -/
def field? (name : String) : Payload → Option Payload
  | .object fields => fields.lookup name
  | _ => none

/-- A decimal with a point in it, written positionally from ten thousandths up to sixteen
    digits before the point. -/
def decimalText (d : Decimal) : List Char :=
  if -4 ≤ d.leading ∧ d.leading < 16 then
    if 0 ≤ d.exponent then d.positional ++ ['.', '0'] else d.positional
  else d.scientific 2

/-- How a message shows a number with a fraction. -/
def floatText : Binary64 → String
  | .nan => "nan"
  | .inf negative => if negative then "-inf" else "inf"
  | x@(.finite negative m ..) =>
    String.ofList ((if negative then ['-'] else []) ++
      if m = 0 then ['0', '.', '0'] else decimalText (.shortest x.abs))

mutual

/-- How a message shows a value. -/
def inspect : Payload → String
  | .null => "None"
  | .bool true => "True"
  | .bool false => "False"
  | .int n => toString n
  | .float x => floatText x
  | .text s => Text.quoted s
  | .list items => "[" ++ ", ".intercalate (inspectItems items) ++ "]"
  | .object fields => "\x7b" ++ ", ".intercalate (inspectFields fields) ++ "\x7d"

/-- How a message shows the values in a row. -/
def inspectItems : List Payload → List String
  | [] => []
  | p :: rest => inspect p :: inspectItems rest

/-- How a message shows named values. -/
def inspectFields : List (String × Payload) → List String
  | [] => []
  | (name, p) :: rest => (Text.quoted name ++ ": " ++ inspect p) :: inspectFields rest

end

/-- A value as text: a text as it is, and anything else as a message shows it. -/
def plainText : Payload → String
  | .text s => s
  | p => p.inspect

end Payload

end DeskCalc
