import DeskCalc.Binary64.Arithmetic
import DeskCalc.Payload
import DeskCalc.Text.Integer

/-!
# Timestamps

When something was calculated, in milliseconds since the start of 1970. A timestamp that comes
from outside may be any value; what can be taken as a whole number is, with fractions cut off.

## Main definitions

* `TimestampFault`: Why a value is no timestamp.
* `Timestamp.ofPayload`: The timestamp that a value stands for.
-/

namespace DeskCalc

/-- Why a value is no timestamp. -/
inductive TimestampFault where
  /-- It is NaN. -/
  | notANumber
  /-- It is infinite. -/
  | infinite
  /-- It is a text that is not written as an integer. -/
  | malformed (text : String)
  /-- It is a text with too many digits. -/
  | tooLong (digits : Nat)
  /-- It is neither a number nor a text. -/
  | wrongType
  deriving DecidableEq, Repr

/-- What is said about a value that is no timestamp. The quoted text is cut off after two
    hundred characters. -/
def TimestampFault.message : TimestampFault → String
  | .notANumber => "cannot convert float NaN to integer"
  | .infinite => "cannot convert float infinity to integer"
  | .malformed text =>
    "invalid literal for int() with base 10: " ++
      String.ofList ((Text.quoted text).toList.take 200)
  | .tooLong digits =>
    "Exceeds the limit (" ++ toString Text.maxIntegerDigits ++
      " digits) for integer string conversion: value has " ++ toString digits ++
      " digits; use sys.set_int_max_str_digits() to increase the limit"
  | .wrongType => "neither a number nor a text"

/-- The timestamp that a value stands for. -/
def Timestamp.ofPayload : Payload → Except TimestampFault Int
  | .bool b => .ok (if b then 1 else 0)
  | .int n => .ok n
  | .float x =>
    match x.truncate? with
    | some n => .ok n
    | none => .error (if x.isNaN then .notANumber else .infinite)
  | .text s =>
    match Text.readInteger s with
    | .ok n => .ok n
    | .error .malformed => .error (.malformed s)
    | .error (.tooLong digits) => .error (.tooLong digits)
  | .null | .list _ | .object _ => .error .wrongType

end DeskCalc
