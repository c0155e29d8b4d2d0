import DeskCalc.AngleMode
import DeskCalc.Fault
import DeskCalc.Payload

/-!
# Settings from Outside

Angle modes and fault kinds that are named by a value from outside, and what is said when the
value names none.

Only a text can name an angle mode. Where a default exists, a value that does not count as
given stands for it, whatever its type.

## Main definitions

* `UnknownMode`: The refusal of a value that names no angle mode.
* `AngleMode.ofPayload`: The mode that a value names.
* `AngleMode.ofSetting`: The same, where a value that is not given means degrees.
* `FaultKind.ofPayload?`, `FaultKind.unknownKeyMessage`: The same for kinds of faults.
-/

namespace DeskCalc

/-- The refusal of a value that names no angle mode. -/
structure UnknownMode where
  /-- The value. -/
  value : Payload

/-- What is said about a value that names no angle mode. -/
def UnknownMode.message (u : UnknownMode) : String :=
  "Unknown angle mode: " ++ u.value.inspect

namespace AngleMode

/-- The mode that is used where none is given. -/
def standard : AngleMode := .degrees

/-- The mode that a value names. -/
def ofPayload (p : Payload) : Except UnknownMode AngleMode :=
  match p with
  | .text s =>
    match ofText? s with
    | some mode => .ok mode
    | none => .error ⟨p⟩
  | _ => .error ⟨p⟩

/-- The mode that a value names, or the standard one if it does not count as given. -/
def ofSetting (p : Payload) : Except UnknownMode AngleMode :=
  if p.isTruthy then ofPayload p else .ok standard

end AngleMode

namespace FaultKind

/-- The kind whose key a value is. -/
def ofPayload? : Payload → Option FaultKind
  | .text s => ofKey? s
  | _ => none

/-- What is said about a value that is no key. -/
def unknownKeyMessage (p : Payload) : String := p.inspect ++ " is not a valid ErrorKind"

end FaultKind

end DeskCalc
