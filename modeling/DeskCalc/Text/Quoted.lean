import DeskCalc.Text.Printable

/-!
# Quoted Text

How a message shows a piece of text that it complains about: between quotes, with everything
escaped that would not be visible.

Single quotes are preferred. A text that holds one, and no double quote, is put between double
quotes instead, so that nothing needs escaping.

## Main definitions

* `Text.hexDigits`: A number in hexadecimal, with leading zeros.
* `Text.quoted`: A text between quotes.
-/

namespace DeskCalc

namespace Text

/-- The number in hexadecimal, with at least the given number of digits. -/
def hexDigits (width n : Nat) : String :=
  let ds := Nat.toDigits 16 n
  String.ofList (List.replicate (width - ds.length) '0' ++ ds)

/-- The escape of a character by its code point, in the shortest of the three forms. -/
def escapedCode (n : Nat) : String :=
  if n < 0x100 then "\\x" ++ hexDigits 2 n
  else if n < 0x10000 then "\\u" ++ hexDigits 4 n
  else "\\U" ++ hexDigits 8 n

/-- A character as it is written between the given quotes. -/
def quotedChar (quote c : Char) : String :=
  if c = quote ∨ c = '\\' then String.ofList ['\\', c]
  else if c = '\n' then "\\n"
  else if c = '\r' then "\\r"
  else if c = '\t' then "\\t"
  else if isPrintable c then String.singleton c
  else escapedCode c.toNat

/-- A text between quotes. -/
def quoted (s : String) : String :=
  let cs := s.toList
  let quote := if cs.contains '\'' && !cs.contains '"' then '"' else '\''
  String.singleton quote ++ String.join (cs.map (quotedChar quote)) ++ String.singleton quote

end Text

end DeskCalc
