/-!
# Blank Characters

What counts as blank around a line of text: the characters with the White_Space property, and
the four information separators just below the space.

Stripping takes blanks off both ends. It is written on lists of characters, where "off the
end" is "off the front of the reverse".

## Main definitions

* `Text.isBlank`: The blank characters.
* `Text.strip`: A text without the blanks at its ends.
-/

namespace DeskCalc

namespace Text

/-- Whether a character is blank. -/
def isBlank (c : Char) : Bool :=
  let n := c.toNat
  (9 ≤ n && n ≤ 13) || (28 ≤ n && n ≤ 32) || n == 0x85 || n == 0xA0 || n == 0x1680 ||
    (0x2000 ≤ n && n ≤ 0x200A) || n == 0x2028 || n == 0x2029 || n == 0x202F || n == 0x205F ||
    n == 0x3000

/-- A list of characters without those at its end that satisfy the predicate. -/
def dropEndWhile (p : Char → Bool) (cs : List Char) : List Char :=
  (cs.reverse.dropWhile p).reverse

/-- A list of characters without the blanks at its ends. -/
def stripChars (cs : List Char) : List Char := dropEndWhile isBlank (cs.dropWhile isBlank)

/-- A text without the blanks at its ends. -/
def strip (s : String) : String := String.ofList (stripChars s.toList)

end Text

end DeskCalc
