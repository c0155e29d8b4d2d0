import DeskCalc.Display

/-!
# The Characters of a Displayed Number

A finite number is shown with digits, a point, signs and the `e` of a power of ten, and with
nothing else. An infinity and NaN are shown as words, whose letters are none of these, so no
finite number looks like one of them.

## Main definitions

* `Display.isNumeric`: The characters that finite numbers are shown with.
* `Display.Numeric`: That a row of characters has no others.

## Theorems

* `Display.numeric_text`: Finite numbers are shown with these characters.
* `Display.text_notMem_words`: A finite number does not look like an infinity or NaN.
-/

namespace DeskCalc

namespace Display

/-- The characters that finite numbers are shown with. -/
def isNumeric (c : Char) : Bool := c.isDigit || ['.', 'e', '+', '-'].contains c

/-- That all characters of a row are such. -/
def Numeric (cs : List Char) : Prop := ∀ c ∈ cs, isNumeric c = true

namespace Numeric

theorem nil : Numeric [] := fun _ hc => absurd hc List.not_mem_nil

theorem cons {c : Char} {cs : List Char} (hc : isNumeric c = true) (hcs : Numeric cs) :
    Numeric (c :: cs) :=
  List.forall_mem_cons.mpr ⟨hc, hcs⟩

theorem append {cs ds : List Char} (hcs : Numeric cs) (hds : Numeric ds) : Numeric (cs ++ ds) :=
  List.forall_mem_append.mpr ⟨hcs, hds⟩

/-- Taking characters away brings no others in. -/
theorem subset {cs ds : List Char} (hsub : cs ⊆ ds) (hds : Numeric ds) : Numeric cs :=
  fun c hc => hds c (hsub hc)

theorem replicate (n : Nat) {c : Char} (hc : isNumeric c = true) :
    Numeric (List.replicate n c) := by
  intro d hd
  rw [List.eq_of_mem_replicate hd]
  exact hc

/-- The digits of a natural number. -/
theorem toDigits (n : Nat) : Numeric (Nat.toDigits 10 n) := by
  intro c hc
  rw [isNumeric, Nat.isDigit_of_mem_toDigits (by decide) (Nat.le_refl 10) hc, Bool.true_or]

end Numeric

theorem numeric_positional (d : Decimal) : Numeric d.positional := by
  have hdigits : Numeric d.digitChars := .toDigits d.digits
  rw [Decimal.positional]
  split
  · -- A whole number.
    exact hdigits.append (.replicate _ rfl)
  · split
    · -- The point is among the digits.
      refine .append ?_ (.cons rfl ?_)
      · exact hdigits.subset (List.take_subset _ _)
      · exact hdigits.subset (List.drop_subset _ _)
    · -- The point is before them.
      exact .cons rfl (.cons rfl (.append (.replicate _ rfl) hdigits))

theorem numeric_exponentChars (width : Nat) (e : Int) :
    Numeric (Decimal.exponentChars width e) := by
  have hsign : isNumeric (if e < 0 then '-' else '+') = true := by
    split <;> rfl
  exact .cons rfl (.cons hsign (.append (.replicate _ rfl) (.toDigits _)))

theorem numeric_scientific (width : Nat) (d : Decimal) : Numeric (d.scientific width) := by
  have hdigits : Numeric d.digitChars := .toDigits d.digits
  rw [Decimal.scientific]
  refine .append ?_ (numeric_exponentChars width _)
  match hchars : d.digitChars, hdigits with
  | [], _ => exact .nil
  | [first], hdigits => exact hdigits
  | first :: second :: rest, hdigits =>
      rcases List.forall_mem_cons.mp hdigits with ⟨hfirst, hrest⟩
      exact .cons hfirst (.cons rfl hrest)

theorem numeric_magnitude (x : Binary64) : Numeric (magnitude x) := by
  rw [magnitude]
  split
  · exact numeric_scientific 1 _
  · exact numeric_positional _

/-- A finite number is shown with digits, a point, signs and the `e` of a power of ten. -/
theorem numeric_text {x : Binary64} (hx : x.isFinite = true) : Numeric (text x).toList := by
  match x with
  | .finite negative m q _ =>
      rw [text]
      split
      · exact .cons rfl .nil
      · rw [String.toList_ofList]
        refine .append ?_ (numeric_magnitude _)
        split
        · exact .cons rfl .nil
        · exact .nil

/-- A finite number does not look like an infinity or NaN. -/
theorem text_notMem_words {x : Binary64} (hx : x.isFinite = true) :
    text x ∉ ["NaN", "Infinity", "-Infinity"] := by
  intro hword
  have hnumeric := numeric_text hx
  rw [List.mem_cons, List.mem_cons, List.mem_singleton] at hword
  -- Each of the words has a letter that is not numeric.
  rcases hword with hword | hword | hword
  · rw [hword] at hnumeric
    exact absurd (hnumeric 'N' (by decide)) (by decide)
  · rw [hword] at hnumeric
    exact absurd (hnumeric 'I' (by decide)) (by decide)
  · rw [hword] at hnumeric
    exact absurd (hnumeric 'I' (by decide)) (by decide)

end Display

end DeskCalc
