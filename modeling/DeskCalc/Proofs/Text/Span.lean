import DeskCalc.Text.Blank

/-!
# Runs of Characters

Where the longest run of characters of a class ends. The scanner and the reader of numbers both
take such runs off the front of a text, and both have to know that nothing of the class is left
directly behind the run, and that a run which is followed by something else is taken whole.

Runs are also taken off both ends, blanks of a line and zeros of a row of digits. Of a row that
does not start or end with a character of the class, all is left, whatever of the class was put
around it.

## Theorems

* `Text.span_append`: A run is taken up to where its class ends.
* `Text.head?_dropWhile`: What is left does not start with a character of the class.
* `Text.dropEndWhile_padded`: What is left of a row with runs around it.
* `Text.exists_padding`: Only runs are taken off.
-/

namespace DeskCalc

namespace Text

/-- A text is taken up to where its character class ends, and no further. -/
theorem span_append {p : Char → Bool} {cs rest : List Char} (hcs : ∀ c ∈ cs, p c = true)
    (hrest : ∀ c ∈ rest.head?, p c = false) :
    (cs ++ rest).takeWhile p = cs ∧ (cs ++ rest).dropWhile p = rest := by
  rw [List.takeWhile_append_of_pos hcs, List.dropWhile_append_of_pos hcs]
  match rest with
  | [] => exact ⟨List.append_nil cs, rfl⟩
  | c :: _ =>
      have hc : ¬ p c = true := by
        rw [hrest c rfl]
        decide
      rw [List.takeWhile_cons_of_neg hc, List.dropWhile_cons_of_neg hc]
      exact ⟨List.append_nil cs, rfl⟩

theorem dropWhile_eq_self {p : Char → Bool} {cs : List Char} (hcs : ∀ c ∈ cs.head?, p c = false) :
    cs.dropWhile p = cs := by
  have hempty : ∀ c ∈ ([] : List Char), p c = true := fun c hc => nomatch hc
  exact (span_append hempty hcs).2

/-- What is left behind a run does not start with a character of its class. -/
theorem head?_dropWhile {p : Char → Bool} {cs : List Char} :
    ∀ c ∈ (cs.dropWhile p).head?, p c = false := by
  intro c hc
  have hhead := List.head?_dropWhile_not p cs
  rw [Option.mem_def] at hc
  rwa [hc] at hhead

/-- What is left of a row when the runs around it are taken off. -/
theorem dropEndWhile_padded {p : Char → Bool} {before cs after : List Char}
    (hbefore : ∀ c ∈ before, p c = true) (hafter : ∀ c ∈ after, p c = true)
    (hfront : cs.dropWhile p = cs) (hback : cs.reverse.dropWhile p = cs.reverse) :
    dropEndWhile p ((before ++ (cs ++ after)).dropWhile p) = cs := by
  rw [List.dropWhile_append_of_pos hbefore, List.dropWhile_append, hfront]
  -- If nothing is in between, the run behind is taken off from the front.
  by_cases hempty : cs = []
  · subst hempty
    have hnone : (after ++ []).dropWhile p = [] := List.dropWhile_append_of_pos hafter
    rw [List.append_nil] at hnone
    rw [List.isEmpty_nil, if_pos rfl, hnone]
    rfl
  · rw [List.isEmpty_eq_false_iff.mpr hempty, if_neg Bool.false_ne_true, dropEndWhile,
      List.reverse_append, List.dropWhile_append_of_pos (fun c hc => hafter c
        (List.mem_reverse.mp hc)), hback, List.reverse_reverse]

/-- Nothing but runs of the class is taken off a row. -/
theorem exists_padding (p : Char → Bool) (cs : List Char) :
    ∃ before after, (∀ c ∈ before, p c = true) ∧ (∀ c ∈ after, p c = true) ∧
      cs = before ++ (dropEndWhile p (cs.dropWhile p) ++ after) := by
  refine ⟨cs.takeWhile p, ((cs.dropWhile p).reverse.takeWhile p).reverse,
    List.all_eq_true.mp List.all_takeWhile,
    fun c hc => List.all_eq_true.mp List.all_takeWhile c (List.mem_reverse.mp hc), ?_⟩
  rw [dropEndWhile, ← List.reverse_append, List.takeWhile_append_dropWhile, List.reverse_reverse,
    List.takeWhile_append_dropWhile]

end Text

end DeskCalc
