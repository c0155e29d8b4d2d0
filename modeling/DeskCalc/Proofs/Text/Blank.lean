import DeskCalc.Proofs.Text.Span
import Mathlib.Data.List.Basic

/-!
# Blanks Around a Line

What stripping leaves of a line, said without stripping it: a text that neither starts nor ends
with a blank, with nothing but blanks around it in the line. There is always just one such text.

The blanks are listed one by one here, where the reader of a line has intervals of code points.

## Main definitions

* `Text.blanks`: The blank characters.
* `Text.Stripped`: That a text is what a line is but for the blanks at its ends.

## Theorems

* `Text.isBlank_iff_mem_blanks`: The characters that are taken off are the blanks.
* `Text.stripChars_padded`: Stripping gives back a stripped line that has blanks around it.
* `Text.stripChars_stripChars`: Stripping leaves a stripped line.
* `Text.stripped_iff`: Stripping leaves the one text that a line is but for blanks.
-/

namespace DeskCalc

namespace Text

/-- The blank characters. -/
def blanks : List Char :=
  ['\t', '\n', '\x0b', '\x0c', '\r', '\x1c', '\x1d', '\x1e', '\x1f', ' ', '\x85', '\xa0', '\u1680',
    '\u2000', '\u2001', '\u2002', '\u2003', '\u2004', '\u2005', '\u2006', '\u2007', '\u2008',
    '\u2009', '\u200a', '\u2028', '\u2029', '\u202f', '\u205f', '\u3000']

/-- The characters that are taken off are the blanks. -/
theorem isBlank_iff_mem_blanks {c : Char} : isBlank c = true ↔ c ∈ blanks := by
  have hcodes : blanks.map Char.toNat = [9, 10, 11, 12, 13, 28, 29, 30, 31, 32, 0x85, 0xA0, 0x1680,
      0x2000, 0x2001, 0x2002, 0x2003, 0x2004, 0x2005, 0x2006, 0x2007, 0x2008, 0x2009, 0x200A,
      0x2028, 0x2029, 0x202F, 0x205F, 0x3000] := rfl
  have hmem : c ∈ blanks ↔ c.toNat ∈ blanks.map Char.toNat :=
    (List.mem_map_of_injective fun _ _ => Char.toNat_inj.mp).symm
  rw [hmem, hcodes, isBlank]
  simp only [List.mem_cons, List.not_mem_nil, or_false, Bool.or_eq_true, Bool.and_eq_true,
    decide_eq_true_eq, beq_iff_eq]
  omega

/-- That a text has no blanks at its ends, and that a line is this text with blanks around it. -/
structure Stripped (line text : List Char) : Prop where
  /-- Only blanks have been taken off. -/
  padded : ∃ before after, (∀ c ∈ before, c ∈ blanks) ∧ (∀ c ∈ after, c ∈ blanks) ∧
    line = before ++ (text ++ after)
  /-- There is no blank before what is left. -/
  front : ∀ c ∈ text.head?, c ∉ blanks
  /-- There is none behind it. -/
  back : ∀ c ∈ text.getLast?, c ∉ blanks

/-- A stripped line has no blanks at its ends. -/
theorem dropWhile_of_stripChars_eq {cs : List Char} (h : stripChars cs = cs) :
    cs.dropWhile isBlank = cs ∧ cs.reverse.dropWhile isBlank = cs.reverse := by
  have hfront : (cs.dropWhile isBlank).length ≤ cs.length :=
    (List.dropWhile_suffix isBlank).length_le
  have hback : (stripChars cs).length ≤ (cs.dropWhile isBlank).length := by
    have hdrop : ((cs.dropWhile isBlank).reverse.dropWhile isBlank).length ≤
        (cs.dropWhile isBlank).reverse.length := (List.dropWhile_suffix isBlank).length_le
    rw [List.length_reverse] at hdrop
    rwa [stripChars, dropEndWhile, List.length_reverse]
  rw [h] at hback
  have hwhole : cs.dropWhile isBlank = cs :=
    (List.dropWhile_suffix isBlank).eq_of_length (Nat.le_antisymm hfront hback)
  refine ⟨hwhole, ?_⟩
  rw [stripChars, dropEndWhile, hwhole] at h
  rw [← List.reverse_eq_iff, h]

/-- A stripped line with blanks around it is stripped again. -/
theorem stripChars_padded {before line after : List Char} (hline : stripChars line = line)
    (hbefore : ∀ c ∈ before, isBlank c = true) (hafter : ∀ c ∈ after, isBlank c = true) :
    stripChars (before ++ (line ++ after)) = line := by
  rcases dropWhile_of_stripChars_eq hline with ⟨hfront, hback⟩
  exact dropEndWhile_padded hbefore hafter hfront hback

/-- What is left of a line when it is stripped is stripped. -/
theorem stripChars_stripChars (cs : List Char) : stripChars (stripChars cs) = stripChars cs := by
  have hback : (stripChars cs).reverse.dropWhile isBlank = (stripChars cs).reverse := by
    rw [stripChars, dropEndWhile, List.reverse_reverse]
    exact dropWhile_eq_self head?_dropWhile
  have hfront : (stripChars cs).dropWhile isBlank = stripChars cs := by
    refine dropWhile_eq_self fun c hc => ?_
    -- The line starts as it did before the blanks behind it were taken off.
    obtain ⟨after, hafter⟩ : stripChars cs <+: cs.dropWhile isBlank := by
      rw [← List.reverse_suffix, stripChars, dropEndWhile, List.reverse_reverse]
      exact List.dropWhile_suffix isBlank
    suffices hmem : c ∈ (cs.dropWhile isBlank).head? from head?_dropWhile c hmem
    rw [← hafter, List.head?_append, Option.mem_def.mp hc]
    rfl
  have hnone : ∀ c ∈ ([] : List Char), isBlank c = true := List.forall_mem_nil _
  have hpadded := dropEndWhile_padded hnone hnone hfront hback
  rwa [List.append_nil] at hpadded

theorem stripChars_blank {cs : List Char} (hcs : ∀ c ∈ cs, isBlank c = true) :
    stripChars cs = [] := by
  rw [stripChars, ← List.append_nil cs, List.dropWhile_append_of_pos hcs]
  rfl

/-- A line keeps its first character that is not blank. -/
theorem head?_stripChars {before : List Char} {c : Char} (rest : List Char)
    (hbefore : ∀ c ∈ before, isBlank c = true) (hc : isBlank c = false) :
    (stripChars (before ++ c :: rest)).head? = some c := by
  have hfirst : ([c] : List Char).dropWhile isBlank = [c] :=
    List.dropWhile_cons_of_neg (Bool.eq_false_iff.mp hc)
  rw [stripChars, List.dropWhile_append_of_pos hbefore,
    List.dropWhile_cons_of_neg (Bool.eq_false_iff.mp hc), dropEndWhile, List.reverse_cons,
    List.dropWhile_append, hfirst]
  by_cases hblank : (rest.reverse.dropWhile isBlank).isEmpty = true
  · rw [if_pos hblank]
    rfl
  · rw [if_neg hblank, List.reverse_append]
    rfl

/-- What is left of a line does not start or end with a blank. -/
theorem Stripped.stripChars_eq {line text : List Char} (h : Stripped line text) :
    stripChars line = text := by
  rcases h.padded with ⟨before, after, hbefore, hafter, rfl⟩
  have hfree : ∀ c, c ∉ blanks → isBlank c = false := fun c hc =>
    Bool.eq_false_iff.mpr fun hblank => hc (isBlank_iff_mem_blanks.mp hblank)
  refine dropEndWhile_padded (fun c hc => isBlank_iff_mem_blanks.mpr (hbefore c hc))
    (fun c hc => isBlank_iff_mem_blanks.mpr (hafter c hc))
    (dropWhile_eq_self fun c hc => hfree c (h.front c hc))
    (dropWhile_eq_self fun c hc => hfree c (h.back c ?_))
  rwa [List.head?_reverse] at hc

/-- Stripping leaves the one text that a line is but for the blanks at its ends. -/
theorem stripped_iff {line text : List Char} : Stripped line text ↔ stripChars line = text := by
  refine ⟨Stripped.stripChars_eq, ?_⟩
  rintro rfl
  rcases exists_padding isBlank line with ⟨before, after, hbefore, hafter, hline⟩
  rcases dropWhile_of_stripChars_eq (stripChars_stripChars line) with ⟨hfront, hback⟩
  have hfree : ∀ {c}, isBlank c = false → c ∉ blanks := fun hc hmem =>
    Bool.eq_false_iff.mp hc (isBlank_iff_mem_blanks.mpr hmem)
  refine ⟨⟨before, after, fun c hc => isBlank_iff_mem_blanks.mp (hbefore c hc),
    fun c hc => isBlank_iff_mem_blanks.mp (hafter c hc), hline⟩, fun c hc => hfree ?_,
    fun c hc => hfree ?_⟩
  · rw [← hfront] at hc
    exact head?_dropWhile c hc
  · rw [← List.head?_reverse, ← hback] at hc
    exact head?_dropWhile c hc

end Text

end DeskCalc
