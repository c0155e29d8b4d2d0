import DeskCalc.ExpressionFile
import DeskCalc.Proofs.Text.Listing

/-!
# What a File of Expressions Holds

A file can be written in many ways for the same expressions. Each line is ended in its own way,
blanks can stand around an expression, and empty lines and comments can stand anywhere. `Holds`
says which lines hold which expressions, and the file is a text that is made of such lines.

Reading does not see every line of it. Where a carriage return ends a line and the next one is
empty and ended by a line feed, the two ends are read as one, and there is a line less. Since it is
an empty line that is lost, and empty lines hold nothing, what counts is only which lines are not
empty.

What is found in any file has the properties that `Storable` asks of an expression, so it can be
written to a file again, one expression on each line, and is found there unchanged.

## Main definitions

* `ExpressionFile.Storable`: That a text is found in a file as it is.
* `ExpressionFile.Padding`: Blanks that do not end a line.
* `ExpressionFile.Holds`: Which lines hold which expressions.
* `ExpressionFile.found`: What reading finds in lines.

## Theorems

* `ExpressionFile.found_listing`: What is found depends on the lines that a file is made of.
* `ExpressionFile.found_holds`: What is found in lines that hold expressions.
* `ExpressionFile.storable_of_ofBytes?`: What is found can be stored again.
* `ExpressionFile.ofBytes?_reads`: Reading a file, and reading what was found in one.
-/

namespace DeskCalc

namespace ExpressionFile

open Text

/-- That a text is found in a file as it is, when it is written on a line: there is something to
    find, no blanks around it, no line end that breaks it, and it is not taken for a comment. -/
structure Storable (text : String) : Prop where
  ne_empty : text ≠ ""
  stripped : Text.strip text = text
  no_return : '\r' ∉ text.toList
  no_feed : '\n' ∉ text.toList
  no_comment : text.toList.head? ≠ some '#'

namespace Storable

variable {text : String}

theorem unbroken (h : Storable text) : Unbroken text.toList :=
  ⟨fun hempty => h.ne_empty (String.toList_eq_nil_iff.mp hempty), h.no_return, h.no_feed⟩

theorem stripChars_eq (h : Storable text) : stripChars text.toList = text.toList := by
  rw [← String.toList_ofList (l := stripChars text.toList)]
  exact congrArg String.toList h.stripped

theorem isExpression (h : Storable text) : isExpression text.toList = true := by
  have hne := h.unbroken.1
  have hcomment := h.no_comment
  match hchars : text.toList, hne with
  | c :: cs, _ =>
      rw [hchars, List.head?_cons, ne_eq, Option.some.injEq] at hcomment
      exact bne_iff_ne.mpr hcomment

/-- What stripping has left of an unbroken line can be stored, if it is an expression. -/
theorem of_line {line : List Char} (hreturn : '\r' ∉ line) (hfeed : '\n' ∉ line)
    (h : ExpressionFile.isExpression (stripChars line) = true) :
    Storable (String.ofList (stripChars line)) := by
  -- Stripping only takes characters away, so it brings in no line end.
  have hsub : ∀ c ∈ stripChars line, c ∈ line := by
    intro c hc
    rw [stripChars, dropEndWhile, List.mem_reverse] at hc
    have hback := (List.dropWhile_suffix isBlank).subset hc
    exact (List.dropWhile_suffix isBlank).subset (List.mem_reverse.mp hback)
  refine ⟨?_, ?_, ?_, ?_, ?_⟩
  · intro hempty
    rw [String.ofList_eq_empty_iff.mp hempty] at h
    exact Bool.noConfusion h
  · rw [strip, String.toList_ofList, stripChars_stripChars]
  · rw [String.toList_ofList]
    exact fun hc => hreturn (hsub _ hc)
  · rw [String.toList_ofList]
    exact fun hc => hfeed (hsub _ hc)
  · rw [String.toList_ofList]
    intro hhead
    cases hchars : stripChars line with
    | nil =>
        simp only [hchars, List.head?_nil, reduceCtorEq] at hhead
    | cons c cs =>
        rw [hchars, List.head?_cons, Option.some.injEq] at hhead
        rw [hchars, hhead] at h
        exact Bool.noConfusion h

end Storable

/-! ### Lines and what they hold -/

/-- Blanks that do not end a line. -/
def Padding (cs : List Char) : Prop := ∀ c ∈ cs, isBlank c = true ∧ c ≠ '\r' ∧ c ≠ '\n'

instance (cs : List Char) : Decidable (Padding cs) :=
  List.decidableBAll (fun c => isBlank c = true ∧ c ≠ '\r' ∧ c ≠ '\n') cs

theorem Padding.blank {cs : List Char} (h : Padding cs) : ∀ c ∈ cs, isBlank c = true :=
  fun c hc => (h c hc).1

theorem Padding.notMem {cs : List Char} (h : Padding cs) : '\r' ∉ cs ∧ '\n' ∉ cs :=
  ⟨fun hc => (h _ hc).2.1 rfl, fun hc => (h _ hc).2.2 rfl⟩

/-- Which lines hold which expressions: one on a line, with blanks around it, between lines that
    are blank or a comment. -/
inductive Holds : List String → List (List Char) → Prop where
  /-- There are no lines. -/
  | nil : Holds [] []
  /-- An expression has a line to itself. -/
  | expression {text : String} {before after : List Char} {expressions : List String}
      {rest : List (List Char)} (hbefore : Padding before) (hafter : Padding after)
      (h : Holds expressions rest) :
      Holds (text :: expressions) ((before ++ (text.toList ++ after)) :: rest)
  /-- A line is empty, or has only blanks on it. -/
  | blank {line : List Char} {expressions : List String} {rest : List (List Char)}
      (hline : Padding line) (h : Holds expressions rest) : Holds expressions (line :: rest)
  /-- A line is a comment. -/
  | comment {before remark : List Char} {expressions : List String} {rest : List (List Char)}
      (hbefore : Padding before) (hremark : '\r' ∉ remark ∧ '\n' ∉ remark)
      (h : Holds expressions rest) : Holds expressions ((before ++ '#' :: remark) :: rest)

theorem Holds.plain (expressions : List String) :
    Holds expressions (expressions.map String.toList) := by
  induction expressions with
  | nil => exact .nil
  | cons text expressions ih =>
      have hline := @Holds.expression text [] [] expressions _ nofun nofun ih
      rwa [List.append_nil] at hline

theorem Holds.notMem {expressions : List String} {rest : List (List Char)}
    (h : Holds expressions rest) (hall : ∀ e ∈ expressions, Storable e) :
    ∀ line ∈ rest, '\r' ∉ line ∧ '\n' ∉ line := by
  induction h with
  | nil => exact nofun
  | expression hbefore hafter _ ih =>
      rcases List.forall_mem_cons.mp hall with ⟨htext, hall⟩
      refine List.forall_mem_cons.mpr ⟨?_, ih hall⟩
      simp only [List.mem_append, not_or]
      exact ⟨⟨hbefore.notMem.1, htext.no_return, hafter.notMem.1⟩,
        hbefore.notMem.2, htext.no_feed, hafter.notMem.2⟩
  | blank hline _ ih => exact List.forall_mem_cons.mpr ⟨hline.notMem, ih hall⟩
  | comment hbefore hremark _ ih =>
      refine List.forall_mem_cons.mpr ⟨?_, ih hall⟩
      simp only [List.mem_append, List.mem_cons, not_or]
      exact ⟨⟨hbefore.notMem.1, by decide, hremark.1⟩, hbefore.notMem.2, by decide, hremark.2⟩

/-! ### What is found -/

/-- What reading finds in lines. -/
def found (rest : List (List Char)) : List (List Char) := (rest.map stripChars).filter isExpression

theorem found_nonempty (rest : List (List Char)) : found (nonempty rest) = found rest := by
  rw [found, found, nonempty, List.filter_map, List.filter_map, List.filter_filter]
  refine congrArg _ (List.filter_congr fun line _ => ?_)
  cases line with
  | nil => rfl
  | cons c line => exact Bool.and_true _

/-- What is found in a text is found in the lines that it is made of, although reading may see fewer
    lines. -/
theorem found_listing {rest : List (List Char)} {cs : List Char} (h : Listing lineEnds rest cs)
    (hrest : ∀ line ∈ rest, '\r' ∉ line ∧ '\n' ∉ line) : found (lines cs) = found rest := by
  rw [← found_nonempty, nonempty_lines_listing h hrest, found_nonempty]

theorem found_holds {expressions : List String} {rest : List (List Char)}
    (h : Holds expressions rest) (hall : ∀ e ∈ expressions, Storable e) :
    found rest = expressions.map String.toList := by
  induction h with
  | nil => rfl
  | @expression text before after expressions rest hbefore hafter _ ih =>
      rcases List.forall_mem_cons.mp hall with ⟨htext, hall⟩
      have hstrip := stripChars_padded htext.stripChars_eq hbefore.blank hafter.blank
      rw [found, List.map_cons, hstrip, List.filter_cons_of_pos htext.isExpression]
      exact congrArg _ (ih hall)
  | @blank line expressions rest hline _ ih =>
      rw [found, List.map_cons, stripChars_blank hline.blank]
      exact ih hall
  | @comment before remark expressions rest hbefore _ _ ih =>
      -- The sign of a comment is the first character that stripping leaves.
      have hhead := head?_stripChars remark hbefore.blank (c := '#') rfl
      have hskip : ¬ isExpression (stripChars (before ++ '#' :: remark)) = true := by
        match hchars : stripChars (before ++ '#' :: remark) with
        | [] => exact Bool.false_ne_true
        | c :: cs =>
            rw [hchars, List.head?_cons, Option.some.injEq] at hhead
            rw [hhead]
            exact Bool.false_ne_true
      rw [found, List.map_cons, List.filter_cons_of_neg hskip]
      exact ih hall

/-! ### Files -/

theorem ofBytes?_of_holds {expressions : List String} {rest : List (List Char)} {text : String}
    (hall : ∀ e ∈ expressions, Storable e) (hrest : Holds expressions rest)
    (htext : Listing lineEnds rest text.toList) : ofBytes? text.toUTF8 = some expressions := by
  have hdecode : String.fromUTF8? text.toUTF8 = some text := dif_pos text.isValidUTF8
  have hfound : found (lines text.toList) = expressions.map String.toList := by
    rw [found_listing htext (hrest.notMem hall), found_holds hrest hall]
  have hback : String.ofList ∘ String.toList = id := funext fun e => String.ofList_toList
  rw [ofBytes?, hdecode, Option.map_some]
  change some ((found (lines text.toList)).map String.ofList) = some expressions
  rw [hfound, List.map_map, hback, List.map_id]

theorem storable_of_ofBytes? {bytes : ByteArray} {expressions : List String}
    (h : ofBytes? bytes = some expressions) : ∀ e ∈ expressions, Storable e := by
  rcases Option.map_eq_some_iff.mp h with ⟨text, _, rfl⟩
  refine List.forall_mem_map.mpr fun cs hcs => ?_
  rcases List.mem_filter.mp hcs with ⟨hmem, hexpression⟩
  rcases List.mem_map.mp hmem with ⟨line, hline, rfl⟩
  rcases notMem_lines _ line hline with ⟨hreturn, hfeed⟩
  exact .of_line hreturn hfeed hexpression

theorem listing_intercalate (expressions : List String) :
    Listing lineEnds (expressions.map String.toList) ("\n".intercalate expressions).toList := by
  rw [String.toList_intercalate]
  induction expressions with
  | nil => exact .nil
  | cons text expressions ih =>
      match expressions, ih with
      | [], _ =>
          rw [List.map_singleton, List.intercalate_singleton]
          exact .last _
      | next :: expressions, ih =>
          rw [List.map_cons, List.map_cons, List.intercalate_cons_cons, List.append_assoc]
          exact .cons (.head _) ih

/-- In a file that is made of lines which hold expressions, each line ended in its own way, exactly
    these are found, in their order. What is found in any file has no blanks around it, is neither
    empty nor a comment, and holds no line end, and is found again in a file with one of them on
    each line. -/
theorem ofBytes?_reads :
    (∀ (expressions : List String) (rest : List (List Char)) (text : String),
      (∀ e ∈ expressions, Storable e) → Holds expressions rest →
        Listing lineEnds rest text.toList → ofBytes? text.toUTF8 = some expressions) ∧
      ∀ (bytes : ByteArray) (expressions : List String), ofBytes? bytes = some expressions →
        (∀ e ∈ expressions, Storable e) ∧
          ofBytes? ("\n".intercalate expressions).toUTF8 = some expressions := by
  refine ⟨fun _ _ _ hall hrest htext => ofBytes?_of_holds hall hrest htext, ?_⟩
  intro bytes expressions h
  have hall := storable_of_ofBytes? h
  exact ⟨hall, ofBytes?_of_holds hall (.plain expressions) (listing_intercalate expressions)⟩

/-- Two expressions in a file where a carriage return and a line feed of two lines stand side by
    side, with a comment, a line that has only a no-break space on it, and no end of the last line.
    They are found again with a line feed between them. -/
theorem ofBytes?_reads_mixed :
    (∀ e ∈ ["1+2", "3#"], Storable e) ∧
      ofBytes? "\t1+2 \r\n # sum\r\n\u00a0\r 3#".toUTF8 = some ["1+2", "3#"] ∧
      ofBytes? "1+2\n3#".toUTF8 = some ["1+2", "3#"] := by
  have hall : ∀ e ∈ ["1+2", "3#"], Storable e := by
    simp only [List.forall_mem_cons, List.not_mem_nil, false_implies, implies_true, and_true]
    exact ⟨⟨by decide, by decide, by decide, by decide, by decide⟩,
      ⟨by decide, by decide, by decide, by decide, by decide⟩⟩
  have hlines : Holds ["1+2", "3#"]
      [['\t'] ++ ("1+2".toList ++ [' ']), [], [' '] ++ '#' :: " sum".toList, ['\u00a0'],
        [' '] ++ ("3#".toList ++ [])] := by
    refine .expression ?_ ?_ (.blank nofun (.comment ?_ ?_ (.blank ?_ (.expression ?_ nofun .nil))))
      <;> decide
  have hfound := ofBytes?_reads.1 ["1+2", "3#"] _ "\t1+2 \r\n # sum\r\n\u00a0\r 3#" hall hlines
    (.cons (.tail _ (.head _)) (.cons (.head _) (.cons (.tail _ (.tail _ (.head _)))
      (.cons (.tail _ (.head _)) (.last _)))))
  exact ⟨hall, hfound, (ofBytes?_reads.2 _ _ hfound).2⟩

end ExpressionFile

end DeskCalc
