import DeskCalc.Proofs.Text.Listing
import DeskCalc.Session
import Mathlib.Tactic.SplitIfs

/-!
# What the Lines of a Session Ask For

How typed input comes apart into lines, and what each of them asks for, said without the reader
of a session.

The input is its lines with a line feed behind each. Only the last line may go without, since the
input may end in the middle of it, and then it is not empty: after the last line feed there is
either a line that has been started or nothing at all. A carriage return is part of a line, and
goes when the blanks around the line are taken off.

A line is a command if the text in it is one of a few words. All other texts are expressions, those
included that start with a colon.

## Main definitions

* `Session.Typed`: That an input consists of the given lines.
* `Session.inputLines`: The lines of an input.
* `SessionLine.Means`: What a text asks for that has no blanks around it.
* `SessionLine.Asks`: What a line asks for.

## Theorems

* `Session.typed_iff`: Each input consists of its lines and of no others.
* `SessionLine.asks_iff`: Each line asks for one thing.
-/

namespace DeskCalc

namespace Session

/-! ### The lines of an input -/

/-- That an input consists of the given lines. -/
structure Typed (input : String) (lines : List String) : Prop where
  /-- There is no line feed in a line. -/
  unbroken : ∀ line ∈ lines, '\n' ∉ line.toList
  /-- There is one behind each line, perhaps but for the last, which then is not empty. -/
  joined : input = String.join (lines.map fun line => line ++ "\n") ∨
    ∃ ended last, lines = ended ++ [last] ∧ last ≠ "" ∧
      input = String.join (ended.map fun line => line ++ "\n") ++ last

/-- The lines of an input. -/
def inputLines (input : String) : List String := (Text.fedLines input.toList).map String.ofList

theorem toList_join_ended (ended : List String) :
    (String.join (ended.map fun line => line ++ "\n")).toList =
      (ended.map String.toList).flatMap fun line => line ++ ['\n'] := by
  rw [String.toList_join, List.flatMap_map, List.flatMap_map]
  simp only [String.toList_append]
  rfl

/-- The lines of an input that ends in a line that has perhaps not been started. -/
theorem inputLines_ended {ended : List String} {last : String}
    (hended : ∀ line ∈ ended, '\n' ∉ line.toList) (hlast : '\n' ∉ last.toList) :
    inputLines (String.join (ended.map fun line => line ++ "\n") ++ last) =
      ended ++ if last = "" then [] else [last] := by
  have hround : String.ofList ∘ String.toList = id := funext fun _ => String.ofList_toList
  rw [inputLines, String.toList_append, toList_join_ended,
    Text.fedLines_ended (List.forall_mem_map.mpr hended), List.map_append, List.map_map, hround,
    List.map_id]
  by_cases hempty : last = ""
  · rw [if_pos hempty, hempty]
    rfl
  · have hne : last.toList ≠ [] := fun h => hempty (String.toList_eq_nil_iff.mp h)
    rw [if_neg hempty, Text.fedLines_last hne hlast, List.map_singleton, String.ofList_toList]

/-- Each input can be taken apart like this. -/
theorem exists_ended (input : String) :
    ∃ (ended : List String) (last : String), (∀ line ∈ ended, '\n' ∉ line.toList) ∧
      '\n' ∉ last.toList ∧ input = String.join (ended.map fun line => line ++ "\n") ++ last := by
  rcases Text.exists_ended input.toList with ⟨ended, last, hended, hlast, hinput⟩
  refine ⟨ended.map String.ofList, String.ofList last, ?_, ?_, ?_⟩
  · refine List.forall_mem_map.mpr fun line hline => ?_
    rw [String.toList_ofList]
    exact hended line hline
  · rwa [String.toList_ofList]
  · have hround : String.toList ∘ String.ofList = id := funext fun _ => String.toList_ofList
    rw [← String.toList_inj, String.toList_append, toList_join_ended, List.map_map, hround,
      List.map_id, String.toList_ofList, hinput]

/-- Each input consists of its lines and of no others. -/
theorem typed_iff {input : String} {lines : List String} :
    Typed input lines ↔ lines = inputLines input := by
  constructor
  · rintro ⟨hunbroken, rfl | ⟨ended, last, rfl, hne, rfl⟩⟩
    · have hlast : '\n' ∉ "".toList := List.not_mem_nil
      have hlines := inputLines_ended hunbroken hlast
      rw [String.append_empty, if_pos rfl, List.append_nil] at hlines
      exact hlines.symm
    · rcases List.forall_mem_append.mp hunbroken with ⟨hended, hlast⟩
      rw [inputLines_ended hended (hlast last List.mem_cons_self), if_neg hne]
  · rintro rfl
    rcases exists_ended input with ⟨ended, last, hended, hlast, rfl⟩
    rw [inputLines_ended hended hlast]
    by_cases hempty : last = ""
    · rw [if_pos hempty, hempty, List.append_nil, String.append_empty]
      exact ⟨hended, .inl rfl⟩
    · rw [if_neg hempty]
      exact ⟨List.forall_mem_append.mpr ⟨hended, List.forall_mem_singleton.mpr hlast⟩,
        .inr ⟨ended, last, rfl, hempty, rfl⟩⟩

end Session

namespace SessionLine

/-! ### What a line asks for -/

/-- What a text asks for that has no blanks around it. -/
inductive Means : String → SessionLine → Prop where
  /-- The empty text asks for nothing. -/
  | blank : Means "" .blank
  /-- Three words end the session. -/
  | quit {text : String} (h : text ∈ [":quit", ":q", ":exit"]) : Means text .quit
  /-- The history is shown. -/
  | showHistory : Means ":history" .showHistory
  /-- It is cleared. -/
  | clearHistory : Means ":clear" .clearHistory
  /-- Angles are in degrees from now on. -/
  | degrees : Means ":deg" (.setMode .degrees)
  /-- They are in radians. -/
  | radians : Means ":rad" (.setMode .radians)
  /-- The names are shown that can be used. -/
  | help : Means ":help" .help
  /-- All else is an expression. -/
  | expression {text : String} (h : text ∉ ["", ":quit", ":q", ":exit", ":history", ":clear",
      ":deg", ":rad", ":help"]) : Means text (.expression text)

/-- What a line asks for: what the text in it asks for, with blanks around it or not. -/
def Asks (line : String) (request : SessionLine) : Prop :=
  ∃ text : String, Text.Stripped line.toList text.toList ∧ Means text request

/-- Each text without blanks around it asks for one thing. -/
theorem means_iff {text : String} {request : SessionLine} :
    Means text request ↔ ofStripped text = request := by
  constructor
  · intro h
    cases h with
    | quit h =>
        simp only [List.mem_cons, List.not_mem_nil, or_false] at h
        rcases h with rfl | rfl | rfl <;> rfl
    | expression h =>
        simp only [List.mem_cons, List.not_mem_nil, or_false, not_or] at h
        rcases h with ⟨hblank, hquit, hq, hexit, hhistory, hclear, hdeg, hrad, hhelp⟩
        rw [ofStripped]
        simp only [hblank, hquit, hq, hexit, hhistory, hclear, hdeg, hrad, hhelp, or_self,
          if_false]
    | blank | showHistory | clearHistory | degrees | radians | help => rfl
  · rintro rfl
    rw [ofStripped]
    split_ifs with hblank hquit hhistory hclear hdeg hrad hhelp
    · exact hblank ▸ .blank
    · refine .quit ?_
      simpa only [List.mem_cons, List.not_mem_nil, or_false] using hquit
    · exact hhistory ▸ .showHistory
    · exact hclear ▸ .clearHistory
    · exact hdeg ▸ .degrees
    · exact hrad ▸ .radians
    · exact hhelp ▸ .help
    · refine .expression ?_
      simp only [not_or] at hquit
      simp only [List.mem_cons, List.not_mem_nil, or_false, not_or]
      exact ⟨hblank, hquit.1, hquit.2.1, hquit.2.2, hhistory, hclear, hdeg, hrad, hhelp⟩

/-- Each line asks for one thing. -/
theorem asks_iff {line : String} {request : SessionLine} :
    Asks line request ↔ ofLine line = request := by
  rw [ofLine, ← means_iff, Text.strip]
  constructor
  · rintro ⟨text, hstripped, hmeans⟩
    rwa [hstripped.stripChars_eq, String.ofList_toList]
  · intro hmeans
    refine ⟨_, Text.stripped_iff.mpr ?_, hmeans⟩
    rw [String.toList_ofList]

end SessionLine

end DeskCalc
