import DeskCalc.Batch
import DeskCalc.CommandLine.Options
import DeskCalc.ExpressionFile
import DeskCalc.Session
import DeskCalc.Table

/-!
# What the Command Line Does

Three ways to use the calculator from a command line: expressions given as arguments, a file of
expressions shown as a table, and a session. The exit code says whether everything could be
evaluated.

A session is preferred to a file and a file to expressions. With none of the three there is
nothing to do, which counts as a mistake.

## Main definitions

* `Report`: What is written, and the exit code.
* `Report.ofExpressions`: Expressions as arguments.
* `Report.ofFile`: A file shown as a table.
* `Report.ofSession`: A session.
* `Found`: What there is under a path.
* `Obstacle`: Why nothing could be done.
* `Report.ofOptions`: Whichever is asked for.
-/

namespace DeskCalc

/-- What is written, and the exit code. -/
structure Report where
  /-- The exit code. -/
  exitCode : Nat
  /-- What is written. -/
  output : String
  deriving DecidableEq, Repr

/-- What there is under a path. -/
inductive Found where
  /-- Nothing. -/
  | nothing
  /-- A directory. -/
  | directory
  /-- A file that holds these bytes. -/
  | file (bytes : ByteArray)

/-- Whether a path leads to a directory from wherever it is followed, because all its parts are
    single or double dots. The number counts the dots of the part being read. -/
def isDotPath (dots : Nat) : List Char → Bool
  | [] => dots ≤ 2
  | '/' :: path => dots ≤ 2 && isDotPath 0 path
  | '.' :: path => isDotPath (dots + 1) path
  | _ => false

/-- Why nothing could be done, although the arguments were understood. -/
inductive Obstacle where
  /-- The level of logging has been undone. -/
  | noLogLevel
  /-- There is no file under the path. -/
  | missing
  /-- There is a directory under the path. -/
  | directory
  /-- The bytes of the file are not text. -/
  | notText
  deriving DecidableEq, Repr

namespace Report

/-- Lines of output. -/
def unlines (lines : List String) : String := String.join (lines.map fun s => s ++ "\n")

/-- The outcomes of expressions, one on each line. -/
def ofExpressions (ar : Arithmetic) (language : Language) (mode : AngleMode)
    (expressions : List String) : Report :=
  let evaluations := Batch.evaluate ar ⟨mode⟩ expressions
  ⟨Batch.exitCode evaluations, unlines (evaluations.map fun e => e.report language)⟩

/-- The columns of the table of evaluations. -/
def tableColumns (evaluations : List Evaluation) : List Table.Column :=
  [⟨"expression", evaluations.map fun e => some e.expression⟩,
    ⟨"formatted", evaluations.map Evaluation.formatted?⟩,
    ⟨"error", evaluations.map Evaluation.key?⟩]

/-- The outcomes of the expressions of a file, as a table. -/
def ofFile (ar : Arithmetic) (mode : AngleMode) (expressions : List String) : Report :=
  let evaluations := Batch.evaluate ar ⟨mode⟩ expressions
  ⟨Batch.exitCode evaluations,
    unlines (Table.render evaluations.length (tableColumns evaluations))⟩

/-- A session. -/
def ofSession (ar : Arithmetic) (language : Language) (mode : AngleMode) (input : String) :
    Report :=
  ⟨0, Session.transcript ar language mode input⟩

/-- The outcomes of the expressions of what there is under a path. -/
def ofFound (ar : Arithmetic) (mode : AngleMode) : Found → Except Obstacle Report
  | .nothing => .error .missing
  | .directory => .error .directory
  | .file bytes =>
    match ExpressionFile.ofBytes? bytes with
    | some expressions => .ok (ofFile ar mode expressions)
    | none => .error .notText

/-- What is asked for, given the typed input and what there is under a path. An empty path
    means no file. -/
def ofOptions (ar : Arithmetic) (opts : Options) (input : String) (found : String → Found) :
    Except Obstacle Report :=
  if opts.logLevel.isNone then .error .noLogLevel
  else if opts.interactive then .ok (ofSession ar opts.language opts.mode input)
  else
    let path := opts.file.getD ""
    if path = "" then
      match opts.expressions.getD [] with
      | [] => .ok ⟨2, ""⟩
      | expressions => .ok (ofExpressions ar opts.language opts.mode expressions)
    else
      ofFound ar opts.mode (if isDotPath 0 path.toList then .directory else found path)

end Report

end DeskCalc
