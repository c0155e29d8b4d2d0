import DeskCalc.History
import DeskCalc.Text.Blank
import DeskCalc.Text.Line

/-!
# Interactive Sessions

A conversation: a line is read after each prompt, and either evaluated or obeyed as a command.
A session remembers its angle mode and the calculations that succeeded, and its answers depend
on nothing else.

Commands start with a colon. A line that only looks like one is an expression, and a faulty
one, since no expression holds a colon.

The history of a session is shown without times, so its entries carry none.

## Main definitions

* `SessionLine`: What a line asks for.
* `Session`: The mode and the history.
* `Session.respond`: The answer to a line, and the session after it.
* `Session.converse`: All that is written in answer to some lines.
* `Session.transcript`: All that is written in a session.
-/

namespace DeskCalc

/-- What a line asks for. -/
inductive SessionLine where
  /-- Nothing. -/
  | blank
  /-- The end of the session. -/
  | quit
  /-- The list of calculations. -/
  | showHistory
  /-- An empty history. -/
  | clearHistory
  /-- Another angle mode. -/
  | setMode (mode : AngleMode)
  /-- The names that can be used. -/
  | help
  /-- The value of a text. -/
  | expression (text : String)
  deriving DecidableEq, Repr

/-- What a line asks for, once the blanks around it are gone. -/
def SessionLine.ofStripped (line : String) : SessionLine :=
  if line = "" then .blank
  else if line = ":quit" ∨ line = ":q" ∨ line = ":exit" then .quit
  else if line = ":history" then .showHistory
  else if line = ":clear" then .clearHistory
  else if line = ":deg" then .setMode .degrees
  else if line = ":rad" then .setMode .radians
  else if line = ":help" then .help
  else .expression line

/-- What a line asks for. -/
def SessionLine.ofLine (line : String) : SessionLine := .ofStripped (Text.strip line)

/-- What a session remembers. -/
structure Session where
  /-- The angle mode that expressions are evaluated in. -/
  mode : AngleMode
  /-- The calculations that succeeded. -/
  history : History
  deriving DecidableEq, Repr

namespace Session

/-- A session at its start. -/
def start (mode : AngleMode) : Session := ⟨mode, .empty History.standardLimit⟩

/-- What is written before a line is read. -/
def prompt : String := "> "

/-- A line of output. -/
def outputLine (s : String) : String := s ++ "\n"

/-- What a session begins with. -/
def banner (mode : AngleMode) : String :=
  outputLine ("Angle mode: " ++ mode.name ++ ". Type :help for commands.")

/-- The list of calculations, newest first. -/
def historyText (h : History) : String :=
  match h.entries with
  | [] => outputLine "(empty)"
  | entries => String.join (entries.map fun e => outputLine (e.expression ++ " = " ++ e.result))

/-- The names that can be used. -/
def helpText : String :=
  outputLine ("Functions: " ++ ", ".intercalate (Function.all.map Function.name)) ++
    outputLine ("Constants: " ++ ", ".intercalate (Constant.all.map Constant.name)) ++
    outputLine "Operators: + - * / % ^ ! ( ) ,"

/-- The answer to a line that does not end the session, and the session after it. -/
def respond (ar : Arithmetic) (language : Language) (s : Session) :
    SessionLine → String × Session
  | .blank | .quit => ("", s)
  | .showHistory => (historyText s.history, s)
  | .clearHistory => ("", { s with history := s.history.clear })
  | .setMode mode => (outputLine ("Angle mode: " ++ mode.name), { s with mode := mode })
  | .help => (helpText, s)
  | .expression text =>
    let evaluation := Evaluator.evaluate ar ⟨s.mode⟩ text none
    (outputLine (evaluation.report language),
      { s with history := s.history.addEvaluation 0 evaluation })

/-- All that is written in answer to some lines, a prompt before each of them and one more
    before the end of the input. -/
def converse (ar : Arithmetic) (language : Language) : Session → List SessionLine → String
  | _, [] => prompt
  | s, line :: rest =>
    if line = .quit then prompt
    else
      let (answer, next) := respond ar language s line
      prompt ++ answer ++ converse ar language next rest

/-- All that is written in a session that starts in the given mode and is fed the given
    text. -/
def transcript (ar : Arithmetic) (language : Language) (mode : AngleMode) (input : String) :
    String :=
  let lines := (Text.fedLines input.toList).map String.ofList
  banner mode ++ converse ar language (start mode) (lines.map SessionLine.ofLine)

end Session

end DeskCalc
