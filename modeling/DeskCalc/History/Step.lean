import DeskCalc.History

/-!
# Steps of a History

What can happen to a history, one step at a time, so that whole runs can be followed.

A step can be refused, for a timestamp or an angle mode that is none. A refusal does not take
anything back: there is a history after a refused step as there is after any other, and it is
whatever the step had made of it before it was refused. So a step is a program with the history
as its state, in which the refusal ends the program and not the history.

## Main definitions

* `HistoryStep`: A step.
* `StepRefusal`: Why a step did not happen.
* `HistoryStep.revise`: What a step does.
* `History.perform`: What comes of a step, and the history after it.
* `History.performAll`: The history after several steps, some of them perhaps refused.
-/

namespace DeskCalc

/-- What can happen to a history. A limit that is not given is the standard one. -/
inductive HistoryStep where
  /-- A new history replaces it. -/
  | start (limit : Option Int)
  /-- A history restored from records replaces it. -/
  | restore (records : Payload) (limit : Option Int)
  /-- It is saved and restored. -/
  | reload (limit : Option Int)
  /-- A calculation is added, with a timestamp or at the current time. -/
  | add (expression result : String) (timestamp : Option Payload)
  /-- An expression is evaluated, in a mode or the standard one, and added. -/
  | evaluate (expression : String) (mode : Option Payload)
  /-- All entries are dropped. -/
  | clear

/-- Why a step did not happen. -/
inductive StepRefusal where
  /-- The timestamp is none. -/
  | timestamp (f : TimestampFault)
  /-- The angle mode is none. -/
  | mode (u : UnknownMode)

/-- The timestamp of an addition: the one that is given, or the current time. -/
def History.timestampFor (now : Int) : Option Payload → Except StepRefusal Int
  | none => .ok now
  | some .null => .ok now
  | some p => (Timestamp.ofPayload p).mapError .timestamp

/-- What a step at the given time does to a history. It gives the entry that it has made, if it
    has made one, or it is refused. -/
def HistoryStep.revise (ar : Arithmetic) (now : Int) :
    HistoryStep → ExceptT StepRefusal (StateM History) (Option HistoryEntry)
  | .start limit => do
    set (History.empty (limit.getD History.standardLimit))
    return none
  | .restore records limit => do
    set (History.ofRecords (limit.getD History.standardLimit) records)
    return none
  | .reload limit => do
    modify fun h => .ofRecords (limit.getD History.standardLimit) h.toRecords
    return none
  | .add expression result timestamp => do
    let ts ← History.timestampFor now timestamp
    let entry : HistoryEntry := ⟨expression, result, ts⟩
    modify fun h => h.add entry
    return some entry
  | .evaluate expression mode => do
    let evaluator : Evaluator := ⟨.standard⟩
    let mode ← (evaluator.modeFor mode).mapError StepRefusal.mode
    let evaluation := evaluator.evaluate ar expression (some mode)
    modify fun h => h.addEvaluation now evaluation
    return History.entryOf? now evaluation
  | .clear => do
    modify History.clear
    return none

namespace History

/-- What comes of a step at the given time, which is the entry that it has made or a refusal, and
    the history after it. -/
def perform (ar : Arithmetic) (now : Int) (h : History) (step : HistoryStep) :
    Except StepRefusal (Option HistoryEntry) × History :=
  (step.revise ar now).run.run h

/-- The history after a step at the given time, whatever comes of the step. -/
def after (ar : Arithmetic) (h : History) (step : Int × HistoryStep) : History :=
  (perform ar step.1 h step.2).2

/-- The history after several steps, each with its time. -/
def performAll (ar : Arithmetic) (h : History) (steps : List (Int × HistoryStep)) : History :=
  steps.foldl (after ar) h

end History

end DeskCalc
