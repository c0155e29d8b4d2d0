import DeskCalc.Proofs.History.Log
import DeskCalc.Proofs.Session.Line
import Mathlib.Data.List.TakeWhile

/-!
# What a Session Answers

A session goes forward: it carries a mode and a history from line to line. What it answers is
easier to say looking backward. The mode is that of the latest line that set one, and the
calculations are those of the lines since the latest that cleared them, so both can be read off
the earlier lines, the latest first, without any session.

`Session.afterLines` is the session that has these two, and everything here is that the session
which is carried along is that one (`Session.respond_afterLines`). Each answer is then said by the
lines before it, and the end of a session hides whatever follows.

The calculations are all those since the history was cleared. The history holds fifty of them, and
that it holds the latest fifty is what the log behind a history is for.

What is said here is as good as the reading of the lines. That no line of the input is missed and
that each is taken for what it says is part of the result therefore, by `Session.Typed` and
`SessionLine.Asks`, which know nothing of how the input is read.

## Main definitions

* `Session.modeAfter`: The angle mode that earlier lines have set.
* `Session.calculations`: The calculations that earlier lines have made.
* `Session.answer`: The answer to a line after earlier ones.
* `Session.asked`: What the lines of an input ask for up to the end of the session.

## Theorems

* `Session.respond_afterLines`: One line, answered.
* `Session.converse_afterLines`: All lines, answered.
* `Session.mode_respond`, `Session.history_respond`: What a line leaves alone.
* `Session.transcript_eq_answers`: All that is written in a session.
-/

namespace DeskCalc

namespace Session

/-! ### What the earlier lines say -/

/-- The angle mode after earlier lines, of which the latest comes first. -/
def modeAfter (start : AngleMode) : List SessionLine → AngleMode
  | [] => start
  | .setMode mode :: _ => mode
  | _ :: earlier => modeAfter start earlier

/-- The calculations that have succeeded since the latest line that cleared them, and their
    values. The latest line comes first, and so does the latest calculation. -/
def calculations (ar : Arithmetic) (start : AngleMode) : List SessionLine → List (String × Binary64)
  | [] => []
  | .clearHistory :: _ => []
  | .expression text :: earlier =>
    match Expression.value ar (modeAfter start earlier) text with
    | .ok x => (text, x) :: calculations ar start earlier
    | .error _ => calculations ar start earlier
  | _ :: earlier => calculations ar start earlier

/-- Calculations as they are listed. -/
def listing (cs : List (String × Binary64)) : String :=
  if cs = [] then "(empty)\n"
  else String.join (cs.map fun c => c.1 ++ " = " ++ Display.text c.2 ++ "\n")

/-- The answer to a line after earlier ones, of which the latest comes first. -/
def answer (ar : Arithmetic) (language : Language) (start : AngleMode)
    (earlier : List SessionLine) : SessionLine → String
  | .blank | .quit | .clearHistory => ""
  | .showHistory => listing ((calculations ar start earlier).take 50)
  | .setMode mode => "Angle mode: " ++ mode.name ++ "\n"
  | .help => helpText
  | .expression text =>
    match Expression.value ar (modeAfter start earlier) text with
    | .ok x => Display.text x ++ "\n"
    | .error f => "Error: " ++ f.wording language ++ "\n"

/-- What the lines of an input ask for, up to the end of the session. -/
def asked (input : String) : List SessionLine :=
  ((inputLines input).map SessionLine.ofLine).takeWhile fun line => line != .quit

/-! ### One line -/

/-- A calculation as the history of a session holds it. -/
def entryOf (c : String × Binary64) : HistoryEntry := ⟨c.1, Display.text c.2, 0⟩

/-- The session after earlier lines, of which the latest comes first. -/
def afterLines (ar : Arithmetic) (start : AngleMode) (earlier : List SessionLine) : Session :=
  ⟨modeAfter start earlier,
    (⟨50, (calculations ar start earlier).map entryOf, []⟩ : HistoryLog).shown⟩

/-- The history of the session is that of the latest fifty calculations. -/
theorem entries_afterLines (ar : Arithmetic) (start : AngleMode) (earlier : List SessionLine) :
    (afterLines ar start earlier).history.entries =
      ((calculations ar start earlier).take 50).map entryOf := by
  rw [afterLines, HistoryLog.shown, HistoryLog.entries, List.append_nil, List.map_take]
  rfl

/-- The list of calculations that the session writes. -/
theorem historyText_afterLines (ar : Arithmetic) (start : AngleMode)
    (earlier : List SessionLine) :
    historyText (afterLines ar start earlier).history =
      listing ((calculations ar start earlier).take 50) := by
  rw [historyText.eq_def, entries_afterLines, listing]
  cases (calculations ar start earlier).take 50 with
  | nil => rfl
  | cons c cs =>
      rw [if_neg (List.cons_ne_nil c cs)]
      change String.join (((c :: cs).map entryOf).map _) = _
      rw [List.map_map]
      rfl

/-- An expression is evaluated in the mode of the session, and enters its history if it has a
    value. -/
theorem respond_expression (ar : Arithmetic) (language : Language) (start : AngleMode)
    (earlier : List SessionLine) (text : String) :
    respond ar language (afterLines ar start earlier) (.expression text) =
      (answer ar language start earlier (.expression text),
        afterLines ar start (.expression text :: earlier)) := by
  have hmode : modeAfter start (.expression text :: earlier) = modeAfter start earlier := rfl
  rw [respond, answer, afterLines, afterLines, hmode, calculations]
  simp only [History.addEvaluation, History.entryOf?_evaluate]
  simp only [Evaluation.report, Evaluator.evaluate, Option.getD_none]
  cases Expression.value ar (modeAfter start earlier) text with
  | error f => rfl
  | ok x =>
      -- The oldest calculation may have to go, and the log has room for it still.
      have hadd := History.cut_cons_take 50 (entryOf (text, x))
        ((calculations ar start earlier).map entryOf)
      simp only [Except.toOption, Option.map_some, History.add, HistoryLog.shown,
        HistoryLog.entries, List.append_nil, List.map_cons]
      rw [← hadd]
      rfl

/-- The session that is carried along is the one that the earlier lines say it is. -/
theorem respond_afterLines (ar : Arithmetic) (language : Language) (start : AngleMode)
    (earlier : List SessionLine) {line : SessionLine} (hline : line ≠ .quit) :
    respond ar language (afterLines ar start earlier) line =
      (answer ar language start earlier line, afterLines ar start (line :: earlier)) := by
  cases line with
  | quit => exact absurd rfl hline
  | blank => rfl
  | showHistory =>
      rw [respond, historyText_afterLines]
      rfl
  | clearHistory => rfl
  | setMode mode => rfl
  | help => rfl
  | expression text => exact respond_expression ar language start earlier text

/-- Only a line that sets the mode changes it. -/
theorem mode_respond (ar : Arithmetic) (language : Language) (s : Session) {line : SessionLine}
    (hline : ∀ mode, line ≠ .setMode mode) : (respond ar language s line).2.mode = s.mode := by
  cases line with
  | setMode mode => exact absurd rfl (hline mode)
  | blank | quit | showHistory | clearHistory | help | expression _ => rfl

/-- Only a line that clears the history changes it, and an expression with a value. -/
theorem history_respond (ar : Arithmetic) (language : Language) (s : Session) {line : SessionLine}
    (hclear : line ≠ .clearHistory)
    (hvalue : ∀ text x, line = .expression text → Expression.value ar s.mode text ≠ .ok x) :
    (respond ar language s line).2.history = s.history := by
  cases line with
  | clearHistory => exact absurd rfl hclear
  | blank | quit | showHistory | help | setMode _ => rfl
  | expression text =>
      rw [respond]
      simp only [History.addEvaluation, History.entryOf?_evaluate, Option.getD_none]
      cases h : Expression.value ar s.mode text with
      | error f => rfl
      | ok x => exact absurd h (hvalue text x rfl)

/-! ### All lines -/

theorem join_cons (s : String) (ss : List String) :
    String.join (s :: ss) = s ++ String.join ss := by
  rw [← String.toList_inj]
  simp only [String.toList_join, String.toList_append, List.flatMap_cons]

/-- What follows the end of a session is not looked at. -/
theorem converse_takeWhile (ar : Arithmetic) (language : Language) (s : Session)
    (lines : List SessionLine) :
    converse ar language s lines =
      converse ar language s (lines.takeWhile fun line => line != .quit) := by
  induction lines generalizing s with
  | nil => rfl
  | cons line lines ih =>
      by_cases hline : line = .quit
      · rw [hline, converse, if_pos rfl]
        rfl
      · have hmore : (line != .quit) = true := bne_iff_ne.mpr hline
        rw [List.takeWhile_cons, if_pos hmore, converse, converse, if_neg hline, if_neg hline]
        dsimp only
        rw [ih]

/-- What is written in answer to some lines, after earlier ones: a prompt and an answer to each,
    and a prompt to which there is no answer. -/
theorem converse_afterLines (ar : Arithmetic) (language : Language) (start : AngleMode)
    (earlier : List SessionLine) {lines : List SessionLine}
    (hlines : ∀ line ∈ lines, line ≠ .quit) :
    converse ar language (afterLines ar start earlier) lines =
      String.join (lines.mapIdx fun i line =>
        prompt ++ answer ar language start ((lines.take i).reverse ++ earlier) line) ++ prompt := by
  induction lines generalizing earlier with
  | nil => rfl
  | cons line lines ih =>
      rcases List.forall_mem_cons.mp hlines with ⟨hline, hmore⟩
      rw [converse, if_neg hline, respond_afterLines ar language start earlier hline,
        List.mapIdx_cons, join_cons, List.take_zero, List.reverse_nil, List.nil_append]
      dsimp only
      rw [ih (line :: earlier) hmore, ← String.append_assoc]
      -- For the lines that follow, this one is the first of those before them.
      simp only [List.take_succ_cons, List.reverse_cons, List.append_assoc,
        List.singleton_append]

/-- All that is written in a session, by what it has been asked. -/
theorem transcript_eq_asked (ar : Arithmetic) (language : Language) (start : AngleMode)
    (input : String) :
    transcript ar language start input = banner start ++
      String.join ((asked input).mapIdx fun i line =>
        prompt ++ answer ar language start ((asked input).take i).reverse line) ++ prompt := by
  have hasked : ∀ line ∈ asked input, line ≠ .quit := by
    intro line hline
    have hmore := List.mem_takeWhile_imp hline
    exact bne_iff_ne.mp hmore
  -- A session starts as one that has been asked nothing.
  have hanswers := converse_afterLines ar language start [] hasked
  simp only [List.append_nil] at hanswers
  rw [String.append_assoc, ← hanswers]
  exact congrArg (banner start ++ ·) (converse_takeWhile ar language _ _)

/-- Inputs that agree up to a line that ends the session ask the same. -/
theorem asked_eq {input other last : String} {shared rest rest' : List String}
    (hinput : Typed input (shared ++ last :: rest))
    (hother : Typed other (shared ++ last :: rest'))
    (hlast : SessionLine.Asks last .quit) : asked other = asked input := by
  rw [asked, asked, ← typed_iff.mp hinput, ← typed_iff.mp hother]
  simp only [List.map_append, List.map_cons, SessionLine.asks_iff.mp hlast, List.takeWhile_append,
    List.takeWhile_cons, bne_self_eq_false, Bool.false_eq_true, if_false]

end Session

/-- All that is written in a session: the mode that it starts in, a prompt and an answer for each
    line up to its end, and a last prompt. An answer depends on the line and on those before it, as
    `Session.answer` says: an expression is evaluated in the mode that was set last, and the
    history lists the latest fifty expressions that have had a value since it was cleared last, as
    they were answered. The lines are those that have been typed, and each asks for what its text
    says. Nothing after the end of a session is looked at. A line only sets the mode or changes the
    history if it is of the kind that does. -/
theorem Session.transcript_eq_answers (ar : Arithmetic) (language : Language) (start : AngleMode)
    (input : String) :
    transcript ar language start input =
        "Angle mode: " ++ start.name ++ ". Type :help for commands.\n" ++
          String.join ((asked input).mapIdx fun i line =>
            "> " ++ answer ar language start ((asked input).take i).reverse line) ++ "> " ∧
      (∀ lines, Typed input lines ↔ lines = inputLines input) ∧
      (∀ line request, SessionLine.Asks line request ↔ SessionLine.ofLine line = request) ∧
      (∀ (other : String) (shared rest rest' : List String) (last : String),
        Typed input (shared ++ last :: rest) → Typed other (shared ++ last :: rest') →
        SessionLine.Asks last .quit →
          transcript ar language start other = transcript ar language start input) ∧
      (∀ (s : Session) (line : SessionLine), (∀ mode, line ≠ .setMode mode) →
        (respond ar language s line).2.mode = s.mode) ∧
      ∀ (s : Session) (line : SessionLine), line ≠ .clearHistory →
        (∀ text x, line = .expression text → Expression.value ar s.mode text ≠ .ok x) →
          (respond ar language s line).2.history = s.history := by
  have hbanner : banner start = "Angle mode: " ++ start.name ++ ". Type :help for commands.\n" := by
    cases start <;> rfl
  refine ⟨?_, fun _ => typed_iff, fun _ _ => SessionLine.asks_iff, ?_,
    fun s line => mode_respond ar language s, fun s line => history_respond ar language s⟩
  · rw [transcript_eq_asked, hbanner]
    rfl
  · intro other shared rest rest' last hinput hother hlast
    rw [transcript_eq_asked, transcript_eq_asked, asked_eq hinput hother hlast]

/-- A session in which a right angle is typed in both modes, something fails, the history is shown
    before and after it is cleared, and lines follow the one that ends it. Without these lines all
    that is written is the same. -/
theorem Session.transcript_eq_answers_angles :
    let lines := ["sin(90)", "\t:rad ", "sin(90)*0", "1/0", ":history", "", ":clear", ":deg\r",
      ":history", ":Deg", " :q"]
    let typed := String.join (lines.map fun line => line ++ "\n")
    transcript .standard .english .degrees (typed ++ "2+2\n:history") =
        "Angle mode: DEGREES. Type :help for commands.\n> 1\n> Angle mode: RADIANS\n> 0\n" ++
          "> Error: " ++ FaultKind.wording .english .nonFiniteResult ++ "\n" ++
          "> sin(90)*0 = 0\nsin(90) = 1\n> > > Angle mode: DEGREES\n> (empty)\n" ++
          "> Error: Unknown token.\n> " ∧
      SessionLine.Asks "\t:rad " (.setMode .radians) ∧ SessionLine.Asks " :q" .quit ∧
      Typed (typed ++ "2+2\n:history") (lines ++ ["2+2", ":history"]) ∧ Typed typed lines ∧
      transcript .standard .english .degrees typed =
        transcript .standard .english .degrees (typed ++ "2+2\n:history") := by
  intro lines typed
  rcases transcript_eq_answers .standard .english .degrees (typed ++ "2+2\n:history") with
    ⟨hanswers, htyped, hasks, hend, -⟩
  have hquit : SessionLine.Asks " :q" .quit := (hasks _ _).mpr rfl
  have hlines : Typed (typed ++ "2+2\n:history") (lines ++ ["2+2", ":history"]) :=
    (htyped _).mpr (by decide +kernel)
  have hended : Typed typed lines := ⟨by decide, .inl rfl⟩
  refine ⟨?_, (hasks _ _).mpr rfl, hquit, hlines, hended, ?_⟩
  · rw [hanswers]
    decide +kernel
  · exact hend typed (lines.take 10) ["2+2", ":history"] [] " :q" hlines hended hquit

end DeskCalc
