import DeskCalc.History.Step
import DeskCalc.Proofs.AngleMode
import DeskCalc.Proofs.Outcome
import DeskCalc.Proofs.Timestamp

/-!
# What a Step of a History Comes To

Which entry a step makes and which steps are refused, said by what the values stand for that come
with the step. An addition may come with a timestamp and an evaluation with a mode. Where there is
none, the addition has the current time and the evaluation is made in degrees.

A step is refused for such a value, and only for one that stands for nothing. It has not touched the
history by then, although what has been done before a refusal would stay.

Steps are of two sorts. Those that replace the entries always succeed and make none. The others put
an entry in front if they make one, and otherwise leave the history alone (`History.after_eq_add`).

## Main definitions

* `HistoryStep.Choice`: What is chosen with a value or without one.
* `HistoryStep.Makes`: The entry that a step makes.
* `HistoryStep.Refused`: The steps that are refused.
* `HistoryStep.replaces`: The steps that replace all entries.
* `HistoryStep.made?`: The entry that a step makes, as a function.

## Theorems

* `HistoryStep.made?_eq_some_iff`: The entry that a step makes.
* `HistoryStep.refused_add_iff`, `HistoryStep.refused_evaluate_iff`: The steps that are refused, by
  what there is to be read.
* `History.perform_of_refused`, `History.perform_of_not_refused`: What comes of a step.
* `History.after_eq_add`: The history after a step that does not replace the entries.
-/

namespace DeskCalc

open Outcome

namespace HistoryStep

/-! ### What comes with a step -/

/-- What is chosen with a value, or with nothing in its place, or without one. -/
inductive Choice {α : Type} (usual : α) (stands : Payload → α → Prop) :
    Option Payload → α → Prop where
  /-- Without a value it is the usual. -/
  | absent : Choice usual stands none usual
  /-- So it is with nothing in its place. -/
  | null : Choice usual stands (some .null) usual
  /-- Otherwise it is what the value stands for. -/
  | given {p : Payload} {a : α} (h : stands p a) : Choice usual stands (some p) a

section Choice

variable {ε α : Type} {usual : α} {stands : Payload → α → Prop}
  (read : Option Payload → Except ε α)

/-- What is read with or without a value, given what is read from a value. -/
theorem eq_ok_iff_choice (habsent : read none = .ok usual) (hnull : read (some .null) = .ok usual)
    (hgiven : ∀ p ≠ .null, ∀ a, read (some p) = .ok a ↔ stands p a)
    (hnothing : ∀ a, ¬ stands .null a) {choice : Option Payload} {a : α} :
    read choice = .ok a ↔ Choice usual stands choice a := by
  constructor
  · intro h
    match choice with
    | none =>
        rw [habsent, Except.ok.injEq] at h
        exact h ▸ .absent
    | some p =>
        by_cases hp : p = .null
        · rw [hp, hnull, Except.ok.injEq] at h
          exact hp ▸ h ▸ .null
        · exact .given ((hgiven p hp a).mp h)
  · intro h
    cases h with
    | absent => exact habsent
    | null => exact hnull
    | @given p _ h =>
        -- What stands for something is a value, and not nothing in its place.
        refine (hgiven p ?_ a).mpr h
        rintro rfl
        exact hnothing a h

/-- Reading only fails on a value that is given and stands for nothing. -/
theorem eq_error_iff_misfit
    (hread : ∀ choice a, read choice = .ok a ↔ Choice usual stands choice a)
    {choice : Option Payload} :
    (∃ e, read choice = .error e) ↔
      ∃ p, choice = some p ∧ p ≠ .null ∧ ∀ a, ¬ stands p a := by
  constructor
  · rintro ⟨e, he⟩
    have hnone : ∀ a, ¬ Choice usual stands choice a := by
      intro a ha
      rw [(hread choice a).mpr ha] at he
      simp only [reduceCtorEq] at he
    match choice, hnone with
    | none, hnone => exact absurd .absent (hnone usual)
    | some p, hnone =>
        exact ⟨p, rfl, fun hp => hnone usual (hp ▸ .null), fun a ha => hnone a (.given ha)⟩
  · rintro ⟨p, rfl, hp, hnone⟩
    cases hout : read (some p) with
    | error e => exact ⟨e, rfl⟩
    | ok a =>
        cases (hread (some p) a).mp hout with
        | null => exact absurd rfl hp
        | given h => exact absurd h (hnone a)

end Choice

theorem timestampFor_eq_ok_iff {now : Int} (choice : Option Payload) (ts : Int) :
    History.timestampFor now choice = .ok ts ↔ Choice now Timestamp.Stands choice ts := by
  refine eq_ok_iff_choice (History.timestampFor now) rfl rfl (fun p hp ts => ?_) ?_
  · rw [History.timestampFor, mapError_eq_ok_iff, Timestamp.ofPayload_eq_ok_iff]
    exact hp
  · intro ts h
    cases h

theorem modeFor_eq_ok_iff (choice : Option Payload) (mode : AngleMode) :
    Evaluator.modeFor ⟨.standard⟩ choice = .ok mode ↔
      Choice .degrees AngleMode.Names choice mode := by
  refine eq_ok_iff_choice (Evaluator.modeFor ⟨.standard⟩) rfl rfl (fun p hp mode => ?_) ?_
  · rw [Evaluator.modeFor, AngleMode.ofPayload_eq_ok_iff]
    exact hp
  · intro mode h
    cases h

/-! ### What a step makes -/

/-- That a step at the given time makes an entry. -/
inductive Makes (ar : Arithmetic) (now : Int) : HistoryStep → HistoryEntry → Prop where
  /-- An addition makes the one that it is given. -/
  | add {choice : Option Payload} {ts : Int} (hts : Choice now Timestamp.Stands choice ts)
      (expression result : String) :
      Makes ar now (.add expression result choice) ⟨expression, result, ts⟩
  /-- An evaluation makes one of the value, if there is a value. -/
  | evaluate {choice : Option Payload} {mode : AngleMode}
      (hmode : Choice .degrees AngleMode.Names choice mode) {expression : String} {x : Binary64}
      (hx : Expression.value ar mode expression = .ok x) :
      Makes ar now (.evaluate expression choice) ⟨expression, Display.text x, now⟩

/-- That a step is refused, which it is for a value that comes with it. -/
inductive Refused : HistoryStep → Prop where
  /-- A timestamp is given that is none. -/
  | add {p : Payload} (hgiven : p ≠ .null) (hnone : ∀ ts, ¬ Timestamp.Stands p ts)
      (expression result : String) : Refused (.add expression result (some p))
  /-- A mode is given that is none. -/
  | evaluate {p : Payload} (hgiven : p ≠ .null) (hnone : ∀ mode, ¬ AngleMode.Names p mode)
      (expression : String) : Refused (.evaluate expression (some p))

/-- Whether a step replaces all the entries that there are. -/
def replaces : HistoryStep → Bool
  | .start _ | .restore .. | .reload _ | .clear => true
  | .add .. | .evaluate .. => false

/-- The entry that a step at the given time makes: an addition whose timestamp is one, and an
    evaluation that has a value in a mode that is one. -/
def made? (ar : Arithmetic) (now : Int) : HistoryStep → Option HistoryEntry
  | .add expression result timestamp =>
    (History.timestampFor now timestamp).toOption.map fun ts => ⟨expression, result, ts⟩
  | .evaluate expression mode =>
    (Evaluator.modeFor ⟨.standard⟩ mode).toOption.bind fun mode =>
      (Expression.value ar mode expression).toOption.map fun x =>
        ⟨expression, Display.text x, now⟩
  | .start _ | .restore .. | .reload _ | .clear => none

/-- The entry that a step makes. -/
theorem made?_eq_some_iff {ar : Arithmetic} {now : Int} {step : HistoryStep} {e : HistoryEntry} :
    step.made? ar now = some e ↔ step.Makes ar now e := by
  constructor
  · intro h
    cases step with
    | add expression result choice =>
        rcases Option.map_eq_some_iff.mp h with ⟨ts, hts, rfl⟩
        exact .add ((timestampFor_eq_ok_iff _ _).mp (toOption_eq_some_iff.mp hts)) _ _
    | evaluate expression choice =>
        rcases Option.bind_eq_some_iff.mp h with ⟨mode, hmode, hvalue⟩
        rcases Option.map_eq_some_iff.mp hvalue with ⟨x, hx, rfl⟩
        exact .evaluate ((modeFor_eq_ok_iff _ _).mp (toOption_eq_some_iff.mp hmode))
          (toOption_eq_some_iff.mp hx)
    | start _ | restore _ _ | reload _ | clear => simp only [made?, reduceCtorEq] at h
  · intro h
    cases h with
    | add hts expression result =>
        rw [made?, (timestampFor_eq_ok_iff _ _).mpr hts]
        rfl
    | evaluate hmode hx =>
        rw [made?, (modeFor_eq_ok_iff _ _).mpr hmode]
        exact Option.map_eq_some_iff.mpr ⟨_, toOption_eq_some_iff.mpr hx, rfl⟩

/-! ### Which steps are refused -/

/-- An addition is refused because there is no timestamp to be read. -/
theorem refused_add_iff (now : Int) {expression result : String} {choice : Option Payload} :
    Refused (.add expression result choice) ↔
      ∃ r, History.timestampFor now choice = .error r := by
  rw [eq_error_iff_misfit _ timestampFor_eq_ok_iff]
  constructor
  · intro h
    cases h with
    | @add p hgiven hnone _ _ => exact ⟨p, rfl, hgiven, hnone⟩
  · rintro ⟨p, rfl, hgiven, hnone⟩
    exact .add hgiven hnone expression result

/-- An evaluation is refused because there is no mode to be read. -/
theorem refused_evaluate_iff {expression : String} {choice : Option Payload} :
    Refused (.evaluate expression choice) ↔
      ∃ u, Evaluator.modeFor ⟨.standard⟩ choice = .error u := by
  rw [eq_error_iff_misfit _ modeFor_eq_ok_iff]
  constructor
  · intro h
    cases h with
    | @evaluate p hgiven hnone _ => exact ⟨p, rfl, hgiven, hnone⟩
  · rintro ⟨p, rfl, hgiven, hnone⟩
    exact .evaluate hgiven hnone expression

/-- The steps that replace the entries are never refused. -/
theorem Refused.replaces_eq_false {step : HistoryStep} (h : step.Refused) :
    step.replaces = false := by
  cases h <;> rfl

end HistoryStep

namespace History

/-! ### What comes of a step -/

variable (ar : Arithmetic) (now : Int) (h : History) {step : HistoryStep}

/-- The entry of an evaluation is one of the value. -/
theorem entryOf?_evaluate (e : Evaluator) (expression : String) (mode : Option AngleMode) :
    entryOf? now (e.evaluate ar expression mode) =
      (Expression.value ar (mode.getD e.mode) expression).toOption.map fun x =>
        ⟨expression, Display.text x, now⟩ :=
  Option.map_map _ _ _

/-- A refused step has a refusal beside the history as it was. -/
theorem perform_of_refused (hstep : step.Refused) :
    step.made? ar now = none ∧ ∃ r, perform ar now h step = (.error r, h) := by
  cases step with
  | add expression result choice =>
      rcases (HistoryStep.refused_add_iff now).mp hstep with ⟨r, hr⟩
      refine ⟨?_, r, ?_⟩
      · rw [HistoryStep.made?, hr]
        rfl
      · rw [perform, HistoryStep.revise, hr]
        rfl
  | evaluate expression choice =>
      rcases HistoryStep.refused_evaluate_iff.mp hstep with ⟨u, hu⟩
      refine ⟨?_, .mode u, ?_⟩
      · rw [HistoryStep.made?, hu]
        rfl
      · rw [perform, HistoryStep.revise]
        simp only [hu]
        rfl
  | start _ | restore _ _ | reload _ | clear => cases hstep

/-- Any other step has the entry that it makes, if it makes one, beside the history after it. -/
theorem perform_of_not_refused (hstep : ¬ step.Refused) :
    perform ar now h step = (.ok (step.made? ar now), h.after ar (now, step)) := by
  cases step with
  | add expression result choice =>
      cases hts : timestampFor now choice with
      | error r => exact absurd ((HistoryStep.refused_add_iff now).mpr ⟨r, hts⟩) hstep
      | ok ts =>
          rw [after, perform, HistoryStep.revise, HistoryStep.made?, hts]
          rfl
  | evaluate expression choice =>
      cases hmode : Evaluator.modeFor ⟨.standard⟩ choice with
      | error u => exact absurd (HistoryStep.refused_evaluate_iff.mpr ⟨u, hmode⟩) hstep
      | ok mode =>
          have hmade : HistoryStep.made? ar now (.evaluate expression choice) =
              entryOf? now (Evaluator.evaluate ar ⟨.standard⟩ expression (some mode)) := by
            rw [HistoryStep.made?, hmode, entryOf?_evaluate]
            rfl
          rw [after, perform, HistoryStep.revise, hmade]
          simp only [hmode]
          rfl
  | start _ | restore _ _ | reload _ | clear => rfl

/-- A step that does not replace the entries adds the one that it makes, if it makes one. -/
theorem after_eq_add (hstep : step.replaces = false) :
    h.after ar (now, step) = match step.made? ar now with
      | some e => h.add e
      | none => h := by
  cases step with
  | add expression result choice =>
      rw [after, perform, HistoryStep.revise, HistoryStep.made?]
      cases timestampFor now choice with
      | error r => rfl
      | ok ts => rfl
  | evaluate expression choice =>
      rw [after, perform, HistoryStep.revise, HistoryStep.made?]
      cases Evaluator.modeFor ⟨.standard⟩ choice with
      | error u => rfl
      | ok mode =>
          change h.addEvaluation now (Evaluator.evaluate ar ⟨.standard⟩ expression (some mode)) = _
          rw [addEvaluation, entryOf?_evaluate]
          rfl
  | start _ | restore _ _ | reload _ | clear => exact Bool.noConfusion hstep

end History

end DeskCalc
