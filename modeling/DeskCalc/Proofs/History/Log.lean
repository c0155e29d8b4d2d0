import DeskCalc.Proofs.History.Records
import DeskCalc.Proofs.History.Step
import Mathlib.Data.List.DropRight

/-!
# The Log Behind a History

What a history would be if it had no limit, and that the limit is all that keeps it from being
that.

A log keeps apart what the last restoring step restored and what has been made since. Each step
that makes an entry puts it in front, and nothing is ever dropped for want of room. A history
drops its oldest entry with almost every addition, so the two agree only as far as the limit
reaches. That is enough: an entry that a history has dropped would be beyond the limit from then
on, since entries are only put in front of it (`History.cut_cons_take`).

The one step that sees the limit in the log too is saving and restoring, because what was beyond
the old limit has not been saved.

## Main definitions

* `HistoryLog`: What was restored, and what has been made since.
* `HistoryLog.after`, `HistoryLog.afterAll`: The log after one step, and after several.
* `HistoryLog.shown`: The history that shows as much of a log as its limit allows.

## Theorems

* `HistoryLog.after_shown`: A step of the history is a step of the log.
* `HistoryLog.made_afterAll`: What has been made since the entries were last replaced.
* `History.performAll_eq_shown`: A history shows the newest entries of its log.
-/

namespace DeskCalc

/-- All entries that a history would hold if it had room for them. -/
structure HistoryLog where
  /-- How many of them there is room for. -/
  limit : Int
  /-- The entries made since all were last replaced, newest first. -/
  made : List HistoryEntry
  /-- The entries that were restored then, and not cleared. -/
  restored : List HistoryEntry

namespace HistoryLog

/-- The entries, newest first. -/
def entries (l : HistoryLog) : List HistoryEntry := l.made ++ l.restored

/-- The history that shows as many of the newest entries as there is room for. A negative limit
    leaves room for none. -/
def shown (l : HistoryLog) : History := ⟨l.limit, l.entries.take l.limit.toNat⟩

/-- The log without entries. -/
def empty (limit : Int) : HistoryLog := ⟨limit, [], []⟩

/-- The log of entries that have just been restored. -/
def restoring (limit : Int) (entries : List HistoryEntry) : HistoryLog :=
  ⟨limit, [], entries.take limit.toNat⟩

/-- The log after a step at the given time. -/
def after (ar : Arithmetic) (l : HistoryLog) (step : Int × HistoryStep) : HistoryLog :=
  match step.2 with
  | .start limit => empty (limit.getD History.standardLimit)
  | .restore records limit =>
    restoring (limit.getD History.standardLimit) (History.usable records)
  | .reload limit => restoring (limit.getD History.standardLimit) l.shown.entries
  | .clear => empty l.limit
  | .add .. | .evaluate .. => { l with made := (step.2.made? ar step.1).toList ++ l.made }

/-- The log after several steps, each with its time. -/
def afterAll (ar : Arithmetic) (l : HistoryLog) (steps : List (Int × HistoryStep)) : HistoryLog :=
  steps.foldl (after ar) l

end HistoryLog

/-! ### One step -/

namespace History

/-- To put an entry in front and cut is to cut with the entry in front: what the limit has
    already cut off would be cut off again. -/
theorem cut_cons_take (limit : Int) (e : HistoryEntry) (entries : List HistoryEntry) :
    cut limit (e :: entries.take limit.toNat) = (e :: entries).take limit.toNat := by
  by_cases hlimit : 0 ≤ limit
  · rw [cut_eq_take _ hlimit]
    cases limit.toNat with
    | zero => rw [List.take_zero, List.take_zero]
    | succ n => rw [List.take_succ_cons, List.take_succ_cons, List.take_take,
        Nat.min_eq_left (Nat.le_succ n)]
  · -- A negative limit has left nothing, and takes the new entry off the end as well.
    have hnone : limit.toNat = 0 := by omega
    rw [cut, if_neg hlimit, hnone, List.take_zero, List.take_zero, List.length_singleton]
    have hend : (((1 : Nat) : Int) + limit).toNat = 0 := by omega
    rw [hend, List.take_zero]

end History

namespace HistoryLog

theorem shown_empty (limit : Int) : (empty limit).shown = .empty limit := by
  rw [shown, entries, empty, List.append_nil, List.take_nil]
  rfl

theorem shown_restoring (limit : Int) (es : List HistoryEntry) :
    (restoring limit es).shown = ⟨limit, es.take limit.toNat⟩ := by
  rw [shown, entries, restoring, List.nil_append, List.take_take, Nat.min_self]

section

variable (ar : Arithmetic)

theorem after_of_made {step : Int × HistoryStep} (l : HistoryLog)
    (hstep : step.2.replaces = false) :
    l.after ar step = { l with made := (step.2.made? ar step.1).toList ++ l.made } := by
  rcases step with ⟨now, step⟩
  cases step with
  | add _ _ _ | evaluate _ _ => rfl
  | start _ | restore _ _ | reload _ | clear => exact Bool.noConfusion hstep

/-- After the entries have been replaced, none has been made. -/
theorem made_after_of_replaces {step : Int × HistoryStep} (l : HistoryLog)
    (hstep : step.2.replaces = true) : (l.after ar step).made = [] := by
  rcases step with ⟨now, step⟩
  cases step with
  | add _ _ _ | evaluate _ _ => exact Bool.noConfusion hstep
  | start _ | restore _ _ | reload _ | clear => rfl

/-- A step of the history is a step of the log. -/
theorem after_shown (l : HistoryLog) (step : Int × HistoryStep) :
    l.shown.after ar step = (l.after ar step).shown := by
  rcases step with ⟨now, step⟩
  cases step with
  | start limit => exact (shown_empty _).symm
  | restore records limit => exact (History.ofRecords_eq _ _).trans (shown_restoring _ _).symm
  | reload limit =>
      exact (History.ofRecords_toRecords _ l.shown).trans (shown_restoring _ _).symm
  | clear => exact (shown_empty _).symm
  | add _ _ _ | evaluate _ _ =>
      rw [History.after_eq_add ar now _ rfl, after_of_made ar l rfl]
      cases HistoryStep.made? ar now _ with
      | none => rfl
      | some e => exact congrArg (History.mk l.limit) (History.cut_cons_take l.limit e l.entries)

/-! ### Several steps -/

/-- A run of the history is a run of the log. -/
theorem performAll_shown (l : HistoryLog) (steps : List (Int × HistoryStep)) :
    l.shown.performAll ar steps = (l.afterAll ar steps).shown := by
  induction steps generalizing l with
  | nil => rfl
  | cons step steps ih =>
      rw [History.performAll, List.foldl_cons, after_shown]
      exact ih (l.after ar step)

/-- What has been made is what the steps have made since one of them last replaced the entries,
    the newest first. -/
theorem made_afterAll (limit : Int) (steps : List (Int × HistoryStep)) :
    ((empty limit).afterAll ar steps).made =
      ((steps.rtakeWhile fun step => !step.2.replaces).filterMap fun step =>
        step.2.made? ar step.1).reverse := by
  induction steps using List.reverseRecOn with
  | nil => rfl
  | append_singleton steps step ih =>
      rw [afterAll, List.foldl_concat]
      by_cases hstep : step.2.replaces = true
      · rw [List.rtakeWhile_concat_neg _ _ _ (by simp only [hstep, Bool.not_true,
          Bool.false_eq_true, not_false_eq_true])]
        exact made_after_of_replaces ar _ hstep
      · have hadds : step.2.replaces = false := Bool.eq_false_iff.mpr hstep
        rw [List.rtakeWhile_concat_pos _ _ _ (by simp only [hadds, Bool.not_false]),
          List.filterMap_append, List.reverse_append, after_of_made ar _ hadds]
        change (step.2.made? ar step.1).toList ++ ((empty limit).afterAll ar steps).made = _
        rw [ih]
        -- The last step has made one entry or none.
        cases hmade : step.2.made? ar step.1 with
        | none => simp only [List.filterMap_cons, List.filterMap_nil, hmade]; rfl
        | some e => simp only [List.filterMap_cons, List.filterMap_nil, hmade]; rfl

end

end HistoryLog

/-- A history that has started empty shows, after any steps, as many of the newest entries of
    its log as the limit allows: those that the steps have made since one of them last replaced
    all entries, the newest first, and after them those that were restored then. Whatever history a
    step meets, it makes the entry that `HistoryStep.Makes` says, and it is refused just if it is
    one that `HistoryStep.Refused` says. A step that is refused, and any other that makes no entry
    and replaces none, leaves the history as it was. -/
theorem History.performAll_eq_shown (ar : Arithmetic) (limit : Int)
    (steps : List (Int × HistoryStep)) :
    (empty limit).performAll ar steps = ((HistoryLog.empty limit).afterAll ar steps).shown ∧
      ((HistoryLog.empty limit).afterAll ar steps).made =
        ((steps.rtakeWhile fun step => !step.2.replaces).filterMap fun step =>
          step.2.made? ar step.1).reverse ∧
      (((empty limit).performAll ar steps).entries.length : Int) ≤
        max ((empty limit).performAll ar steps).limit 0 ∧
      ∀ (h : History) (now : Int) (step : HistoryStep),
        (∀ e, step.made? ar now = some e ↔ step.Makes ar now e) ∧
        (step.Refused → step.replaces = false ∧ step.made? ar now = none ∧
          ∃ r, perform ar now h step = (.error r, h)) ∧
        (¬ step.Refused →
          perform ar now h step = (.ok (step.made? ar now), h.after ar (now, step))) ∧
        (step.replaces = false → step.made? ar now = none → h.after ar (now, step) = h) := by
  have hshown : (empty limit).performAll ar steps =
      ((HistoryLog.empty limit).afterAll ar steps).shown := by
    rw [← HistoryLog.shown_empty]
    exact HistoryLog.performAll_shown ar _ steps
  refine ⟨hshown, HistoryLog.made_afterAll ar limit steps, ?_, fun h now step =>
    ⟨fun e => HistoryStep.made?_eq_some_iff, fun hrefused => ?_,
      fun hstep => perform_of_not_refused ar now h hstep, ?_⟩⟩
  · -- Showing takes no more than the limit.
    rw [hshown]
    have hlength : ((HistoryLog.empty limit).afterAll ar steps).shown.entries.length ≤
        ((HistoryLog.empty limit).afterAll ar steps).shown.limit.toNat := List.length_take_le _ _
    omega
  · exact ⟨hrefused.replaces_eq_false, perform_of_refused ar now h hrefused⟩
  · intro hadds hnone
    rw [after_eq_add ar now h hadds, hnone]

/-- Six steps of which the third is refused for its timestamp and the fourth for its mode, while the
    fifth has no value. Of the entries that the other three make, two are kept. -/
theorem History.performAll_eq_shown_refused :
    let steps : List (Int × HistoryStep) := [(1, .add "1" "1" none),
      (2, .evaluate "2+2" (some (.text " Rad\n"))), (3, .add "3" "3" (some (.text "soon"))),
      (4, .evaluate "4" (some (.text "grad"))), (5, .evaluate "5/0" none),
      (6, .add "6" "6" (some (.text "+60")))]
    let kept : History := ⟨2, [⟨"6", "6", 60⟩, ⟨"2+2", "4", 2⟩]⟩
    (empty 2).performAll .standard steps = kept ∧
      ((steps.rtakeWhile fun step => !step.2.replaces).filterMap fun step =>
        step.2.made? .standard step.1).reverse = kept.entries ++ [⟨"1", "1", 1⟩] ∧
      (HistoryStep.add "3" "3" (some (.text "soon"))).Refused ∧
      (∃ r, perform .standard 3 kept (.add "3" "3" (some (.text "soon"))) = (.error r, kept)) ∧
      (HistoryStep.evaluate "4" (some (.text "grad"))).Refused ∧
      ∃ r, perform .standard 4 kept (.evaluate "4" (some (.text "grad"))) = (.error r, kept) := by
  intro steps kept
  have hsoon : Timestamp.ofPayload (.text "soon") = .error (.malformed "soon") := rfl
  have hgrad : AngleMode.ofPayload (.text "grad") = .error ⟨.text "grad"⟩ := rfl
  have htimestamp : (HistoryStep.add "3" "3" (some (.text "soon"))).Refused := by
    refine .add (by simp only [ne_eq, reduceCtorEq, not_false_eq_true]) (fun ts hts => ?_) "3" "3"
    rw [← Timestamp.ofPayload_eq_ok_iff, hsoon] at hts
    simp only [reduceCtorEq] at hts
  have hmode : (HistoryStep.evaluate "4" (some (.text "grad"))).Refused := by
    refine .evaluate (by simp only [ne_eq, reduceCtorEq, not_false_eq_true]) (fun m hm => ?_) "4"
    rw [← AngleMode.ofPayload_eq_ok_iff, hgrad] at hm
    simp only [reduceCtorEq] at hm
  rcases performAll_eq_shown .standard 2 steps with ⟨hshown, hmade, -, hsteps⟩
  have hlog : ((HistoryLog.empty 2).afterAll .standard steps).made =
      kept.entries ++ [⟨"1", "1", 1⟩] := by
    decide +kernel
  refine ⟨?_, hmade ▸ hlog, htimestamp, ((hsteps kept 3 _).2.1 htimestamp).2.2, hmode,
    ((hsteps kept 4 _).2.1 hmode).2.2⟩
  rw [hshown, HistoryLog.shown, HistoryLog.entries, hlog]
  rfl

end DeskCalc
