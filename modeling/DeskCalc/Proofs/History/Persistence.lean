import DeskCalc.Proofs.History.Log

/-!
# Histories That Outlive Their Program

A history is saved as records, and what is restored from them should be that history. Entry by
entry it is, so the only thing that could be lost is entries beyond the limit, and a history that
has no more entries than its limit allows loses none.

That a history never has more is an invariant of its steps. It need not be shown for each of
them: a history within its limit is what a log of its entries shows, a step of the history is a
step of that log, and whatever a log shows is within the limit.

What was restored is within its limit even if the records came from elsewhere. So restoring
makes something of any payload that saving and restoring leave alone from then on.

## Main definitions

* `History.Fits`: That a history has no more entries than its limit allows.

## Theorems

* `History.Fits.after`, `History.Fits.performAll`: Steps keep a history within its limit.
* `History.ofRecords_toRecords_eq_self_iff`: Such a history is restored as it was, and no other.
* `History.ofRecords_saved`: What is restored of a saved history.
-/

namespace DeskCalc

namespace History

/-- That a history has no more entries than its limit allows, and none if the limit is
    negative. -/
def Fits (h : History) : Prop := h.entries.length ≤ h.limit.toNat

theorem fits_shown (l : HistoryLog) : l.shown.Fits := List.length_take_le l.limit.toNat l.entries

theorem fits_empty (limit : Int) : (empty limit).Fits := Nat.zero_le limit.toNat

/-- What has been restored, from whatever it was, is within its limit. -/
theorem fits_ofRecords (limit : Int) (records : Payload) : (ofRecords limit records).Fits := by
  rw [ofRecords_eq]
  exact List.length_take_le limit.toNat (usable records)

/-- A history within its limit is what a log of its entries shows. -/
theorem Fits.eq_shown {h : History} (hfits : h.Fits) :
    h = (⟨h.limit, [], h.entries⟩ : HistoryLog).shown := by
  rw [HistoryLog.shown, HistoryLog.entries, List.nil_append, List.take_of_length_le hfits]

/-- A step keeps a history within its limit. -/
theorem Fits.after {h : History} (hfits : h.Fits) (ar : Arithmetic) (step : Int × HistoryStep) :
    (h.after ar step).Fits := by
  rw [hfits.eq_shown, HistoryLog.after_shown]
  exact fits_shown _

/-- So do several steps. -/
theorem Fits.performAll {h : History} (hfits : h.Fits) (ar : Arithmetic)
    (steps : List (Int × HistoryStep)) : (h.performAll ar steps).Fits := by
  induction steps generalizing h with
  | nil => exact hfits
  | cons step steps ih => exact ih (hfits.after ar step)

/-- A history is restored as it was, with its own limit, just if it is within that limit. -/
theorem ofRecords_toRecords_eq_self_iff (h : History) :
    ofRecords h.limit h.toRecords = h ↔ h.Fits := by
  rw [ofRecords_toRecords]
  constructor
  · intro hsame
    have hentries : h.entries.take h.limit.toNat = h.entries := congrArg History.entries hsame
    rw [Fits, ← hentries]
    exact List.length_take_le h.limit.toNat h.entries
  · intro hfits
    rw [List.take_of_length_le hfits]

end History

/-- Saving a history and restoring it gives its newest entries, as many as the new limit allows
    and with their timestamps as they were. With the limit that it had, it is the same history
    again if it was within that limit, as it is after any steps from an empty history. What is
    restored from records of any origin is not changed by being saved and restored once more. -/
theorem History.ofRecords_saved (limit : Int) :
    (∀ h : History, ofRecords limit h.toRecords = ⟨limit, h.entries.take limit.toNat⟩ ∧
      (ofRecords h.limit h.toRecords = h ↔ (h.entries.length : Int) ≤ max h.limit 0)) ∧
      (∀ ar start steps, ofRecords ((empty start).performAll ar steps).limit
        ((empty start).performAll ar steps).toRecords = (empty start).performAll ar steps) ∧
      ∀ records, ofRecords limit (ofRecords limit records).toRecords = ofRecords limit records := by
  refine ⟨fun h => ⟨ofRecords_toRecords limit h, ?_⟩, fun ar start steps => ?_, fun records => ?_⟩
  · rw [ofRecords_toRecords_eq_self_iff, Fits]
    omega
  · rw [ofRecords_toRecords_eq_self_iff]
    exact (fits_empty start).performAll ar steps
  · have hlimit : (ofRecords limit records).limit = limit := by rw [ofRecords_eq]
    have hsame := (ofRecords_toRecords_eq_self_iff _).mpr (fits_ofRecords limit records)
    rwa [hlimit] at hsame

/-- Timestamps of zero and below it come back, and a limit of one keeps the newest entry. -/
example : History.ofRecords 1 (History.toRecords ⟨2, [⟨"1+1", "2", 0⟩, ⟨"2", "2", -5⟩]⟩) =
    ⟨1, [⟨"1+1", "2", 0⟩]⟩ := by
  decide

end DeskCalc
