import DeskCalc.History

/-!
# Saved Entries

What comes back when records are restored. An entry that was saved is restored as it was, its
timestamp included: zero counts as not given, but what stands for it is zero again. So the
records of a history are all usable, and restoring them gives its entries, up to the limit.

## Main definitions

* `History.usable`: The entries that a payload describes, with no limit.

## Theorems

* `HistoryEntry.ofRecord?_toRecord`: A saved entry is restored as it was.
* `History.ofRecords_eq`: Restoring keeps the first usable entries.
* `History.ofRecords_toRecords`: Of a saved history these are its own.
-/

namespace DeskCalc

/-- A timestamp that was saved is restored as it was. -/
theorem HistoryEntry.timestampOf_toRecord (e : HistoryEntry) :
    timestampOf e.toRecord = e.timestamp := by
  change (if (e.timestamp != 0) = true then e.timestamp else 0) = e.timestamp
  by_cases h : e.timestamp = 0
  · rw [h]
    rfl
  · rw [if_pos (bne_iff_ne.mpr h)]

/-- A saved entry is restored as it was. -/
theorem HistoryEntry.ofRecord?_toRecord (e : HistoryEntry) : ofRecord? e.toRecord = some e := by
  change some (⟨e.expression, e.result, timestampOf e.toRecord⟩ : HistoryEntry) = some e
  rw [e.timestampOf_toRecord]

namespace History

/-- The entries that a payload describes, with no limit on their number. -/
def usable : Payload → List HistoryEntry
  | .list records => records.filterMap HistoryEntry.ofRecord?
  | _ => []

/-- Restoring keeps the first usable entries, none if the limit is negative. -/
theorem ofRecords_eq (limit : Int) (records : Payload) :
    ofRecords limit records = ⟨limit, (usable records).take limit.toNat⟩ := by
  cases records with
  | list records =>
      rw [ofRecords, usable, restoreEntries_eq_take, Int.natCast_zero, Int.sub_zero]
  | null | bool _ | int _ | float _ | text _ | object _ =>
      exact congrArg (History.mk limit) List.take_nil.symm

/-- All records of a saved history are usable. -/
theorem usable_toRecords (h : History) : usable h.toRecords = h.entries := by
  rw [toRecords, usable, List.filterMap_map]
  have hsome : HistoryEntry.ofRecord? ∘ HistoryEntry.toRecord = some := by
    funext e
    exact e.ofRecord?_toRecord
  rw [hsome, List.filterMap_some]

/-- What is restored of a saved history are its own first entries. -/
theorem ofRecords_toRecords (limit : Int) (h : History) :
    ofRecords limit h.toRecords = ⟨limit, h.entries.take limit.toNat⟩ := by
  rw [ofRecords_eq, usable_toRecords]

end History

end DeskCalc
