import DeskCalc.Calendar
import DeskCalc.Evaluation
import DeskCalc.Timestamp

/-!
# History

The calculations that have been made, newest first, up to a limit. The results are kept as the
texts that were shown.

A history can be saved as records and restored from them. What is restored comes from outside,
so records of the wrong shape are passed over, and a timestamp that is none counts as zero.

A negative limit is allowed. It cuts that many entries off the old end after every addition,
which leaves nothing of a history that starts empty.

## Main definitions

* `HistoryEntry`: A calculation.
* `History`: The entries and their limit.
* `History.add`, `History.addEvaluation`, `History.clear`: Changes.
* `History.toRecords`, `History.ofRecords`: Saving and restoring.
* `History.toTable?`: The entries with dates instead of timestamps.
* `History.storageKey`: The name under which a calculator's history is stored.

## Theorems

* `History.restoreEntries_eq_take`: What is restored is the first usable records.
-/

namespace DeskCalc

/-- A calculation that has been made. -/
structure HistoryEntry where
  /-- The text that was evaluated. -/
  expression : String
  /-- The text that its value was shown as. -/
  result : String
  /-- When, in milliseconds since the start of 1970. -/
  timestamp : Int
  deriving DecidableEq, Repr

namespace HistoryEntry

/-- The entry as a record. -/
def toRecord (e : HistoryEntry) : Payload :=
  .object [("expr", .text e.expression), ("result", .text e.result), ("ts", .int e.timestamp)]

/-- The timestamp in a record, zero if there is none that can be used. -/
def timestampOf (record : Payload) : Int :=
  match record.field? "ts" with
  | some p => if p.isTruthy then (Timestamp.ofPayload p).toOption.getD 0 else 0
  | none => 0

/-- The entry that a record describes, if it has both texts. -/
def ofRecord? (record : Payload) : Option HistoryEntry :=
  match record.field? "expr", record.field? "result" with
  | some (.text expression), some (.text result) =>
    some ⟨expression, result, timestampOf record⟩
  | _, _ => none

end HistoryEntry

/-- The calculations that have been made, newest first. -/
structure History where
  /-- How many are kept. -/
  limit : Int
  /-- The calculations. -/
  entries : List HistoryEntry
  deriving DecidableEq, Repr

namespace History

/-- The limit where none is given. -/
def standardLimit : Int := 50

/-- A history without entries. -/
def empty (limit : Int) : History := ⟨limit, []⟩

/-- The entries that stay when the list is cut at the limit, which counts from the end if it
    is negative. -/
def cut (limit : Int) (entries : List HistoryEntry) : List HistoryEntry :=
  if 0 ≤ limit then entries.take limit.toNat
  else entries.take (entries.length + limit).toNat

/-- A limit that is not negative keeps that many entries. -/
theorem cut_eq_take {limit : Int} (entries : List HistoryEntry) (h : 0 ≤ limit) :
    cut limit entries = entries.take limit.toNat := by
  simp [cut, h]

/-- The history with a new entry. -/
def add (h : History) (entry : HistoryEntry) : History :=
  { h with entries := cut h.limit (entry :: h.entries) }

/-- The entry for an evaluation at the given time, if it has a value. -/
def entryOf? (now : Int) (e : Evaluation) : Option HistoryEntry :=
  e.formatted?.map fun text => ⟨e.expression, text, now⟩

/-- The history after an evaluation at the given time. Without a value nothing changes. -/
def addEvaluation (h : History) (now : Int) (e : Evaluation) : History :=
  match entryOf? now e with
  | some entry => h.add entry
  | none => h

/-- The history without its entries. -/
def clear (h : History) : History := { h with entries := [] }

/-- The entries as records. -/
def toRecords (h : History) : Payload := .list (h.entries.map HistoryEntry.toRecord)

/-- The entries that records describe, up to the limit and given how many there are already. -/
def restoreEntries (limit : Int) : (count : Nat) → List Payload → List HistoryEntry
  | _, [] => []
  | count, record :: rest =>
    if limit ≤ count then []
    else match HistoryEntry.ofRecord? record with
      | some entry => entry :: restoreEntries limit (count + 1) rest
      | none => restoreEntries limit count rest

/-- Records of the wrong shape do not use up the limit. -/
theorem restoreEntries_eq_take (limit : Int) (count : Nat) (records : List Payload) :
    restoreEntries limit count records =
      (records.filterMap HistoryEntry.ofRecord?).take (limit - count).toNat := by
  induction records generalizing count with
  | nil => simp [restoreEntries]
  | cons r rest ih =>
    simp only [restoreEntries]
    split
    · next h =>
      have : (limit - count).toNat = 0 := by omega
      simp [this]
    · next h =>
      cases hr : HistoryEntry.ofRecord? r with
      | none => simp [hr, ih]
      | some e =>
        have : (limit - count).toNat = (limit - (count + 1 : Nat)).toNat + 1 := by omega
        simp only [List.filterMap_cons, hr, this, List.take_succ_cons, ih]

/-- The history that records describe. -/
def ofRecords (limit : Int) : Payload → History
  | .list records => ⟨limit, restoreEntries limit 0 records⟩
  | _ => empty limit

/-- The entries with dates instead of timestamps, if these can stand in one column. -/
def toTable? (h : History) : Option (List (String × String × String)) :=
  (Calendar.words? (h.entries.map HistoryEntry.timestamp)).map fun words =>
    h.entries.zipWith (fun e word => (e.expression, e.result, Calendar.ofWord word)) words

/-- The name under which the history of the given calculator is stored. -/
def storageKey (instanceId : Payload) : String :=
  "mod_scicalc_history_v1_" ++ instanceId.plainText

end History

end DeskCalc
