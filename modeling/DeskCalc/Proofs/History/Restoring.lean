import DeskCalc.History.Step
import DeskCalc.Proofs.History.Records
import DeskCalc.Proofs.Timestamp
import Mathlib.Data.List.Forall2

/-!
# Restoring Records That Nobody Vouches For

What a history restored from any payload contains. The loop that restores it breaks off at the
limit, passes over what is no record and puts zero where a timestamp cannot be read, and all of
this happens in between. Here it is said at once: the records that have both texts, in order, the
first of them up to the limit, each as the entry that it describes.

Which entry that is does not depend on the reader. A record has a timestamp if the value under
`ts` stands for one, and otherwise its timestamp is zero. The reader asks first whether the value
counts as given, which makes no difference, since a value that does not stands for zero or for
nothing.

## Main definitions

* `HistoryEntry.Usable`: That a record has both texts.
* `HistoryEntry.Describes`: That a record describes an entry.

## Theorems

* `HistoryEntry.ofRecord?_eq_some_iff`: What is read from a record.
* `History.forall₂_usable`: What is read from several.
* `History.ofRecords_described`: What a restored history contains.
-/

namespace DeskCalc

namespace HistoryEntry

/-- That named values give a timestamp, which is zero where they have none. -/
def GivesTimestamp (fields : List (String × Payload)) (n : Int) : Prop :=
  (∃ p, fields.lookup "ts" = some p ∧ Timestamp.Stands p n) ∨
    n = 0 ∧ ∀ p, fields.lookup "ts" = some p → ∀ m, ¬ Timestamp.Stands p m

/-- That a record has both texts, whatever else it has. -/
inductive Usable : Payload → Prop where
  /-- It is an object. -/
  | object {fields : List (String × Payload)} {expression result : String}
      (hexpression : fields.lookup "expr" = some (.text expression))
      (hresult : fields.lookup "result" = some (.text result)) : Usable (.object fields)

/-- That a record describes an entry. -/
inductive Describes : Payload → HistoryEntry → Prop where
  /-- It is an object with the texts and the timestamp of the entry. -/
  | object {fields : List (String × Payload)} {e : HistoryEntry}
      (hexpression : fields.lookup "expr" = some (.text e.expression))
      (hresult : fields.lookup "result" = some (.text e.result))
      (htimestamp : GivesTimestamp fields e.timestamp) : Describes (.object fields) e

/-! ### One record -/

theorem GivesTimestamp.unique {fields : List (String × Payload)} {m n : Int}
    (hm : GivesTimestamp fields m) (hn : GivesTimestamp fields n) : m = n := by
  rcases hm with ⟨p, hp, hpm⟩ | ⟨rfl, hm⟩
  · rcases hn with ⟨q, hq, hqn⟩ | ⟨-, hn⟩
    · rw [hp, Option.some.injEq] at hq
      subst hq
      exact hpm.unique hqn
    · exact absurd hpm (hn p hp m)
  · rcases hn with ⟨q, hq, hqn⟩ | ⟨rfl, -⟩
    · exact absurd hqn (hm q hq n)
    · rfl

theorem givesTimestamp_timestampOf (fields : List (String × Payload)) :
    GivesTimestamp fields (timestampOf (.object fields)) := by
  unfold GivesTimestamp
  rw [timestampOf, Payload.field?]
  cases hts : fields.lookup "ts" with
  | none => exact .inr ⟨rfl, fun p hp => by simp only [reduceCtorEq] at hp⟩
  | some p =>
      by_cases hstands : ∃ n, Timestamp.Stands p n
      · rcases hstands with ⟨n, hn⟩
        refine .inl ⟨p, rfl, ?_⟩
        by_cases hp : p.isTruthy = true
        · simp only [if_pos hp, Timestamp.ofPayload_eq_ok_iff.mpr hn]
          exact hn
        · simp only [if_neg hp]
          rw [Bool.not_eq_true] at hp
          rwa [← Timestamp.eq_zero_of_falsy hp hn]
      · -- Nothing is read, so zero is put there in either case.
        have hnone : (Timestamp.ofPayload p).toOption = none := by
          cases hread : Timestamp.ofPayload p with
          | error f => rfl
          | ok n => exact absurd ⟨n, Timestamp.ofPayload_eq_ok_iff.mp hread⟩ hstands
        refine .inr ⟨?_, ?_⟩
        · simp only [hnone, Option.getD_none, ite_self]
        · rintro q ⟨⟩ m hm
          exact hstands ⟨m, hm⟩

/-- What is read from a record. -/
theorem ofRecord?_eq_some_iff {r : Payload} {e : HistoryEntry} :
    ofRecord? r = some e ↔ Describes r e := by
  constructor
  · intro h
    unfold ofRecord? at h
    split at h
    · next expression result hexpression hresult =>
        cases r with
        | object fields =>
            rw [Option.some.injEq] at h
            subst h
            exact .object hexpression hresult (givesTimestamp_timestampOf fields)
        | null | bool _ | int _ | float _ | text _ | list _ =>
            simp only [Payload.field?, reduceCtorEq] at hexpression
    · simp only [reduceCtorEq] at h
  · rintro @⟨fields, ⟨expression, result, timestamp⟩, hexpression, hresult, htimestamp⟩
    obtain rfl := htimestamp.unique (givesTimestamp_timestampOf fields)
    unfold ofRecord?
    simp only [Payload.field?, hexpression, hresult]

theorem isSome_ofRecord?_iff {r : Payload} : (ofRecord? r).isSome = true ↔ Usable r := by
  rw [Option.isSome_iff_exists]
  constructor
  · rintro ⟨e, he⟩
    cases ofRecord?_eq_some_iff.mp he with
    | object hexpression hresult _ => exact .object hexpression hresult
  · rintro @⟨fields, expression, result, hexpression, hresult⟩
    exact ⟨⟨expression, result, timestampOf (.object fields)⟩, ofRecord?_eq_some_iff.mpr
      (.object hexpression hresult (givesTimestamp_timestampOf fields))⟩

instance : DecidablePred Usable := fun _ => decidable_of_iff _ isSome_ofRecord?_iff

end HistoryEntry

namespace History

open HistoryEntry

/-! ### Several records -/

/-- What is read from several records. -/
theorem forall₂_usable (records : List Payload) :
    List.Forall₂ Describes (records.filter Usable) (usable (.list records)) := by
  change List.Forall₂ Describes (records.filter Usable) (records.filterMap ofRecord?)
  induction records with
  | nil => exact .nil
  | cons r rest ih =>
      cases hread : ofRecord? r with
      | none =>
          have hr : ¬ Usable r := by
            rw [← isSome_ofRecord?_iff, hread]
            exact Bool.false_ne_true
          rw [List.filterMap_cons_none hread, List.filter_cons_of_neg (by simpa using hr)]
          exact ih
      | some e =>
          have hr : Usable r := by
            rw [← isSome_ofRecord?_iff, hread]
            rfl
          rw [List.filterMap_cons_some hread, List.filter_cons_of_pos (by simpa using hr)]
          exact .cons (ofRecord?_eq_some_iff.mp hread) ih

/-- A record without both texts makes no difference, wherever it stands. -/
theorem usable_passes {r : Payload} (hr : ¬ Usable r) (before after : List Payload) :
    usable (.list (before ++ r :: after)) = usable (.list (before ++ after)) := by
  have hread : ofRecord? r = none := by
    rw [← isSome_ofRecord?_iff, Option.not_isSome_iff_eq_none] at hr
    exact hr
  rw [usable, usable, List.filterMap_append, List.filterMap_append, List.filterMap_cons_none hread]

/-- What a history contains that is restored from any payload. -/
theorem ofRecords_described (ar : Arithmetic) (now : Int) (h : History) (limit : Int)
    (payload : Payload) :
    perform ar now h (.restore payload (some limit)) = (.ok none, ofRecords limit payload) ∧
      (ofRecords limit payload).limit = limit ∧
      ((∀ records, payload ≠ .list records) → (ofRecords limit payload).entries = []) ∧
      (∀ records, payload = .list records →
        List.Forall₂ Describes ((records.filter Usable).take (max limit 0).toNat)
          (ofRecords limit payload).entries) ∧
      (∀ r, Usable r → ∃! e, Describes r e) ∧
      ∀ before r after, payload = .list (before ++ r :: after) → ¬ Usable r →
        ofRecords limit payload = ofRecords limit (.list (before ++ after)) := by
  refine ⟨rfl, ?_, ?_, ?_, ?_, ?_⟩
  · rw [ofRecords_eq]
  · intro hlist
    cases payload with
    | list records => exact absurd rfl (hlist records)
    | null | bool _ | int _ | float _ | text _ | object _ => rfl
  · rintro records rfl
    have hlimit : (max limit 0).toNat = limit.toNat := by omega
    rw [ofRecords_eq, hlimit]
    exact List.forall₂_take _ (forall₂_usable records)
  · intro r hr
    rcases Option.isSome_iff_exists.mp (isSome_ofRecord?_iff.mpr hr) with ⟨e, he⟩
    refine ⟨e, ofRecord?_eq_some_iff.mp he, ?_⟩
    intro f hf
    rw [← ofRecord?_eq_some_iff, he, Option.some.injEq] at hf
    exact hf.symm
  · rintro before r after rfl hr
    rw [ofRecords_eq, ofRecords_eq, usable_passes hr]

/-- A record without a text, one whose timestamp is NaN, one whose timestamp is a text, and one
    more. -/
def mixedRecords : List Payload :=
  [.object [("expr", .int 1), ("result", .text "1")],
    .object [("expr", .text "1+1"), ("result", .text "2"), ("ts", .float .nan)],
    .object [("expr", .text "2*3"), ("result", .text "6"), ("ts", .text " +1_7 ")],
    .object [("expr", .text "7"), ("result", .text "7")]]

/-- Of the mixed records two are restored, and the first is none of them. What is no list restores
    nothing. -/
theorem ofRecords_described_mixed :
    perform .standard 0 (empty 50) (.restore (.list mixedRecords) (some 2)) =
        (.ok none, ⟨2, [⟨"1+1", "2", 0⟩, ⟨"2*3", "6", 17⟩]⟩) ∧
      List.Forall₂ Describes ((mixedRecords.filter Usable).take 2)
        [⟨"1+1", "2", 0⟩, ⟨"2*3", "6", 17⟩] ∧
      ofRecords 2 (.list mixedRecords) = ofRecords 2 (.list mixedRecords.tail) ∧
      (ofRecords 2 (.object [("expr", .text "1"), ("result", .text "1")])).entries = [] := by
  have hrestored : ofRecords 2 (.list mixedRecords) =
      ⟨2, [⟨"1+1", "2", 0⟩, ⟨"2*3", "6", 17⟩]⟩ := rfl
  have hbad : ¬ Usable (.object [("expr", .int 1), ("result", .text "1")]) := by decide
  rcases ofRecords_described .standard 0 (empty 50) 2 (.list mixedRecords) with
    ⟨hperform, _, _, hdescribed, _, hpasses⟩
  refine ⟨?_, ?_, ?_, ?_⟩
  · rw [hperform, hrestored]
  · rw [hrestored] at hdescribed
    exact hdescribed mixedRecords rfl
  · exact hpasses [] _ mixedRecords.tail rfl hbad
  · refine (ofRecords_described .standard 0 (empty 50) 2 _).2.2.1 ?_
    intro records
    simp only [ne_eq, reduceCtorEq, not_false_eq_true]

end History

end DeskCalc
