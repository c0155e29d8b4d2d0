import DeskCalc.Proofs.Binary64.Integral
import DeskCalc.Proofs.Text.Integer
import DeskCalc.Timestamp

/-!
# The Timestamps That a Value Can Be

Which values from outside stand for a timestamp, and for which one, said without the reader. A
truth value counts as a number, a fraction is cut off towards zero, and a text has to be written
as an integer. Nothing, lists and objects stand for none, and neither do NaN and the infinities.

## Main definitions

* `Timestamp.Stands`: That a value stands for a timestamp.

## Theorems

* `Timestamp.ofPayload_eq_ok_iff`: What is read from a value.
* `Timestamp.Stands.unique`: A value stands for one timestamp at most.
* `Timestamp.eq_zero_of_falsy`: What counts as not given stands for zero, if for anything.
-/

namespace DeskCalc

namespace Timestamp

/-- That a value from outside stands for a timestamp. -/
inductive Stands : Payload → Int → Prop where
  /-- A truth value is one or zero. -/
  | bool (b : Bool) : Stands (.bool b) b.toNat
  /-- A whole number is the timestamp. -/
  | int (n : Int) : Stands (.int n) n
  /-- Of a finite number that is not negative, the fraction is dropped. -/
  | floor {x : Binary64} (hx : x.isFinite = true) (h : 0 ≤ x.toRat) :
      Stands (.float x) ⌊x.toRat⌋
  /-- Of a negative one as well, so it is rounded up. -/
  | ceil {x : Binary64} (hx : x.isFinite = true) (h : x.toRat < 0) :
      Stands (.float x) ⌈x.toRat⌉
  /-- A text has to be written as an integer. -/
  | text {s : String} {n : Int} (h : Text.WritesInteger s.toList n) : Stands (.text s) n

theorem stands_truncateRat {x : Binary64} (hx : x.isFinite = true) :
    Stands (.float x) (Binary64.truncateRat x.toRat) := by
  rw [Binary64.truncateRat_eq]
  by_cases h : 0 ≤ x.toRat
  · rw [if_pos h]
    exact .floor hx h
  · rw [if_neg h]
    exact .ceil hx (not_le.mp h)

/-- What is read from a value. -/
theorem ofPayload_eq_ok_iff {p : Payload} {n : Int} : ofPayload p = .ok n ↔ Stands p n := by
  constructor
  · intro h
    cases p with
    | bool b =>
        rw [ofPayload, Except.ok.injEq] at h
        cases b with
        | false => exact h ▸ .bool false
        | true => exact h ▸ .bool true
    | int m =>
        rw [ofPayload, Except.ok.injEq] at h
        exact h ▸ .int m
    | float x =>
        cases x with
        | nan | inf _ => simp only [ofPayload, Binary64.truncate?, reduceCtorEq] at h
        | finite negative m q canonical =>
            simp only [ofPayload, Binary64.truncate?, Except.ok.injEq] at h
            exact h ▸ stands_truncateRat rfl
    | text s =>
        rw [ofPayload] at h
        split at h
        · next m hm =>
            rw [Except.ok.injEq] at h
            exact h ▸ .text (Text.readInteger_eq_ok_iff.mp hm)
        · simp only [reduceCtorEq] at h
        · simp only [reduceCtorEq] at h
    | null | list _ | object _ => simp only [ofPayload, reduceCtorEq] at h
  · intro h
    cases h with
    | bool b => cases b <;> rfl
    | int m => rfl
    | @floor x hx h =>
        rw [ofPayload, Binary64.truncate?_of_isFinite hx, Binary64.truncateRat_eq, if_pos h]
    | @ceil x hx h =>
        rw [ofPayload, Binary64.truncate?_of_isFinite hx, Binary64.truncateRat_eq,
          if_neg (not_le.mpr h)]
    | text h => rw [ofPayload, Text.readInteger_eq_ok_iff.mpr h]

/-- A value stands for one timestamp at most. -/
theorem Stands.unique {p : Payload} {m n : Int} (hm : Stands p m) (hn : Stands p n) : m = n := by
  have h := (ofPayload_eq_ok_iff.mpr hm).symm.trans (ofPayload_eq_ok_iff.mpr hn)
  exact Except.ok.inj h

-- The values that count as not given are the zeros, which stand for zero, and others that stand
-- for nothing.
theorem eq_zero_of_falsy {p : Payload} {n : Int} (hp : p.isTruthy = false) (hn : Stands p n) :
    n = 0 := by
  cases hn with
  | bool b =>
      obtain rfl : b = false := hp
      rfl
  | int m => exact bne_eq_false_iff_eq.mp hp
  | @floor x hx h =>
      rw [Binary64.toRat_of_isZero (Bool.not_eq_eq_eq_not.mp hp), Int.floor_zero]
  | @ceil x hx h =>
      rw [Binary64.toRat_of_isZero (Bool.not_eq_eq_eq_not.mp hp), Int.ceil_zero]
  | @text s m h =>
      -- The empty text is not written as an integer.
      obtain rfl : s = "" := bne_eq_false_iff_eq.mp hp
      have hread := Text.readInteger_eq_ok_iff.mpr h
      have hempty : Text.readInteger "" = .error .malformed := by decide
      rw [hempty] at hread
      simp only [reduceCtorEq] at hread

end Timestamp

end DeskCalc
