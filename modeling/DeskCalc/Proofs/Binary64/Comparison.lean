import DeskCalc.Binary64.Arithmetic
import DeskCalc.Proofs.Binary64.Rounding

/-!
# Comparing Finite Numbers

Among finite numbers, comparison is that of their values. The values do not tell the two zeros
apart, so they are equal although they are not the same.

## Theorems

* `Binary64.le_eq_not_lt`: Finite numbers are in order.
* `Binary64.lt_eq_true_iff`, `Binary64.le_eq_true_iff`, `Binary64.eq_eq_true_iff`: Comparison is
  that of the values.
-/

namespace DeskCalc

namespace Binary64

variable {x y : Binary64}

theorem isZero_eq_false (negative : Bool) {m : Nat} {q : Int} (h : Canonical m q) (hm : m ≠ 0) :
    (finite negative m q h).isZero = false :=
  beq_false_of_ne hm

theorem toRat_of_isZero (hx : x.isZero = true) : x.toRat = 0 := by
  cases x with
  | nan => rfl
  | inf _ => rfl
  | finite negative m q h =>
      have hm : m = 0 := eq_of_beq hx
      rw [toRat, hm, Nat.cast_zero, neg_zero, ite_self, zero_mul]

theorem le_eq_not_lt (hx : x.isFinite = true) (hy : y.isFinite = true) : x.le y = !y.lt x := by
  cases x with
  | nan => exact Bool.noConfusion hx
  | inf _ => exact Bool.noConfusion hx
  | finite =>
      cases y with
      | nan => exact Bool.noConfusion hy
      | inf _ => exact Bool.noConfusion hy
      | finite =>
          rw [le, lt, eq, lt, ← Bool.decide_or, ← decide_not]
          exact decide_eq_decide.mpr (le_iff_lt_or_eq.symm.trans not_lt.symm)

theorem lt_eq_true_iff (hx : x.isFinite = true) (hy : y.isFinite = true) :
    x.lt y = true ↔ x.toRat < y.toRat := by
  cases x with
  | nan | inf _ => exact Bool.noConfusion hx
  | finite =>
      cases y with
      | nan | inf _ => exact Bool.noConfusion hy
      | finite => exact decide_eq_true_iff

theorem le_eq_true_iff (hx : x.isFinite = true) (hy : y.isFinite = true) :
    x.le y = true ↔ x.toRat ≤ y.toRat := by
  rw [le_eq_not_lt hx hy, Bool.not_eq_true', ← Bool.not_eq_true, lt_eq_true_iff hy hx, not_lt]

/-- Finite numbers are equal if they have the same value, whatever the sign of zero. -/
theorem eq_eq_true_iff (hx : x.isFinite = true) (hy : y.isFinite = true) :
    x.eq y = true ↔ x.toRat = y.toRat := by
  cases x with
  | nan | inf _ => exact Bool.noConfusion hx
  | finite =>
      cases y with
      | nan | inf _ => exact Bool.noConfusion hy
      | finite => exact decide_eq_true_iff

/-- Finite numbers with the same value are equal. -/
theorem eq_of_toRat_eq (hx : x.isFinite = true) (hy : y.isFinite = true)
    (h : x.toRat = y.toRat) : x.eq y = true :=
  (eq_eq_true_iff hx hy).mpr h

end Binary64

end DeskCalc
