import DeskCalc.Function
import DeskCalc.Proofs.Binary64.Integral

/-!
# Rounding Halves Up Is Exact

The nearest integer is found from the floor and from what a number exceeds it by, and both the
difference and the next integer are rounded to 53 bits. Neither rounding does any harm.

What a number exceeds its floor by is counted in the same spacing as the number, and it is less
than one. So it has few enough bits, unless the spacing is so fine that not even the numbers below
one half fill 53 bits with it. The number is then just below zero, and what it exceeds its floor by
is more than one half. The rounded difference may be too large in that case, as large as one, but
it cannot fall below one half, which is a number itself.

Everything else follows from that. A difference that is exact is compared as it is, and one that is
not is on the right side of one half before and after it is rounded.

## Theorems

* `Binary64.Precise.fract`: What a number exceeds its floor by.
* `Binary64.half_le_sub_floor_iff`: The comparison with one half.
* `Arithmetic.round_standard`: The nearest integer, halves up.
-/

namespace DeskCalc

namespace Binary64

variable {x y : Binary64}

theorem toRat_half : half.toRat = 1 / 2 := by
  rw [half, toRat, twoPow_eq_zpow, if_neg Bool.false_ne_true]
  norm_num

theorem toRat_one : one.toRat = 1 := by
  rw [one, toRat, twoPow_eq_zpow, if_neg Bool.false_ne_true]
  norm_num

theorem add_of_isFinite (hx : x.isFinite = true) (hy : y.isFinite = true) :
    x.add y = ofRatSigned (x.signBit && y.signBit) (x.toRat + y.toRat) := by
  cases x with
  | nan | inf _ => exact Bool.noConfusion hx
  | finite =>
      cases y with
      | nan | inf _ => exact Bool.noConfusion hy
      | finite => rfl

/-- What a number exceeds its floor by has few enough bits, or it is more than one half. -/
theorem Precise.fract {r : Rat} (hr : Precise r) : Precise (Int.fract r) ∨ 1 / 2 < Int.fract r := by
  rcases hr with ⟨m, q, hm, hq, hvalue⟩
  have hpow : (0 : Rat) < 2 ^ q := zpow_pos (by norm_num) q
  have hbits : |(m : Rat)| < 9007199254740992 := by exact_mod_cast hm
  by_cases hwhole : 0 ≤ q
  · -- The number is an integer.
    have hinteger : r = (m * 2 ^ q.toNat : Int) := by
      rw [hvalue, Int.cast_mul, Int.cast_pow, ← zpow_natCast, Int.toNat_of_nonneg hwhole]
      rfl
    rw [hinteger, Int.fract_intCast]
    exact .inl precise_zero
  -- What is left is counted in the spacing of the number.
  obtain ⟨k, hk⟩ : ∃ k : Int, Int.fract r = k * 2 ^ q := by
    refine ⟨m - ⌊r⌋ * 2 ^ (-q).toNat, ?_⟩
    have hone : (2 : Rat) ^ (-q).toNat * 2 ^ q = 1 := by
      rw [← zpow_natCast, Int.toNat_of_nonneg (by omega), ← zpow_add₀ two_ne_zero, neg_add_cancel,
        zpow_zero]
    push_cast
    rw [sub_mul, mul_assoc, hone, mul_one, ← hvalue, Int.fract]
  by_cases hfew : k < 9007199254740992
  · refine .inl ⟨k, q, ?_, hq, hk⟩
    have hnonneg : 0 ≤ k := by
      have hfract := Int.fract_nonneg r
      rw [hk, mul_nonneg_iff_of_pos_right hpow] at hfract
      exact_mod_cast hfract
    rwa [abs_of_nonneg hnonneg]
  · -- It is larger than the number, which is therefore negative.
    have hmany : (9007199254740992 : Rat) ≤ k := by exact_mod_cast not_lt.mp hfew
    have hlarger : |r| < Int.fract r := by
      rw [hk, hvalue, abs_mul, abs_of_pos hpow]
      exact mul_lt_mul_of_pos_right (hbits.trans_le hmany) hpow
    have hbelow := neg_abs_le r
    have habove := le_abs_self r
    have hfract : Int.fract r = r - ⌊r⌋ := rfl
    have hnegative : ⌊r⌋ ≤ -1 := by
      have hlt : (⌊r⌋ : Rat) < 0 := by linarith
      exact Int.le_sub_one_iff.mpr (by exact_mod_cast hlt)
    have hfloor : (⌊r⌋ : Rat) ≤ -1 := by exact_mod_cast hnegative
    exact .inr (by linarith)

/-- The comparison of the rounded difference with one half is right. -/
theorem half_le_sub_floor_iff (hx : x.isFinite = true) :
    half.le (x.sub x.floor) = true ↔ 1 / 2 ≤ Int.fract x.toRat := by
  rcases toRat_floor hx with ⟨hfloor, hvalue⟩
  have hopposite : x.floor.neg.isFinite = true := (isFinite_withSign _ _).trans hfloor
  have hlt := Int.fract_lt_one x.toRat
  have hnonneg := Int.fract_nonneg x.toRat
  have hfinite : (ofRat (Int.fract x.toRat)).isFinite = true := by
    refine isFinite_ofRat ?_
    rw [abs_of_nonneg hnonneg]
    exact hlt.trans_le (one_le_pow₀ (by norm_num))
  rw [sub, add_of_isFinite hx hopposite, toRat_neg, hvalue, ← sub_eq_add_neg]
  change half.le (ofRatSigned _ (Int.fract x.toRat)) = true ↔ _
  rcases (precise_toRat x).fract with hprecise | hlarge
  · rcases toRat_ofRatSigned (x.signBit && x.floor.neg.signBit) hprecise hfinite with
      ⟨hdifference, hexact⟩
    rw [le_eq_true_iff rfl hdifference, toRat_half, hexact]
  · -- The rounded difference is nearer than one half is, so it is not on the other side of it.
    have hpos : 0 < Int.fract x.toRat := by linarith
    have hnearest := (isNearest_ofRat hpos hfinite).dist_le (1 / 2) (toRat_half ▸ precise_toRat half)
    rw [abs_of_neg (by linarith : 1 / 2 - Int.fract x.toRat < 0), abs_le] at hnearest
    rw [ofRatSigned, if_neg (Rat.num_ne_zero.mpr hpos.ne'), le_eq_true_iff rfl hfinite, toRat_half]
    exact iff_of_true (by linarith) hlarge.le

end Binary64

open Binary64

/-- The nearest integer of a finite number, the larger one from the middle between two, is a finite
    number with exactly that value. It is what a call of the function gives. -/
theorem Arithmetic.round_standard {x : Binary64} (hx : x.isFinite = true) :
    (Arithmetic.standard.round x).isFinite = true ∧
      (Arithmetic.standard.round x).toRat = (⌊x.toRat + 1 / 2⌋ : Int) ∧
      ∀ mode, Function.call .standard mode "round" [x] =
        .ok (Arithmetic.standard.round x) := by
  rcases toRat_floor hx with ⟨hfloor, hvalue⟩
  have hsplit := Int.floor_add_fract x.toRat
  have hlt := Int.fract_lt_one x.toRat
  have hnonneg := Int.fract_nonneg x.toRat
  rw [← and_assoc]
  refine ⟨?_, fun mode => rfl⟩
  by_cases hhalf : 1 / 2 ≤ Int.fract x.toRat
  · have hround : Arithmetic.standard.round x = x.floor.add .one :=
      if_pos ((half_le_sub_floor_iff hx).mpr hhalf)
    have hup : ⌊x.toRat + 1 / 2⌋ = ⌊x.toRat⌋ + 1 := by
      rw [Int.floor_eq_iff]
      push_cast
      exact ⟨by linarith, by linarith⟩
    -- A number that exceeds its floor is no integer, so the next integer fits too.
    have hnone : ∀ n : Int, x.toRat ≠ n := by
      intro n hn
      rw [hn, Int.fract_intCast] at hhalf
      norm_num at hhalf
    have hnear : |((⌊x.toRat⌋ + 1 : Int) : Rat) - x.toRat| ≤ 1 := by
      push_cast
      rw [abs_le]
      exact ⟨by linarith, by linarith⟩
    rcases precise_of_near hnone hnear with ⟨hprecise, hfinite⟩
    have hsum : x.floor.toRat + one.toRat = (⌊x.toRat⌋ + 1 : Int) := by
      rw [hvalue, toRat_one]
      push_cast
      rfl
    rw [hround, hup, add_of_isFinite hfloor rfl, hsum]
    exact toRat_ofRatSigned _ hprecise hfinite
  · have hround : Arithmetic.standard.round x = x.floor :=
      if_neg fun h => hhalf ((half_le_sub_floor_iff hx).mp h)
    have hdown : ⌊x.toRat + 1 / 2⌋ = ⌊x.toRat⌋ := by
      rw [Int.floor_eq_iff]
      exact ⟨by linarith, by linarith⟩
    rw [hround, hdown]
    exact ⟨hfloor, hvalue⟩

-- The number just below one half, which is one half when it is added to one half and rounded.
theorem Arithmetic.round_standard_belowHalf :
    (Binary64.finite false 9007199254740991 (-54) (by decide)).isFinite = true ∧
      (Arithmetic.standard.round (.finite false 9007199254740991 (-54) (by decide))).isFinite =
        true ∧
      (Arithmetic.standard.round (.finite false 9007199254740991 (-54) (by decide))).toRat =
        (⌊(Binary64.finite false 9007199254740991 (-54) (by decide)).toRat + 1 / 2⌋ : Int) := by
  have h := Arithmetic.round_standard
    (rfl : (Binary64.finite false 9007199254740991 (-54) (by decide)).isFinite = true)
  exact ⟨rfl, h.1, h.2.1⟩

/-- The largest number below zero. It exceeds its floor by one when the difference is rounded. -/
example : Arithmetic.standard.round (.finite true 1 (-1074) (by decide)) = .zero false := by
  decide +kernel

end DeskCalc
