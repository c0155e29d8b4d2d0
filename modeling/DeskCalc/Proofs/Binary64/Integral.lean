import DeskCalc.Proofs.Binary64.Comparison
import DeskCalc.Proofs.Binary64.Nearest

/-!
# Rounding to an Integer Is Exact

The integer that a number is rounded to is itself rounded to 53 bits, since the result has to be
a number again. This second rounding changes nothing. A number that is an integer is its own
result. Any other has bits behind the point, so fewer than 53 before it, and both integers around
it need no more than 53.

Comparing a number with the result therefore tells whether it is an integer, and not only whether
it looks like one after two roundings.

## Theorems

* `Binary64.ofRat_toRat`: A number is what its value is rounded to.
* `Binary64.toRat_ofRat_of_precise`: What has few enough bits is not changed by rounding.
* `Binary64.toRat_toIntegral`, `Binary64.toRat_floor`: Rounding to an integer is exact.
* `Binary64.truncateRat_eq`: Cutting off is the floor or the ceiling.
* `Binary64.eq_floor_iff`: The integers are the numbers that are equal to their floor.
-/

namespace DeskCalc

namespace Binary64

variable {x : Binary64}

theorem isNearest_toRat (hx : x.isFinite = true) : IsNearest x x.toRat := by
  refine ⟨hx, fun y _ => ?_, fun y _ htie => .inl ?_⟩
  · rw [sub_self, abs_zero]
    exact abs_nonneg _
  · rw [sub_self, abs_zero, eq_comm, abs_eq_zero] at htie
    exact sub_eq_zero.mp htie

/-- A number other than zero is what its value is rounded to. -/
theorem ofRat_toRat (hx : x.isFinite = true) (hzero : x.isZero = false) : ofRat x.toRat = x :=
  (ofRat_eq_iff_isNearest hx hzero).mpr (isNearest_toRat hx)

/-- What has few enough bits is not changed by rounding. -/
theorem toRat_ofRat_of_precise {r : Rat} (hr : Precise r) (hfinite : (ofRat r).isFinite = true) :
    (ofRat r).toRat = r := by
  have hpositive {r : Rat} (hr : Precise r) (hpos : 0 < r) (hfinite : (ofRat r).isFinite = true) :
      (ofRat r).toRat = r := by
    have hdist := (isNearest_ofRat hpos hfinite).dist_le r hr
    rw [sub_self, abs_zero] at hdist
    exact sub_eq_zero.mp (abs_nonpos_iff.mp hdist)
  rcases lt_trichotomy r 0 with hneg | rfl | hpos
  · have hopposite : ofRat (-r) = (ofRat r).neg := ofRat_neg hneg.ne
    have hvalue := hpositive hr.neg (neg_pos.mpr hneg)
      (by rw [hopposite]; exact (isFinite_withSign _ _).trans hfinite)
    rw [hopposite, toRat_neg] at hvalue
    exact neg_injective hvalue
  · rw [ofRat_zero, toRat_zero]
  · exact hpositive hr hpos hfinite

/-- A number that is no integer is below `2 ^ 52`. -/
theorem abs_toRat_lt_of_not_integer (h : ∀ n : Int, x.toRat ≠ n) :
    |x.toRat| < 4503599627370496 := by
  rcases precise_toRat x with ⟨m, q, hm, -, hvalue⟩
  have hq : q < 0 := by
    by_contra hq
    refine h (m * 2 ^ q.toNat) ?_
    rw [hvalue, Int.cast_mul, Int.cast_pow, ← zpow_natCast, Int.toNat_of_nonneg (by omega)]
    rfl
  have hhalf : (2 : Rat) ^ q ≤ 2 ^ (-1 : Int) := zpow_le_zpow_right₀ (by norm_num) (by omega)
  have hbits : |(m : Rat)| < 9007199254740992 := by
    exact_mod_cast hm
  rw [hvalue, abs_mul, abs_of_pos (zpow_pos (by norm_num : (0 : Rat) < 2) q)]
  calc |(m : Rat)| * 2 ^ q ≤ |(m : Rat)| * 2 ^ (-1 : Int) :=
        mul_le_mul_of_nonneg_left hhalf (abs_nonneg _)
    _ < 9007199254740992 * 2 ^ (-1 : Int) := mul_lt_mul_of_pos_right hbits (by norm_num)
    _ = 4503599627370496 := by norm_num

theorem toIntegral_of_isFinite (rule : Rat → Int) (hx : x.isFinite = true) :
    x.toIntegral rule = ofRatSigned x.signBit (rule x.toRat) := by
  cases x with
  | nan | inf _ => exact Bool.noConfusion hx
  | finite _ _ _ _ => rfl

/-- The value of a number is within range. -/
theorem isFinite_ofRat_toRat (hx : x.isFinite = true) : (ofRat x.toRat).isFinite = true := by
  cases hzero : x.isZero with
  | true =>
      rw [toRat_of_isZero hzero]
      rfl
  | false => rwa [ofRat_toRat hx hzero]

/-- The integers around a number that is none have few enough bits. -/
theorem precise_of_near (h : ∀ n : Int, x.toRat ≠ n) {n : Int} (hn : |(n : Rat) - x.toRat| ≤ 1) :
    Precise n ∧ (ofRat n).isFinite = true := by
  have hsmall := abs_toRat_lt_of_not_integer h
  have hbound : |(n : Rat)| < 4503599627370497 := by
    have htriangle := abs_sub_abs_le_abs_sub (n : Rat) x.toRat
    linarith
  have hint : |n| < 4503599627370497 := by exact_mod_cast hbound
  have hrange : (4503599627370497 : Rat) ≤ 2 ^ 1023 :=
    (by norm_num : (4503599627370497 : Rat) ≤ 2 ^ 53).trans
      (pow_le_pow_right₀ (by norm_num) (by norm_num))
  exact ⟨⟨n, 0, by omega, by decide, by rw [zpow_zero, mul_one]⟩,
    isFinite_ofRat (hbound.trans_le hrange)⟩

/-- What has few enough bits keeps its value also where zero is given a sign. -/
theorem toRat_ofRatSigned (negative : Bool) {r : Rat} (hr : Precise r)
    (hfinite : (ofRat r).isFinite = true) :
    (ofRatSigned negative r).isFinite = true ∧ (ofRatSigned negative r).toRat = r := by
  rw [ofRatSigned]
  by_cases hzero : r.num = 0
  · rw [if_pos hzero, toRat_zero]
    exact ⟨rfl, (Rat.num_eq_zero.mp hzero).symm⟩
  · rw [if_neg hzero]
    exact ⟨hfinite, toRat_ofRat_of_precise hr hfinite⟩

/-- Rounding to an integer is exact. The rule is any that goes to one of the two integers around
    what is not an integer and leaves an integer alone. -/
theorem toRat_toIntegral {rule : Rat → Int} (hx : x.isFinite = true)
    (hrule : |(rule x.toRat : Rat) - x.toRat| < 1) :
    (x.toIntegral rule).isFinite = true ∧ (x.toIntegral rule).toRat = rule x.toRat := by
  rw [toIntegral_of_isFinite rule hx]
  by_cases hinteger : ∃ n : Int, x.toRat = n
  · rcases hinteger with ⟨n, hn⟩
    have hsame : rule x.toRat = n := by
      rw [hn] at hrule
      have hlt : |rule n - n| < 1 := by exact_mod_cast hrule
      rw [hn]
      exact sub_eq_zero.mp (Int.abs_lt_one_iff.mp hlt)
    rw [hsame, ← hn]
    exact toRat_ofRatSigned _ (precise_toRat x) (isFinite_ofRat_toRat hx)
  · rcases precise_of_near (not_exists.mp hinteger) hrule.le with ⟨hprecise, hfinite⟩
    exact toRat_ofRatSigned _ hprecise hfinite

/-- The floor of a number is that of its value. -/
theorem toRat_floor (hx : x.isFinite = true) :
    x.floor.isFinite = true ∧ x.floor.toRat = ⌊x.toRat⌋ := by
  refine toRat_toIntegral hx ?_
  have hle : (x.toRat.floor : Rat) ≤ x.toRat := Int.floor_le x.toRat
  have hlt : x.toRat < x.toRat.floor + 1 := Int.lt_floor_add_one x.toRat
  rw [abs_lt]
  exact ⟨by linarith, by linarith⟩

/-- A fraction is cut off towards zero. -/
theorem truncateRat_eq (r : Rat) :
    truncateRat r = if 0 ≤ r then ⌊r⌋ else ⌈r⌉ := by
  unfold truncateRat
  by_cases h : 0 ≤ r
  · rw [if_pos h, Rat.floor_def', Int.tdiv_eq_ediv_of_nonneg (Rat.num_nonneg.mpr h)]
  · have hnum : r.num ≤ 0 := Rat.num_nonpos.mpr (not_le.mp h).le
    -- Below zero the quotient is the opposite of that of the opposite.
    rw [if_neg h, Rat.ceil_def', ← Int.neg_neg (r.num.tdiv r.den), ← Int.neg_tdiv,
      Int.tdiv_eq_ediv_of_nonneg (by omega)]

theorem truncate?_of_isFinite (hx : x.isFinite = true) :
    x.truncate? = some (truncateRat x.toRat) := by
  cases x with
  | nan | inf _ => exact Bool.noConfusion hx
  | finite _ _ _ _ => rfl

/-- The integers are the numbers that are equal to their floor. -/
theorem eq_floor_iff (hx : x.isFinite = true) :
    x.eq x.floor = true ↔ ∃ n : Int, x.toRat = n := by
  rcases toRat_floor hx with ⟨hfinite, hvalue⟩
  rw [eq_eq_true_iff hx hfinite, hvalue]
  constructor
  · intro h
    exact ⟨_, h⟩
  · rintro ⟨n, hn⟩
    rw [hn, Int.floor_intCast]

end Binary64

end DeskCalc
