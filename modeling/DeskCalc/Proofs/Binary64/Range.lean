import DeskCalc.Proofs.Binary64.Integral

/-!
# Where Rounding Gets Out of Range

A rational is rounded to an infinity when the number that it is nearest to would have an exponent
beyond the largest one. That the spacing of its grid is too large is the usual way for this to
happen, but not the only one. On the last grid there is room for the largest number, which has
an odd significand, and for `2 ^ 1024`, to which rounding carries and which is no number any more.
So the middle between these two belongs to `2 ^ 1024`, and it is the least rational that is rounded
to an infinity.

Below it, and from zero on, everything has a nearest number, and rounding finds it.

## Main definitions

* `Binary64.largest`: The largest number.
* `Binary64.overflowBound`: The middle between it and `2 ^ 1024`.

## Theorems

* `Binary64.lt_overflowBound_iff`: Both ways to be in range, by the grid and the significand.
* `Binary64.isFinite_ofRat_iff`: What is rounded to a finite number.
* `Binary64.ofRat_of_nonneg`: What a rational from zero on is rounded to.
-/

namespace DeskCalc

namespace Binary64

variable {r : Rat}

/-- The largest number. -/
def largest : Binary64 := .finite false 9007199254740991 971 (by decide)

/-- The middle between the largest number and the next power of two. -/
def overflowBound : Rat := (largest.toRat + 2 ^ 1024) / 2

theorem toRat_largest : largest.toRat = 9007199254740991 * 2 ^ (971 : Int) := by
  rw [largest, toRat, twoPow_eq_zpow, if_neg Bool.false_ne_true, Nat.cast_ofNat]

/-- The middle, counted in the spacing of the last grid. -/
theorem overflowBound_eq : overflowBound = (9007199254740992 - 1 / 2) * 2 ^ (971 : Int) := by
  have hnext : (2 : Rat) ^ 1024 = 2 ^ 53 * 2 ^ 971 := pow_add 2 53 971
  have hpow : (2 : Rat) ^ (971 : Int) = 2 ^ 971 := zpow_natCast 2 971
  rw [overflowBound, toRat_largest, hnext, hpow]
  generalize (2 : Rat) ^ 971 = p
  ring

/-- Being below the bound, said of the significand and the exponent that rounding leaves. -/
theorem lt_overflowBound_iff (hr : 0 < r) {n : Nat} (hn : NearestEven n (r / 2 ^ gridExponent r)) :
    r < overflowBound ↔ gridExponent r < 971 ∨ gridExponent r = 971 ∧ n < 9007199254740992 := by
  have hlast : (0 : Rat) < 2 ^ (971 : Int) := zpow_pos (by norm_num) 971
  have hpow : (0 : Rat) < 2 ^ gridExponent r := zpow_pos (by norm_num) _
  rw [overflowBound_eq]
  rcases lt_trichotomy (gridExponent r) 971 with hbelow | hgrid | habove
  · -- A finer grid ends with the power of two before.
    refine iff_of_true ?_ (.inl hbelow)
    have hcount := count_lt_limit hr
    rw [div_lt_iff₀ hpow] at hcount
    have hstep : (2 : Rat) ^ gridExponent r * 2 ≤ 2 ^ (971 : Int) := by
      rw [← zpow_add_one₀ two_ne_zero]
      exact zpow_le_zpow_right₀ (by norm_num) (by omega)
    generalize (2 : Rat) ^ (971 : Int) = p at *
    linarith
  · -- From the middle, the largest number is not taken, since it is odd.
    rw [hgrid] at hn ⊢
    rw [← div_lt_iff₀ hlast, or_iff_right (lt_irrefl _), and_iff_right rfl]
    have hdist := abs_le.mp hn.distance
    constructor
    · intro hlt
      exact_mod_cast (by linarith : (n : Rat) < 9007199254740992)
    · intro hlt
      by_contra hmiddle
      rw [not_lt] at hmiddle
      have hle : (n : Rat) ≤ 9007199254740992 - 1 := by
        have hsucc : n + 1 ≤ 9007199254740992 := hlt
        exact le_sub_iff_add_le.mpr (by exact_mod_cast hsucc)
      have hge : (9007199254740992 : Rat) - 1 ≤ n := by linarith
      have heven := hn.even (by rw [abs_of_nonpos (by linarith)]; linarith)
      have hodd : n + 1 = 9007199254740992 := by
        exact_mod_cast (by linarith : (n : Rat) + 1 = 9007199254740992)
      omega
  · -- A coarser grid starts with the next power of two.
    refine iff_of_false ?_ (by omega)
    have hcount := (full_count hr).resolve_left (by omega)
    rw [le_div_iff₀ hpow] at hcount
    have hstep : (2 : Rat) ^ (971 : Int) * 2 ≤ 2 ^ gridExponent r := by
      rw [← zpow_add_one₀ two_ne_zero]
      exact zpow_le_zpow_right₀ (by norm_num) (by omega)
    generalize (2 : Rat) ^ (971 : Int) = p at *
    linarith

/-- What is rounded to a finite number. -/
theorem isFinite_ofRat_iff (hr : 0 < r) : (ofRat r).isFinite = true ↔ r < overflowBound := by
  rcases ofRat_of_pos hr with ⟨n, hn, hround⟩
  rw [hround, isFinite_ofScaled_iff false (significand_le_limit hr hn) (neg_le_gridExponent r)
    (full_significand hr hn), lt_overflowBound_iff hr hn]

theorem ofScaled_cases (negative : Bool) (n : Nat) (q : Int) :
    (ofScaled negative n q).signBit = negative ∧ (ofScaled negative n q).isNaN = false ∧
      ((ofScaled negative n q).isFinite = true ∨ ofScaled negative n q = .inf negative) := by
  rw [ofScaled]
  split
  · exact ⟨rfl, rfl, .inl rfl⟩
  · split
    · exact ⟨rfl, rfl, .inl rfl⟩
    · exact ⟨rfl, rfl, .inr rfl⟩

/-- A rational from zero on is rounded to the number that it is nearest to, or to the positive
    infinity from the bound on. -/
theorem ofRat_of_nonneg (hr : 0 ≤ r) :
    (ofRat r).signBit = false ∧ (ofRat r).isNaN = false ∧
      (r < overflowBound → IsNearest (ofRat r) r) ∧ (overflowBound ≤ r → ofRat r = .inf false) := by
  rcases hr.eq_or_lt with rfl | hpos
  · have hbound : (0 : Rat) < overflowBound := by
      rw [overflowBound_eq]
      exact mul_pos (by norm_num) (zpow_pos (by norm_num) 971)
    have hnearest : IsNearest (zero false) (zero false).toRat := isNearest_toRat rfl
    rw [toRat_zero] at hnearest
    exact ⟨rfl, rfl, fun _ => hnearest, fun hle => absurd hbound hle.not_gt⟩
  · rcases ofRat_of_pos hpos with ⟨n, -, hround⟩
    rcases ofScaled_cases false n (gridExponent r) with ⟨hsign, hnan, hcases⟩
    rw [← hround] at hsign hnan hcases
    refine ⟨hsign, hnan, fun hlt => isNearest_ofRat hpos ((isFinite_ofRat_iff hpos).mpr hlt),
      fun hle => hcases.resolve_left fun hfinite => ?_⟩
    exact absurd ((isFinite_ofRat_iff hpos).mp hfinite) hle.not_gt

end Binary64

end DeskCalc
