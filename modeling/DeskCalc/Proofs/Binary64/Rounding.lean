import DeskCalc.Binary64.Rounding
import Mathlib.Data.Int.Log
import Mathlib.Data.Rat.Floor
import Mathlib.Tactic.FieldSimp
import Mathlib.Tactic.Linarith

/-!
# What Rounding Is Near To

Rounding takes the magnitude of a rational for the choice of a grid, and then the nearest point
of that grid. Both are integer computations, on shifted numerators and denominators; here they
are said in terms of the rationals themselves.

The grid gets finer where a power of two is crossed downwards. A rational just below a power of
two is therefore rounded on the finer grid, and comes back to the power of two only by a carry.
That is the one case in which the nearest point is not on the grid of the number it belongs to,
and a margin of a fourth of the coarser spacing below the power is what it takes. One part in
`2 * 10 ^ 16` is within that margin for every number (`Binary64.ofRat_eq_of_near`).

## Main definitions

* `NearestEven`: The integer nearest to a rational, ties to even.
* `Binary64.gridExponent`: The exponent of the grid that a positive rational is rounded on.

## Theorems

* `floorLog2_eq_log`: The exponent of a quotient is its logarithm, rounded down.
* `nearestEven_roundHalfEven`: What rounding to an integer gives.
* `Binary64.ofRat_of_pos`: Rounding is to the nearest point of the grid.
* `Binary64.significand_le_limit`, `Binary64.full_significand`: The bits that rounding leaves.
* `Binary64.ofRat_eq_of_near`: What is near to a number is rounded to it.
* `Binary64.isFinite_ofScaled_iff`: Which significands and exponents make up a number.
* `Binary64.isFinite_ofRat`: What is within range is rounded to a finite number.
-/

namespace DeskCalc

/-! ### Powers and quotients -/

/-- A power with an integer exponent, by way of natural ones. -/
theorem ratPow_eq_zpow (b : Nat) (k : Int) :
    (if 0 ≤ k then ((b ^ k.toNat : Nat) : Rat) else mkRat 1 (b ^ (-k).toNat)) =
      (b : Rat) ^ k := by
  by_cases hk : 0 ≤ k
  · rw [if_pos hk, Nat.cast_pow, ← zpow_natCast, Int.toNat_of_nonneg hk]
  · have hneg : ((-k).toNat : Int) = -k := Int.toNat_of_nonneg (by omega)
    rw [if_neg hk, Rat.mkRat_eq_div, Nat.cast_pow, ← zpow_natCast, hneg, zpow_neg, Int.cast_one,
      one_div, inv_inv]

theorem Binary64.twoPow_eq_zpow (k : Int) : twoPow k = 2 ^ k := by
  rw [twoPow, Nat.one_shiftLeft, Nat.one_shiftLeft, ratPow_eq_zpow, Nat.cast_ofNat]

/-- A quotient divided by a power of two, with the shift on whichever side it is a left one. -/
theorem shifted_div_shifted (num den : Nat) (q : Int) :
    ((num <<< (-q).toNat : Nat) : Rat) / ((den <<< q.toNat : Nat) : Rat) = num / den / 2 ^ q := by
  rw [Nat.shiftLeft_eq, Nat.shiftLeft_eq, Nat.cast_mul, Nat.cast_mul, Nat.cast_pow, Nat.cast_pow,
    ← zpow_natCast, ← zpow_natCast, Nat.cast_ofNat]
  by_cases hq : 0 ≤ q
  · have hneg : (-q).toNat = 0 := by omega
    rw [hneg, Int.toNat_of_nonneg hq, Nat.cast_zero, zpow_zero, mul_one, div_div]
  · have hpos : q.toNat = 0 := by omega
    rw [hpos, Int.toNat_of_nonneg (by omega), Nat.cast_zero, zpow_zero, mul_one, zpow_neg,
      div_div, mul_comm (den : Rat), ← div_div, div_eq_mul_inv (num : Rat)]

theorem natAbs_num_div_den (r : Rat) : (r.num.natAbs : Rat) / r.den = |r| := by
  rw [Nat.cast_natAbs, Int.cast_abs, ← Nat.abs_cast r.den, ← abs_div, Rat.num_div_den]

/-- The exponent of a positive quotient is its logarithm to base two, rounded down. -/
theorem floorLog2_eq_log {num den : Nat} (hnum : 0 < num) (hden : 0 < den) :
    floorLog2 num den = Int.log 2 ((num : Rat) / den) := by
  have hden' : (0 : Rat) < den := Nat.cast_pos.mpr hden
  have hr : (0 : Rat) < (num : Rat) / den := div_pos (Nat.cast_pos.mpr hnum) hden'
  -- The lengths bound the quotient from both sides, a factor of four apart.
  have hbelow : (2 : Rat) ^ ((num.log2 : Int) - den.log2 - 1) ≤ (num : Rat) / den := by
    have hn : (2 : Rat) ^ num.log2 ≤ num := by
      exact_mod_cast Nat.log2_self_le (Nat.ne_of_gt hnum)
    have hd : (den : Rat) ≤ 2 ^ (den.log2 + 1) := by
      exact_mod_cast Nat.le_of_lt (Nat.lt_log2_self (n := den))
    rw [show (num.log2 : Int) - den.log2 - 1 = (num.log2 : Int) - (den.log2 + 1 : Nat) by omega,
      zpow_sub₀ (by norm_num), zpow_natCast, zpow_natCast]
    exact div_le_div₀ (Nat.cast_nonneg num) hn hden' hd
  have habove : (num : Rat) / den < 2 ^ ((num.log2 : Int) - den.log2 + 1) := by
    have hn : (num : Rat) < 2 ^ (num.log2 + 1) := by
      exact_mod_cast Nat.lt_log2_self (n := num)
    have hd : (2 : Rat) ^ den.log2 ≤ den := by
      exact_mod_cast Nat.log2_self_le (Nat.ne_of_gt hden)
    rw [show (num.log2 : Int) - den.log2 + 1 = ((num.log2 + 1 : Nat) : Int) - den.log2 by omega,
      zpow_sub₀ (by norm_num), zpow_natCast, zpow_natCast]
    exact div_lt_div₀ hn hd (by positivity) (by positivity)
  rw [← Nat.cast_ofNat, Int.zpow_le_iff_le_log (by decide) hr] at hbelow
  rw [← Nat.cast_ofNat, Int.lt_zpow_iff_log_lt (by decide) hr] at habove
  -- The comparison tells whether the larger candidate is not above the quotient.
  have hcompare : den <<< ((num.log2 : Int) - den.log2).toNat ≤
      num <<< (-((num.log2 : Int) - den.log2)).toNat ↔
        (num.log2 : Int) - den.log2 ≤ Int.log 2 ((num : Rat) / den) := by
    generalize (num.log2 : Int) - den.log2 = e
    have hshift : (0 : Rat) < ((den <<< e.toNat : Nat) : Rat) := by
      rw [Nat.shiftLeft_eq]
      exact_mod_cast Nat.mul_pos hden (Nat.two_pow_pos _)
    have hpow : (0 : Rat) < 2 ^ e := zpow_pos (by norm_num) e
    rw [← Int.zpow_le_iff_le_log (by decide) hr, Nat.cast_ofNat, ← one_le_div hpow,
      ← shifted_div_shifted, one_le_div hshift, Nat.cast_le]
  rw [floorLog2]
  by_cases he : den <<< ((num.log2 : Int) - den.log2).toNat ≤
      num <<< (-((num.log2 : Int) - den.log2)).toNat
  · rw [if_pos he]
    have hle := hcompare.mp he
    omega
  · rw [if_neg he]
    have hlt := mt hcompare.mpr he
    omega

/-- That `n` is the integer nearest to `t`, and the even one of two that are as near. -/
structure NearestEven (n : Nat) (t : Rat) : Prop where
  /-- Rounding moves by a half at most. -/
  distance : |(n : Rat) - t| ≤ 1 / 2
  /-- From the middle between two integers it goes to the even one. -/
  even : |(n : Rat) - t| = 1 / 2 → n % 2 = 0

/-- Rounding gives the nearest integer, ties to even. -/
theorem nearestEven_roundHalfEven (num : Nat) {den : Nat} (hden : 0 < den) :
    NearestEven (roundHalfEven num den) ((num : Rat) / den) := by
  have hden' : (0 : Rat) < den := Nat.cast_pos.mpr hden
  have hdivision : (num : Rat) = den * (num / den : Nat) + (num % den : Nat) := by
    exact_mod_cast (Nat.div_add_mod num den).symm
  have hquotient : (num : Rat) / den = (num / den : Nat) + (num % den : Nat) / den := by
    conv_lhs => rw [hdivision]
    rw [add_div, mul_div_cancel_left₀ _ hden'.ne']
  have hremainder : ((num % den : Nat) : Rat) / den < 1 := by
    rw [div_lt_one hden']
    exact_mod_cast Nat.mod_lt num hden
  have hnonneg : (0 : Rat) ≤ ((num % den : Nat) : Rat) / den := by positivity
  rw [hquotient, roundHalfEven]
  by_cases hbelow : 2 * (num % den) < den
  · have hhalf : ((num % den : Nat) : Rat) / den < 1 / 2 := by
      rw [div_lt_div_iff₀ hden' (by norm_num)]
      exact_mod_cast (by omega : num % den * 2 < 1 * den)
    rw [if_pos hbelow]
    have hmove : |((num / den : Nat) : Rat) - ((num / den : Nat) + (num % den : Nat) / den)| <
        1 / 2 := by
      rw [abs_lt]
      constructor <;> linarith
    exact ⟨hmove.le, fun htie => absurd htie hmove.ne⟩
  · have hhalf : (1 : Rat) / 2 ≤ ((num % den : Nat) : Rat) / den := by
      rw [div_le_div_iff₀ (by norm_num) hden']
      exact_mod_cast (by omega : 1 * den ≤ num % den * 2)
    rw [if_neg hbelow]
    by_cases habove : den < 2 * (num % den)
    · have hhalf : (1 : Rat) / 2 < ((num % den : Nat) : Rat) / den := by
        rw [div_lt_div_iff₀ (by norm_num) hden']
        exact_mod_cast (by omega : 1 * den < num % den * 2)
      rw [if_pos habove]
      have hmove : |((num / den + 1 : Nat) : Rat) - ((num / den : Nat) + (num % den : Nat) / den)| <
          1 / 2 := by
        rw [Nat.cast_add_one, abs_lt]
        constructor <;> linarith
      exact ⟨hmove.le, fun htie => absurd htie hmove.ne⟩
    · -- Halfway, both neighbours are as near.
      have heq : ((num % den : Nat) : Rat) / den = 1 / 2 := by
        rw [div_eq_div_iff hden'.ne' (by norm_num)]
        exact_mod_cast (by omega : num % den * 2 = 1 * den)
      rw [if_neg habove, heq]
      refine ⟨?_, fun _ => by omega⟩
      rw [Nat.cast_add, abs_le]
      rcases Nat.mod_two_eq_zero_or_one (num / den) with h | h <;> rw [h] <;>
        constructor <;> norm_num

/-- What is less than a half away from an integer is rounded to no other. -/
theorem NearestEven.eq_of_abs_sub_lt {n m : Nat} {t : Rat} (h : NearestEven n t)
    (hm : |t - m| < 1 / 2) : n = m := by
  have hn := abs_le.mp h.distance
  rw [abs_lt] at hm
  have hbelow : n < m + 1 := by
    exact_mod_cast (by linarith : (n : Rat) < m + 1)
  have habove : m < n + 1 := by
    exact_mod_cast (by linarith : (m : Rat) < n + 1)
  omega

namespace Binary64

/-! ### Values -/

theorem toRat_zero (negative : Bool) : (zero negative).toRat = 0 := by
  rw [zero, toRat, Nat.cast_zero, neg_zero, ite_self, zero_mul]

/-- A number without a sign is positive, unless it is zero. -/
theorem toRat_pos {m : Nat} {q : Int} (h : Canonical m q) (hm : m ≠ 0) :
    0 < (finite false m q h).toRat := by
  rw [toRat, twoPow_eq_zpow]
  exact mul_pos (Nat.cast_pos.mpr (Nat.pos_of_ne_zero hm)) (zpow_pos (by norm_num) q)

/-- What a positive number is made of. -/
theorem eq_finite_of_toRat_pos {x : Binary64} (hx : 0 < x.toRat) :
    ∃ m q, ∃ h : Canonical m q, x = .finite false m q h ∧ 0 < m ∧ x.toRat = m * 2 ^ q := by
  match x with
  | .nan => exact absurd hx (lt_irrefl 0)
  | .inf _ => exact absurd hx (lt_irrefl 0)
  | .finite negative m q h =>
      have hpow : (0 : Rat) < 2 ^ q := zpow_pos (by norm_num) q
      rw [toRat, twoPow_eq_zpow, mul_pos_iff_of_pos_right hpow] at hx
      cases negative with
      | true =>
          have hm : (0 : Rat) ≤ m := Nat.cast_nonneg m
          rw [if_pos rfl] at hx
          linarith
      | false => exact ⟨m, q, h, rfl, Nat.cast_pos.mp hx, by rw [toRat, twoPow_eq_zpow]; rfl⟩

/-- The range of the positive numbers. -/
theorem log_toRat_range {x : Binary64} (hx : 0 < x.toRat) :
    -1074 ≤ Int.log 2 x.toRat ∧ Int.log 2 x.toRat < 1024 := by
  rcases eq_finite_of_toRat_pos hx with ⟨m, q, h, -, hm, hvalue⟩
  have hpow : (0 : Rat) < 2 ^ q := zpow_pos (by norm_num) q
  rw [← Int.zpow_le_iff_le_log (by decide) hx, ← Int.lt_zpow_iff_log_lt (by decide) hx,
    Nat.cast_ofNat, hvalue]
  constructor
  · have hleast : (2 : Rat) ^ (-1074 : Int) ≤ 2 ^ q := zpow_le_zpow_right₀ (by norm_num) h.2.1
    have hone : (1 : Rat) ≤ m := Nat.one_le_cast.mpr hm
    exact hleast.trans (le_mul_of_one_le_left hpow.le hone)
  · have hmost : (2 : Rat) ^ q ≤ 2 ^ (971 : Int) := zpow_le_zpow_right₀ (by norm_num) h.2.2.1
    have hfits : (m : Rat) < 2 ^ (53 : Int) := by
      exact_mod_cast (h.1 : m < 9007199254740992)
    calc (m : Rat) * 2 ^ q < 2 ^ (53 : Int) * 2 ^ q := mul_lt_mul_of_pos_right hfits hpow
      _ ≤ 2 ^ (53 : Int) * 2 ^ (971 : Int) := mul_le_mul_of_nonneg_left hmost (by norm_num)
      _ = 2 ^ (1024 : Int) := by rw [← zpow_add₀ two_ne_zero]; rfl

/-! ### The nearest number -/

/-- The exponent of the grid that a positive rational is rounded on. -/
def gridExponent (r : Rat) : Int := max (Int.log 2 r - 52) (-1074)

/-- Rounding is to the nearest point of the grid. -/
theorem ofRat_of_ne_zero {r : Rat} (hr : r ≠ 0) :
    ∃ n : Nat, NearestEven n (|r| / 2 ^ gridExponent |r|) ∧
      ofRat r = ofScaled (decide (r < 0)) n (gridExponent |r|) := by
  have hnum : 0 < r.num.natAbs := Int.natAbs_pos.mpr (Rat.num_ne_zero.mpr hr)
  have hgrid : max (floorLog2 r.num.natAbs r.den - 52) (-1074) = gridExponent |r| := by
    rw [floorLog2_eq_log hnum r.den_pos, natAbs_num_div_den, gridExponent]
  have hden : 0 < r.den <<< (gridExponent |r|).toNat := by
    rw [Nat.shiftLeft_eq]
    exact Nat.mul_pos r.den_pos (Nat.two_pow_pos _)
  have hnear := nearestEven_roundHalfEven (r.num.natAbs <<< (-gridExponent |r|).toNat) hden
  rw [shifted_div_shifted, natAbs_num_div_den] at hnear
  refine ⟨_, hnear, ?_⟩
  rw [ofRat, if_neg (Rat.num_ne_zero.mpr hr), roundQuotient, hgrid]
  simp only [Rat.num_neg]

theorem ofRat_of_pos {r : Rat} (hr : 0 < r) :
    ∃ n : Nat, NearestEven n (r / 2 ^ gridExponent r) ∧
      ofRat r = ofScaled false n (gridExponent r) := by
  have h := ofRat_of_ne_zero hr.ne'
  rwa [abs_of_pos hr, decide_eq_false hr.not_gt] at h

theorem neg_le_gridExponent (r : Rat) : -1074 ≤ gridExponent r := le_max_right _ _

/-- A positive rational has at most 53 bits before the point, counted in the spacing of its
    grid. -/
theorem count_lt_limit {r : Rat} (hr : 0 < r) : r / 2 ^ gridExponent r < 2 ^ 53 := by
  have hpow : (0 : Rat) < 2 ^ gridExponent r := zpow_pos (by norm_num) _
  rw [div_lt_iff₀ hpow, ← zpow_natCast, ← zpow_add₀ two_ne_zero, ← Nat.cast_ofNat,
    Int.lt_zpow_iff_log_lt (by decide) hr, gridExponent]
  push_cast
  omega

/-- It has 53 of them, unless its grid is the finest. -/
theorem full_count {r : Rat} (hr : 0 < r) :
    gridExponent r = -1074 ∨ 2 ^ 52 ≤ r / 2 ^ gridExponent r := by
  have hpow : (0 : Rat) < 2 ^ gridExponent r := zpow_pos (by norm_num) _
  have hlog : (2 : Rat) ^ (52 + gridExponent r) ≤ r ↔ 52 + gridExponent r ≤ Int.log 2 r := by
    rw [← Int.zpow_le_iff_le_log (by decide) hr, Nat.cast_ofNat]
  rw [le_div_iff₀ hpow, ← zpow_natCast, ← zpow_add₀ two_ne_zero, Nat.cast_ofNat, hlog,
    gridExponent]
  omega

/-- The significand has at most 53 bits before rounding, and one more if rounding carries. -/
theorem significand_le_limit {r : Rat} (hr : 0 < r) {n : Nat}
    (h : NearestEven n (r / 2 ^ gridExponent r)) : n ≤ 9007199254740992 := by
  have hcount := count_lt_limit hr
  have hn := abs_le.mp h.distance
  have hlt : (n : Rat) < 9007199254740992 + 1 := by norm_num at hcount; linarith
  exact Nat.lt_succ_iff.mp (by exact_mod_cast hlt)

/-- It has 53 of them, unless the grid is the finest. -/
theorem full_significand {r : Rat} (hr : 0 < r) {n : Nat}
    (h : NearestEven n (r / 2 ^ gridExponent r)) :
    gridExponent r = -1074 ∨ 4503599627370496 ≤ n := by
  refine (full_count hr).imp_right fun hcount => ?_
  have hn := abs_le.mp h.distance
  have hlt : (4503599627370496 : Rat) < n + 1 := by norm_num at hcount; linarith
  exact Nat.lt_succ_iff.mp (by exact_mod_cast hlt)

/-- A significand that rounding has carried is the smallest one of the next exponent. -/
theorem ofScaled_carried (negative : Bool) {q : Int} (h : Canonical 4503599627370496 q) :
    ofScaled negative 9007199254740992 (q - 1) = .finite negative 4503599627370496 q h := by
  have hfits : ¬ Canonical 9007199254740992 (q - 1) := fun hc => absurd hc.1 (Nat.lt_irrefl _)
  have hnext : Canonical 4503599627370496 (q - 1 + 1) := by rwa [Int.sub_add_cancel]
  rw [ofScaled, dif_neg hfits, dif_pos ⟨rfl, hnext⟩]
  simp only [Int.sub_add_cancel]

/-- A number is what everything within one part in `2 * 10 ^ 16` of it is rounded to. -/
theorem ofRat_eq_of_near {m : Nat} {q : Int} (h : Canonical m q) (hm : 0 < m) {r : Rat}
    (hnear : |r - m * 2 ^ q| * (2 * 10 ^ 16) ≤ m * 2 ^ q) : ofRat r = .finite false m q h := by
  have hpow : (0 : Rat) < 2 ^ q := zpow_pos (by norm_num) q
  -- The rational, counted in the spacing of the number's own grid.
  obtain ⟨t, rfl⟩ : ∃ t, r = t * 2 ^ q := ⟨r / 2 ^ q, (div_mul_cancel₀ r hpow.ne').symm⟩
  have hclose : |t - m| * (2 * 10 ^ 16) ≤ m := by
    rw [← sub_mul, abs_mul, abs_of_pos hpow, mul_right_comm] at hnear
    exact le_of_mul_le_mul_right hnear hpow
  have hfits : (m : Rat) + 1 ≤ 2 ^ 53 := by
    exact_mod_cast (h.1 : m + 1 ≤ 9007199254740992)
  have hone : (1 : Rat) ≤ m := Nat.one_le_cast.mpr hm
  have hhalf : |t - m| < 1 / 2 := by linarith
  have hbounds := abs_lt.mp hhalf
  have hr : 0 < t * 2 ^ q := mul_pos (by linarith) hpow
  rcases ofRat_of_pos hr with ⟨n, hn, hround⟩
  have hupper : Int.log 2 (t * 2 ^ q) < 53 + q := by
    rw [← Int.lt_zpow_iff_log_lt (by decide) hr, Nat.cast_ofNat, zpow_add₀ two_ne_zero]
    exact mul_lt_mul_of_pos_right (by norm_num at hfits ⊢; linarith) hpow
  by_cases hsame : q = -1074 ∨ (2 : Rat) ^ 52 ≤ t
  · -- The rational is rounded on the number's own grid.
    have hgrid : gridExponent (t * 2 ^ q) = q := by
      rw [gridExponent]
      rcases hsame with hq | ht
      · omega
      · have hlower : 52 + q ≤ Int.log 2 (t * 2 ^ q) := by
          rw [← Int.zpow_le_iff_le_log (by decide) hr, Nat.cast_ofNat, zpow_add₀ two_ne_zero]
          exact mul_le_mul_of_nonneg_right (by exact_mod_cast ht) hpow.le
        have hleast := h.2.1
        omega
    rw [hgrid, mul_div_cancel_right₀ t hpow.ne'] at hn
    rw [hround, hgrid, hn.eq_of_abs_sub_lt hhalf, ofScaled, dif_pos h]
  · -- The number is a power of two, and the rational is below it, on the finer grid.
    rcases not_or.mp hsame with ⟨hq, ht⟩
    rw [not_le] at ht
    obtain rfl : m = 4503599627370496 := by
      have hle : m ≤ 4503599627370496 := by
        have hlt : (m : Rat) < 4503599627370496 + 1 := by norm_num at ht; linarith
        exact Nat.lt_succ_iff.mp (by exact_mod_cast hlt)
      exact Nat.le_antisymm hle (h.2.2.2.resolve_left hq)
    have hgrid : gridExponent (t * 2 ^ q) = q - 1 := by
      have hbelow : Int.log 2 (t * 2 ^ q) < 52 + q := by
        rw [← Int.lt_zpow_iff_log_lt (by decide) hr, Nat.cast_ofNat, zpow_add₀ two_ne_zero]
        exact mul_lt_mul_of_pos_right (by exact_mod_cast ht) hpow
      have habove : 51 + q ≤ Int.log 2 (t * 2 ^ q) := by
        rw [← Int.zpow_le_iff_le_log (by decide) hr, Nat.cast_ofNat, zpow_add₀ two_ne_zero]
        exact mul_le_mul_of_nonneg_right (by norm_num at hbounds ⊢; linarith) hpow.le
      have hleast := h.2.1
      rw [gridExponent]
      omega
    have hcount : t * 2 ^ q / 2 ^ (q - 1) = 2 * t := by
      rw [zpow_sub₀ two_ne_zero, zpow_one]
      field_simp
    have hcarried : |2 * t - (9007199254740992 : Nat)| < 1 / 2 := by
      have hdouble : 2 * t - (9007199254740992 : Nat) = 2 * (t - (4503599627370496 : Nat)) := by
        push_cast
        ring
      rw [hdouble, abs_mul, abs_two]
      norm_num at hclose ⊢
      linarith
    rw [hgrid, hcount] at hn
    rw [hround, hgrid, hn.eq_of_abs_sub_lt hcarried, ofScaled_carried]

/-- A significand that rounding has left and the exponent of its grid make up a number unless they
    are beyond the last grid, or carried at the end of it. -/
theorem isFinite_ofScaled_iff (negative : Bool) {n : Nat} {g : Int} (hle : n ≤ 9007199254740992)
    (hmin : -1074 ≤ g) (hfull : g = -1074 ∨ 4503599627370496 ≤ n) :
    (ofScaled negative n g).isFinite = true ↔ g < 971 ∨ g = 971 ∧ n < 9007199254740992 := by
  rw [ofScaled]
  by_cases hfits : Canonical n g
  · rw [dif_pos hfits]
    unfold Canonical at hfits
    exact iff_of_true rfl (by omega)
  rw [dif_neg hfits]
  by_cases hcarried : n = 9007199254740992 ∧ Canonical 4503599627370496 (g + 1)
  · rw [dif_pos hcarried]
    unfold Canonical at hcarried
    exact iff_of_true rfl (by omega)
  · rw [dif_neg hcarried]
    unfold Canonical at hfits hcarried
    exact iff_of_false Bool.false_ne_true (by omega)

/-- What is within range is rounded to a finite number. -/
theorem isFinite_ofRat {r : Rat} (hr : |r| < 2 ^ 1023) : (ofRat r).isFinite = true := by
  by_cases hzero : r = 0
  · rw [hzero]
    rfl
  rcases ofRat_of_ne_zero hzero with ⟨n, hn, hround⟩
  have hpos : 0 < |r| := abs_pos.mpr hzero
  have hlog : Int.log 2 |r| < 1023 := by
    rw [← Int.lt_zpow_iff_log_lt (by decide) hpos, Nat.cast_ofNat]
    exact_mod_cast hr
  rw [hround, isFinite_ofScaled_iff _ (significand_le_limit hpos hn) (neg_le_gridExponent _)
    (full_significand hpos hn)]
  refine .inl ?_
  rw [gridExponent]
  omega

end Binary64

end DeskCalc
