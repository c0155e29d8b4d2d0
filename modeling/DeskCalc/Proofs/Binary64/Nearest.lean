import DeskCalc.Proofs.Binary64.Rounding

/-!
# The Nearest Number, Ties to Even

Which number a rational is rounded to, said without a word about how it is found. Among the
rationals that have at most 53 bits and are multiples of the smallest number, it is the one at
the least distance, and where two are at that distance, the one whose significand is even. Their
exponents have no upper bound here. So a rational that is nearer to `2 ^ 1024` than to the
largest number has no nearest number at all, and is rounded to an infinity.

Rounding looks at one grid only, the one that the rational's magnitude selects. That is enough:
what has 53 bits and is not on this grid is below the grid's smallest point with 53 bits, and so
is farther from the rational than that point is.

The definition makes it plain that whatever lies between a number and a rational that is rounded
to it is rounded to it too (`Binary64.IsNearest.of_between`), which is what a search for a
decimal depends on.

## Main definitions

* `Binary64.Precise`: The rationals with at most 53 bits, above the smallest exponent.
* `Binary64.HasEvenSignificand`: That the significand of a finite number is even.
* `Binary64.IsNearest`: That a number is the nearest to a rational, ties to even.

## Theorems

* `Binary64.dist_grid_le`: The point of the grid is nearer than any other.
* `Binary64.ofRat_eq_iff_isNearest`: Rounding gives the nearest number and no other.
* `Binary64.IsNearest.of_between`: What is between is rounded alike.
-/

namespace DeskCalc

/-- No integer is nearer than the nearest one, and one that is as near is its neighbour. -/
theorem NearestEven.dist_le {n : Nat} {t : Rat} (h : NearestEven n t) {k : Int} (hk : k ≠ n) :
    |(n : Rat) - t| ≤ |k - t| ∧
      (|(n : Rat) - t| = |k - t| → n % 2 = 0 ∧ |k - n| = 1 ∧ |k - t| = 1 / 2) := by
  have hapart : (1 : Rat) ≤ |(k : Rat) - n| := by
    have hne : 1 ≤ |k - n| := Int.one_le_abs (sub_ne_zero.mpr hk)
    exact_mod_cast hne
  have htriangle : |(k : Rat) - n| ≤ |k - t| + |(n : Rat) - t| := by
    rw [abs_sub_comm (n : Rat)]
    exact abs_sub_le _ _ _
  have hdist := h.distance
  -- Both distances together are one at least, and the nearest integer takes no more than half.
  refine ⟨by linarith, fun htie => ?_⟩
  have hhalf : |(n : Rat) - t| = 1 / 2 := by linarith
  have hone : |(k : Rat) - n| = 1 := by linarith
  exact ⟨h.even hhalf, by exact_mod_cast hone, by linarith⟩

namespace Binary64

variable {x : Binary64} {r : Rat}

/-! ### Nearness -/

/-- The rationals with at most 53 bits, of which none is finer than the smallest number. -/
def Precise (y : Rat) : Prop :=
  ∃ m q : Int, |m| < 9007199254740992 ∧ -1074 ≤ q ∧ y = m * 2 ^ q

/-- That the significand of a finite number is even. -/
def HasEvenSignificand : Binary64 → Prop
  | .finite _ m _ _ => m % 2 = 0
  | _ => False

/-- That a number is the nearest to a rational, and the one with an even significand if another
    is as near. -/
structure IsNearest (x : Binary64) (r : Rat) : Prop where
  /-- The number is finite. -/
  isFinite : x.isFinite = true
  /-- Nothing that has as few bits is nearer. -/
  dist_le : ∀ y, Precise y → |x.toRat - r| ≤ |y - r|
  /-- Of two that are as near, the even one is taken. -/
  even : ∀ y, Precise y → |x.toRat - r| = |y - r| → y = x.toRat ∨ x.HasEvenSignificand

theorem precise_toRat (x : Binary64) : Precise x.toRat := by
  match x with
  | .nan => exact ⟨0, 0, by decide, by decide, by rw [Int.cast_zero, zero_mul]; rfl⟩
  | .inf _ => exact ⟨0, 0, by decide, by decide, by rw [Int.cast_zero, zero_mul]; rfl⟩
  | .finite negative m q h =>
      rw [toRat, twoPow_eq_zpow]
      have hm : |(m : Int)| < 9007199254740992 := by
        rw [Nat.abs_cast]
        exact_mod_cast h.1
      cases negative with
      | false => exact ⟨m, q, hm, h.2.1, by rw [Int.cast_natCast]; rfl⟩
      | true => exact ⟨-m, q, by rwa [abs_neg], h.2.1, by rw [Int.cast_neg, Int.cast_natCast]; rfl⟩

theorem Precise.neg {y : Rat} (h : Precise y) : Precise (-y) := by
  rcases h with ⟨m, q, hm, hq, rfl⟩
  exact ⟨-m, q, by rwa [abs_neg], hq, by rw [Int.cast_neg, neg_mul]⟩

theorem precise_zero : Precise 0 := toRat_zero false ▸ precise_toRat (zero false)

theorem toRat_neg (x : Binary64) : x.neg.toRat = -x.toRat := by
  match x with
  | .nan => exact neg_zero.symm
  | .inf _ => exact neg_zero.symm
  | .finite negative m q h =>
      rw [toRat, ← neg_mul]
      cases negative with
      | false => rfl
      | true => exact congrArg (· * twoPow q) (neg_involutive (m : Rat)).symm

theorem hasEvenSignificand_neg (x : Binary64) :
    x.neg.HasEvenSignificand ↔ x.HasEvenSignificand := by
  cases x <;> exact Iff.rfl

/-- Changing the sign of a number and of a rational leaves their distance as it is. -/
theorem IsNearest.neg (h : IsNearest x r) : IsNearest x.neg (-r) := by
  have hflip (y : Rat) : |y - -r| = |-y - r| := by
    rw [← abs_neg]
    congr 1
    ring
  have hself : |x.neg.toRat - -r| = |x.toRat - r| := by
    rw [toRat_neg, hflip, neg_involutive x.toRat]
  refine ⟨(x.isFinite_withSign _).trans h.isFinite, fun y hy => ?_, fun y hy htie => ?_⟩
  · rw [hself, hflip]
    exact h.dist_le _ hy.neg
  · rw [hself, hflip] at htie
    rw [toRat_neg, hasEvenSignificand_neg, eq_comm, neg_eq_iff_eq_neg, eq_comm]
    exact h.even _ hy.neg htie

/-- A positive number is nearest to positive rationals only, since zero has few enough bits. -/
theorem IsNearest.pos (h : IsNearest x r) (hx : 0 < x.toRat) : 0 < r := by
  by_contra hr
  rw [not_lt] at hr
  have hzero := h.dist_le 0 precise_zero
  rw [abs_of_pos (by linarith), zero_sub, abs_neg, abs_of_nonpos hr] at hzero
  linarith

/-- What is between a number and a rational that it is the nearest to is rounded alike. -/
theorem IsNearest.of_between {v : Rat} (h : IsNearest x v)
    (hr : v ≤ r ∧ r ≤ x.toRat ∨ x.toRat ≤ r ∧ r ≤ v) : IsNearest x r := by
  have hsum : |x.toRat - r| + |r - v| = |x.toRat - v| := by
    rcases hr with ⟨hlower, hupper⟩ | ⟨hlower, hupper⟩
    · rw [abs_of_nonneg (by linarith), abs_of_nonneg (by linarith), abs_of_nonneg (by linarith)]
      ring
    · rw [abs_of_nonpos (by linarith), abs_of_nonpos (by linarith), abs_of_nonpos (by linarith)]
      ring
  refine ⟨h.isFinite, fun y hy => ?_, fun y hy htie => ?_⟩
  · have hdist := h.dist_le y hy
    have htriangle := abs_sub_le y r v
    linarith
  · have hdist := h.dist_le y hy
    have htriangle := abs_sub_le y r v
    exact h.even y hy (by linarith)

/-! ### The grid -/

theorem abs_mul_zpow_sub (a r : Rat) (q : Int) : |a * 2 ^ q - r| = |a - r / 2 ^ q| * 2 ^ q := by
  have hpow : (0 : Rat) < 2 ^ q := zpow_pos (by norm_num) q
  rw [← abs_of_pos hpow, ← abs_mul, abs_of_pos hpow, sub_mul, div_mul_cancel₀ r hpow.ne']

/-- Of two ways to write a number, the one with the smaller exponent has the other's significand
    shifted. -/
theorem eq_mul_two_pow {a b p q : Int} (h : (a : Rat) * 2 ^ p = b * 2 ^ q) (hpq : p ≤ q) :
    a = b * 2 ^ (q - p).toNat := by
  have hpow : (2 : Rat) ^ p ≠ 0 := zpow_ne_zero p two_ne_zero
  have hshift : (2 : Rat) ^ q = 2 ^ (q - p).toNat * 2 ^ p := by
    rw [← zpow_natCast, ← zpow_add₀ two_ne_zero, Int.toNat_of_nonneg (by omega),
      Int.sub_add_cancel]
  rw [hshift, ← mul_assoc] at h
  exact_mod_cast mul_right_cancel₀ hpow h

/-- What has few enough bits is on the grid of a positive rational, or it is below the points of
    the grid that have 53 bits. -/
theorem Precise.grid_or_lt {y : Rat} (hy : Precise y) (hr : 0 < r) :
    (∃ k : Int, y = k * 2 ^ gridExponent r) ∨
      y < (4503599627370496 : Int) * 2 ^ gridExponent r ∧ 2 ^ 52 ≤ r / 2 ^ gridExponent r := by
  rcases hy with ⟨m, q, hm, hq, rfl⟩
  by_cases hgrid : gridExponent r ≤ q
  · refine .inl ⟨m * 2 ^ (q - gridExponent r).toNat, ?_⟩
    push_cast
    rw [mul_assoc, ← zpow_natCast, ← zpow_add₀ two_ne_zero, Int.toNat_of_nonneg (by omega),
      Int.sub_add_cancel]
  · refine .inr ⟨?_, (full_count hr).resolve_left (by omega)⟩
    have hpow : (0 : Rat) < 2 ^ q := zpow_pos (by norm_num) q
    have hbits : (m : Rat) < 9007199254740992 := by
      exact_mod_cast (le_abs_self m).trans_lt hm
    have hstep : (2 : Rat) ^ (q + 1) ≤ 2 ^ gridExponent r :=
      zpow_le_zpow_right₀ (by norm_num) (by omega)
    rw [zpow_add_one₀ two_ne_zero] at hstep
    calc (m : Rat) * 2 ^ q < 9007199254740992 * 2 ^ q := mul_lt_mul_of_pos_right hbits hpow
      _ = (4503599627370496 : Int) * (2 ^ q * 2) := by
          push_cast
          ring
      _ ≤ (4503599627370496 : Int) * 2 ^ gridExponent r :=
          mul_le_mul_of_nonneg_left hstep (by norm_num)

/-- The point of the grid that a positive rational is rounded to is nearer than anything else, or
    the even one of two neighbours. -/
theorem dist_grid_le (hr : 0 < r) {n : Nat} (hn : NearestEven n (r / 2 ^ gridExponent r)) {y : Rat}
    (hy : Precise y) (hne : y ≠ n * 2 ^ gridExponent r) :
    |(n : Rat) * 2 ^ gridExponent r - r| ≤ |y - r| ∧
      (|(n : Rat) * 2 ^ gridExponent r - r| = |y - r| → n % 2 = 0 ∧ ∃ k : Int,
        y = k * 2 ^ gridExponent r ∧ |k - n| = 1 ∧ |k - r / 2 ^ gridExponent r| = 1 / 2) := by
  have hpow : (0 : Rat) < 2 ^ gridExponent r := zpow_pos (by norm_num) _
  rcases hy.grid_or_lt hr with ⟨k, rfl⟩ | ⟨hlt, hfull⟩
  · have hk : k ≠ n := by
      rintro rfl
      exact hne (by rw [Int.cast_natCast])
    rcases hn.dist_le hk with ⟨hle, htie⟩
    rw [abs_mul_zpow_sub, abs_mul_zpow_sub, mul_le_mul_iff_of_pos_right hpow,
      mul_left_inj' hpow.ne']
    exact ⟨hle, fun h => ⟨(htie h).1, k, rfl, (htie h).2⟩⟩
  · -- The smallest point of the grid with 53 bits is nearer than what is below it.
    have hsmallest : (4503599627370496 : Int) * 2 ^ gridExponent r ≤ r := by
      rw [le_div_iff₀ hpow] at hfull
      norm_num at hfull ⊢
      exact hfull
    have hnearer : |(n : Rat) * 2 ^ gridExponent r - r| ≤
        |(4503599627370496 : Int) * 2 ^ gridExponent r - r| := by
      rw [abs_mul_zpow_sub, abs_mul_zpow_sub, mul_le_mul_iff_of_pos_right hpow]
      by_cases hk : (4503599627370496 : Int) = n
      · rw [hk, Int.cast_natCast]
      · exact (hn.dist_le hk).1
    have hfarther : |(4503599627370496 : Int) * 2 ^ gridExponent r - r| < |y - r| := by
      rw [abs_of_nonpos (by linarith), abs_of_neg (by linarith)]
      linarith
    have hstrict := hnearer.trans_lt hfarther
    exact ⟨hstrict.le, fun htie => absurd htie hstrict.ne⟩

/-! ### Rounding -/

theorem ofScaled_not (negative : Bool) (n : Nat) (q : Int) :
    ofScaled (!negative) n q = (ofScaled negative n q).neg := by
  rw [ofScaled, ofScaled]
  split
  · rfl
  · split <;> rfl

/-- A finite number that is made of a significand and an exponent has their value, and if the
    significand is even it stays so. -/
theorem ofScaled_finite {n : Nat} {q : Int} (h : ofScaled false n q = x)
    (hx : x.isFinite = true) :
    x.toRat = n * 2 ^ q ∧ (n % 2 = 0 → x.HasEvenSignificand) := by
  rw [ofScaled] at h
  by_cases hfits : Canonical n q
  · rw [dif_pos hfits] at h
    subst h
    exact ⟨by rw [toRat, twoPow_eq_zpow]; rfl, id⟩
  rw [dif_neg hfits] at h
  by_cases hcarried : n = 9007199254740992 ∧ Canonical 4503599627370496 (q + 1)
  · rw [dif_pos hcarried] at h
    subst h
    refine ⟨?_, fun _ => rfl⟩
    rw [toRat, twoPow_eq_zpow, hcarried.1, zpow_add_one₀ two_ne_zero, if_neg Bool.false_ne_true]
    push_cast
    ring
  · rw [dif_neg hcarried] at h
    subst h
    exact absurd hx Bool.false_ne_true

/-- A significand and an exponent whose value is that of a number make up this number. -/
theorem ofScaled_eq {n m : Nat} {g q : Int} (hle : n ≤ 9007199254740992) (hmin : -1074 ≤ g)
    (hfull : g = -1074 ∨ 4503599627370496 ≤ n) (h : Canonical m q)
    (hvalue : (n : Rat) * 2 ^ g = m * 2 ^ q) : ofScaled false n g = .finite false m q h := by
  rw [← Int.cast_natCast n, ← Int.cast_natCast m] at hvalue
  rcases lt_trichotomy g q with hlt | rfl | hgt
  · -- Rounding has carried.
    have hshift := eq_mul_two_pow hvalue hlt.le
    obtain ⟨s, hs⟩ : ∃ s, (q - g).toNat = s + 1 := ⟨(q - g).toNat - 1, by omega⟩
    rw [hs] at hshift
    have hn : n = m * 2 ^ s * 2 := by
      rw [mul_assoc, ← pow_succ]
      exact_mod_cast hshift
    have hm := h.2.2.2.resolve_left (by omega)
    have hs' : s = 0 := by
      by_contra hne
      have htwo : 2 ≤ 2 ^ s := Nat.le_self_pow hne 2
      have hmore : m * 2 ≤ m * 2 ^ s := Nat.mul_le_mul_left m htwo
      omega
    subst hs'
    obtain rfl : m = 4503599627370496 := by omega
    obtain rfl : g = q - 1 := by omega
    rw [hn]
    exact ofScaled_carried false h
  · have hn : n = m := by
      have hshift := eq_mul_two_pow hvalue (le_refl g)
      rw [sub_self, Int.toNat_zero, pow_zero, mul_one] at hshift
      exact_mod_cast hshift
    subst hn
    rw [ofScaled, dif_pos h]
  · have hshift := eq_mul_two_pow hvalue.symm hgt.le
    obtain ⟨s, hs⟩ : ∃ s, (g - q).toNat = s + 1 := ⟨(g - q).toNat - 1, by omega⟩
    rw [hs] at hshift
    have hm : m = n * 2 ^ s * 2 := by
      rw [mul_assoc, ← pow_succ]
      exact_mod_cast hshift
    have hmore : n ≤ n * 2 ^ s := Nat.le_mul_of_pos_right n (Nat.two_pow_pos s)
    have hmin := h.2.1
    have hlimit := h.1
    omega

/-- Of two neighbours that a positive rational is in the middle of, one is odd. -/
theorem not_even_of_neighbour (hr : 0 < r) {n m : Nat} {k q : Int} (hn : n % 2 = 0)
    (hk : |k - n| = 1) (hhalf : |(k : Rat) - r / 2 ^ gridExponent r| = 1 / 2) (h : Canonical m q)
    (hvalue : (m : Rat) * 2 ^ q = k * 2 ^ gridExponent r) : m % 2 ≠ 0 := by
  intro hm
  rw [← Int.cast_natCast m] at hvalue
  have hodd : k % 2 = 1 := by
    rcases abs_eq (by decide) |>.mp hk with hk | hk <;> omega
  by_cases hgrid : gridExponent r ≤ q
  · have hshift := eq_mul_two_pow hvalue.symm hgrid
    have heven : k % 2 = 0 := by
      rw [hshift, Int.mul_emod, (by omega : (m : Int) % 2 = 0), zero_mul, Int.zero_emod]
    omega
  · -- The neighbour has 53 bits on its own grid, so no finer one holds it.
    have hmin := h.2.1
    have hcount := (full_count hr).resolve_left (by omega)
    have hbelow : 4503599627370496 ≤ k := by
      have hlt : (4503599627370496 : Rat) < k + 1 := by
        have hdist := (abs_eq (by norm_num)).mp hhalf
        norm_num at hcount
        rcases hdist with hdist | hdist <;> linarith
      exact Int.lt_add_one_iff.mp (by exact_mod_cast hlt)
    have hshift := eq_mul_two_pow hvalue (by omega)
    obtain ⟨s, hs⟩ : ∃ s, (gridExponent r - q).toNat = s + 1 :=
      ⟨(gridExponent r - q).toNat - 1, by omega⟩
    have hmore : k * 1 ≤ k * 2 ^ s :=
      mul_le_mul_of_nonneg_left (by exact_mod_cast Nat.two_pow_pos s) (by omega)
    rw [hs, pow_succ, ← mul_assoc] at hshift
    have hlimit := h.1
    omega

/-- The number that a positive rational is rounded to is the nearest one. -/
theorem isNearest_ofRat (hr : 0 < r) (hfinite : (ofRat r).isFinite = true) :
    IsNearest (ofRat r) r := by
  rcases ofRat_of_pos hr with ⟨n, hn, hround⟩
  rcases ofScaled_finite hround.symm hfinite with ⟨hvalue, heven⟩
  refine ⟨hfinite, fun y hy => ?_, fun y hy htie => ?_⟩
  all_goals rw [hvalue]
  · by_cases hne : y = n * 2 ^ gridExponent r
    · rw [hne]
    · exact (dist_grid_le hr hn hy hne).1
  · by_cases hne : y = n * 2 ^ gridExponent r
    · exact .inl hne
    · rw [hvalue] at htie
      exact .inr (heven ((dist_grid_le hr hn hy hne).2 htie).1)

theorem precise_grid (hr : 0 < r) {n : Nat} (hn : NearestEven n (r / 2 ^ gridExponent r)) :
    Precise (n * 2 ^ gridExponent r) := by
  have hle := significand_le_limit hr hn
  have hmin := neg_le_gridExponent r
  -- What rounding has carried is a power of two, which needs one bit only.
  by_cases hfits : n < 9007199254740992
  · exact ⟨n, gridExponent r, by rw [Nat.abs_cast]; exact_mod_cast hfits, hmin,
      by rw [Int.cast_natCast]⟩
  · obtain rfl : n = 9007199254740992 := by omega
    refine ⟨4503599627370496, gridExponent r + 1, by decide, by omega, ?_⟩
    rw [zpow_add_one₀ two_ne_zero]
    push_cast
    ring

/-- A positive number is what a positive rational is rounded to if, and only if, it is the nearest
    one. -/
theorem ofRat_eq_iff_of_pos (hx : 0 < x.toRat) (hr : 0 < r) :
    ofRat r = x ↔ IsNearest x r := by
  rcases eq_finite_of_toRat_pos hx with ⟨m, q, h, hfinite, -, hvalue⟩
  constructor
  · rintro rfl
    exact isNearest_ofRat hr (by rw [hfinite]; rfl)
  · intro hnearest
    rcases ofRat_of_pos hr with ⟨n, hn, hround⟩
    have hpoint := precise_grid hr hn
    have hsame : x.toRat = n * 2 ^ gridExponent r := by
      by_contra hne
      -- Both would be nearest, so they would be neighbours with even significands.
      rcases dist_grid_le hr hn (precise_toRat x) hne with ⟨hle, htie⟩
      have heq := le_antisymm hle (hnearest.dist_le _ hpoint)
      rcases htie heq with ⟨heven, k, hk, hneighbour, hhalf⟩
      have hself := (hnearest.even _ hpoint heq.symm).resolve_left (Ne.symm hne)
      rw [hfinite] at hself
      exact not_even_of_neighbour hr heven hneighbour hhalf h (hvalue.symm.trans hk) hself
    rw [hround, hfinite]
    exact ofScaled_eq (significand_le_limit hr hn) (neg_le_gridExponent r)
      (full_significand hr hn) h (hsame.symm.trans hvalue)

theorem ofRat_zero : ofRat 0 = zero false := rfl

/-- Rounding treats both signs alike. -/
theorem ofRat_neg (hr : r ≠ 0) : ofRat (-r) = (ofRat r).neg := by
  have hnum : r.num ≠ 0 := Rat.num_ne_zero.mpr hr
  have hsign : decide (-r.num < 0) = !decide (r.num < 0) := by
    rw [← decide_not]
    exact decide_eq_decide.mpr (by omega)
  rw [ofRat, ofRat, if_neg hnum, Rat.num_neg_eq_neg_num, if_neg (neg_ne_zero.mpr hnum),
    Int.natAbs_neg, Rat.den_neg_eq_den, hsign, roundQuotient, roundQuotient, ofScaled_not]

/-- A number other than zero is positive or its opposite is. -/
theorem toRat_pos_or_neg (hfinite : x.isFinite = true) (hx : x.isZero = false) :
    0 < x.toRat ∨ 0 < x.neg.toRat := by
  match x, hfinite with
  | .finite negative m q h, _ =>
      have hpos := toRat_pos h (ne_of_beq_false hx)
      cases negative with
      | false => exact .inl hpos
      | true => exact .inr hpos

/-- A number that is not positive is rounded to none that is. -/
theorem pos_of_ofRat_eq (hx : 0 < x.toRat) (h : ofRat r = x) : 0 < r := by
  rcases eq_finite_of_toRat_pos hx with ⟨m, q, hcanonical, hfinite, -, -⟩
  rcases lt_trichotomy r 0 with hneg | rfl | hpos
  · -- The opposite would be rounded to a number that is positive as well.
    have hopposite : ofRat (-r) = x.neg := by
      rw [ofRat_neg hneg.ne, h]
    have hnearest := isNearest_ofRat (neg_pos.mpr hneg) (by rw [hopposite, hfinite]; rfl)
    have hzero := hnearest.dist_le 0 precise_zero
    rw [hopposite, toRat_neg, abs_of_neg (by linarith), abs_of_neg (by linarith)] at hzero
    linarith
  · rw [← h, ofRat_zero, toRat_zero] at hx
    exact absurd hx (lt_irrefl 0)
  · exact hpos

/-- A finite number other than zero is what a rational is rounded to if, and only if, it is the
    nearest one. -/
theorem ofRat_eq_iff_isNearest (hfinite : x.isFinite = true) (hx : x.isZero = false) :
    ofRat r = x ↔ IsNearest x r := by
  -- A negative number is settled by its opposite.
  have hpositive {x : Binary64} {r : Rat} (hx : 0 < x.toRat) : ofRat r = x ↔ IsNearest x r :=
    ⟨fun h => (ofRat_eq_iff_of_pos hx (pos_of_ofRat_eq hx h)).mp h,
      fun h => (ofRat_eq_iff_of_pos hx (h.pos hx)).mpr h⟩
  rcases toRat_pos_or_neg hfinite hx with hpos | hneg
  · exact hpositive hpos
  · constructor
    · intro h
      have hr : r ≠ 0 := by
        rintro rfl
        rw [← h, ofRat_zero, toRat_neg, toRat_zero, neg_zero] at hneg
        exact absurd hneg (lt_irrefl 0)
      have hopposite := (hpositive hneg).mp (by rw [ofRat_neg hr, h])
      have hback := hopposite.neg
      rwa [neg_neg, neg_involutive r] at hback
    · intro h
      have hr : r ≠ 0 := by
        rintro rfl
        exact absurd (h.neg.pos hneg) (by rw [neg_zero]; exact lt_irrefl 0)
      have hopposite := (hpositive hneg).mpr h.neg
      rw [ofRat_neg hr] at hopposite
      rw [← neg_neg (ofRat r), hopposite, neg_neg]

end Binary64

end DeskCalc
