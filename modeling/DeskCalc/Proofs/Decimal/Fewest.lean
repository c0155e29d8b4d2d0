import DeskCalc.Proofs.Binary64.Nearest
import DeskCalc.Proofs.Decimal.Shortest

/-!
# The Shortest Decimal Has the Fewest Digits

The search for the shortest decimal tests two candidates with one digit, two with two digits, and
so on, and takes the first that reads back. So what has to be shown is that a decimal with fewer
digits would have made it stop earlier, although it need not be one of the candidates.

Take the last test that failed, one digit short of the result. A decimal with at most as many
digits lies on the grid of that test, or else it is so small that the power of ten in front of
the number is between the two. In both cases one of the candidates is between the decimal and the
number, and what is between them is rounded to the number if the decimal is.

## Theorems

* `Decimal.not_isNearest_of_fewer`: Nothing with fewer digits reads back.
* `Decimal.digits_trim_mod_ne_zero`: Taking trailing zeros off takes all of them off.
* `Decimal.isNearest_shortest`: The shortest decimal reads back.
-/

namespace DeskCalc

namespace Decimal

open Binary64

variable {r : Rat} {x : Binary64}

/-! ### The grid of a test -/

/-- A point of the grid that is not above a rational is not above the candidate below it. -/
theorem le_toRat_below (hr : 0 < r) {a : Nat} {k : Int} (h : (a : Rat) * 10 ^ k ≤ r) :
    (a : Rat) * 10 ^ k ≤ (below r k).toRat := by
  have hpow : (0 : Rat) < 10 ^ k := zpow_pos (by norm_num) k
  have hdigits : a ≤ (below r k).digits := by
    rw [← le_div_iff₀ hpow] at h
    have hfloor : (a : Int) ≤ (below r k).digits := by
      rw [natCast_digits_below hr, Int.le_floor]
      exact_mod_cast h
    exact_mod_cast hfloor
  rw [toRat_eq]
  exact mul_le_mul_of_nonneg_right (Nat.cast_le.mpr hdigits) hpow.le

/-- A point of the grid that is above a rational is not below the candidate above it. -/
theorem toRat_above_le (hr : 0 < r) {a : Nat} {k : Int} (h : r < (a : Rat) * 10 ^ k) :
    (above r k).toRat ≤ (a : Rat) * 10 ^ k := by
  have hpow : (0 : Rat) < 10 ^ k := zpow_pos (by norm_num) k
  have hdigits : (above r k).digits ≤ a := by
    rw [← div_lt_iff₀ hpow] at h
    have hfloor : ((below r k).digits : Int) < a := by
      rw [natCast_digits_below hr, Int.floor_lt]
      exact_mod_cast h
    exact_mod_cast hfloor
  rw [toRat_eq]
  exact mul_le_mul_of_nonneg_right (Nat.cast_le.mpr hdigits) hpow.le

/-- The candidates of a test have as many digits as it is for, or they are the power of ten with
    one more. -/
theorem digits_above_le (hr : 0 < r) (i : Nat) :
    (above r (Int.log 10 r - i)).digits ≤ 10 ^ (i + 1) := by
  have hpow : (0 : Rat) < 10 ^ (Int.log 10 r - i) := zpow_pos (by norm_num) _
  have hnext := Int.lt_zpow_succ_log_self (b := 10) (by decide) r
  have hsplit : Int.log 10 r + 1 = ((i + 1 : Nat) : Int) + (Int.log 10 r - i) := by
    push_cast
    ring
  rw [Nat.cast_ofNat, hsplit, zpow_add₀ (by norm_num), zpow_natCast, ← div_lt_iff₀ hpow] at hnext
  have hfloor : ((below r (Int.log 10 r - i)).digits : Int) < (10 ^ (i + 1) : Nat) := by
    rw [natCast_digits_below hr, Int.floor_lt]
    exact_mod_cast hnext
  exact Nat.cast_lt.mp hfloor

/-! ### Trailing zeros -/

theorem digits_trim_le (fuel : Nat) (d : Decimal) : (d.trim fuel).digits ≤ d.digits := by
  induction fuel generalizing d with
  | zero => exact Nat.le_refl _
  | succ fuel ih =>
      rw [trim]
      split
      · exact (ih _).trans (Nat.div_le_self _ _)
      · exact Nat.le_refl _

/-- If there is fuel for all of them, no trailing zero is left. -/
theorem digits_trim_mod_ne_zero {fuel : Nat} {d : Decimal} (hd : 0 < d.digits)
    (hfuel : d.digits < 10 ^ (fuel + 1)) : (d.trim fuel).digits % 10 ≠ 0 := by
  induction fuel generalizing d with
  | zero =>
      rw [trim]
      omega
  | succ fuel ih =>
      rw [trim]
      by_cases hzero : d.digits ≠ 0 ∧ d.digits % 10 = 0
      · have hquotient : 0 < d.digits / 10 := by omega
        have hless : d.digits / 10 < 10 ^ (fuel + 1) := by
          rwa [Nat.div_lt_iff_lt_mul (by decide), ← Nat.pow_succ]
        rw [if_pos hzero]
        exact ih hquotient hless
      · rw [if_neg hzero]
        omega

/-! ### Fewest digits -/

/-- What the search has found has digits enough for all its zeros to be taken off, and is no longer
    than the test is for after that. -/
theorem shortest_spec (hx : 0 < x.toRat) :
    ∃ i, (shortest x).digits % 10 ≠ 0 ∧ (shortest x).digitChars.length ≤ i + 1 ∧
      ∀ j < i, shortestAt? x x.toRat (Int.log 10 x.toRat - (j : Nat)) = none := by
  rcases shortest_eq_trim hx with ⟨i, hi, d, hfound, hbefore, hshortest⟩
  rcases shortestAt?_eq_some hfound with ⟨hcandidate, hreads⟩
  have hmost : d.digits ≤ 10 ^ (i + 1) := by
    have habove := digits_above_le hx i
    rcases hcandidate with rfl | rfl
    · exact (Nat.le_succ _).trans habove
    · exact habove
  have hfuel : d.digits < 10 ^ (17 + 1) :=
    hmost.trans_lt (Nat.pow_lt_pow_right (by decide) (by omega))
  have hlast := digits_trim_mod_ne_zero (digits_pos_of_toBinary64 hx hreads) hfuel
  refine ⟨i, hshortest ▸ hlast, ?_, hbefore⟩
  rw [hshortest, digitChars, Nat.length_toDigits_le_iff (by decide) (Nat.succ_pos i)]
  -- The power of ten with one more digit is trimmed, so it is not what is left.
  refine lt_of_le_of_ne ((digits_trim_le 17 d).trans hmost) fun hpower => hlast ?_
  rw [hpower, Nat.pow_succ, Nat.mul_mod_left]

theorem digits_shortest_mod_ne_zero (hx : 0 < x.toRat) : (shortest x).digits % 10 ≠ 0 := by
  rcases shortest_spec hx with ⟨_, hlast, _⟩
  exact hlast

theorem isNearest_shortest (hx : 0 < x.toRat) : IsNearest x (shortest x).toRat := by
  have hreads := toBinary64_shortest hx
  have hpos := (shortest x).digits_pos_iff.mp (digits_pos_of_toBinary64 hx hreads)
  exact (ofRat_eq_iff_of_pos hx hpos).mp hreads

/-- Nothing with fewer digits than the shortest decimal reads back. -/
theorem not_isNearest_of_fewer (hx : 0 < x.toRat) {n : Nat}
    (hn : n < 10 ^ ((shortest x).digitChars.length - 1)) (k : Int) :
    ¬ IsNearest x (n * 10 ^ k) := by
  intro hnearest
  rcases shortest_spec hx with ⟨i, _, hlength, hbefore⟩
  have hpos := hnearest.pos hx
  -- The decimal has no more digits than the test before the one that succeeded is for.
  have hfew : n < 10 ^ i := hn.trans_le (Nat.pow_le_pow_right (by decide) (by omega))
  obtain ⟨j, rfl⟩ : ∃ j, i = j + 1 := by
    refine ⟨i - 1, ?_⟩
    have hzero : i ≠ 0 := by
      rintro rfl
      obtain rfl : n = 0 := by omega
      rw [Nat.cast_zero, zero_mul] at hpos
      exact absurd hpos (lt_irrefl 0)
    omega
  -- The candidates of the last test that failed.
  rcases shortestAt?_eq_none (hbefore j (Nat.lt_succ_self j)) with ⟨hbelow, habove⟩
  have hle := toRat_below_le hx (Int.log 10 x.toRat - j)
  have hlt := lt_toRat_above hx (Int.log 10 x.toRat - j)
  have hfails_below : ¬ (n : Rat) * 10 ^ k ≤ (below x.toRat (Int.log 10 x.toRat - j)).toRat :=
    fun h => hbelow ((ofRat_eq_iff_of_pos hx (hpos.trans_le h)).mpr
      (hnearest.of_between (.inl ⟨h, hle⟩)))
  have hfails_above : ¬ (above x.toRat (Int.log 10 x.toRat - j)).toRat ≤ (n : Rat) * 10 ^ k :=
    fun h => habove ((ofRat_eq_iff_of_pos hx (hx.trans hlt)).mpr
      (hnearest.of_between (.inr ⟨hlt.le, h⟩)))
  by_cases hgrid : Int.log 10 x.toRat - j ≤ k
  · -- The decimal is on the grid of the test.
    obtain ⟨a, ha⟩ : ∃ a : Nat, (n : Rat) * 10 ^ k = a * 10 ^ (Int.log 10 x.toRat - j) := by
      refine ⟨n * 10 ^ (k - (Int.log 10 x.toRat - j)).toNat, ?_⟩
      push_cast
      rw [mul_assoc, ← zpow_natCast, ← zpow_add₀ (by norm_num), Int.toNat_of_nonneg (by omega),
        Int.sub_add_cancel]
    rw [ha] at hfails_below hfails_above
    rcases le_or_gt ((a : Rat) * 10 ^ (Int.log 10 x.toRat - j)) x.toRat with hdown | hup
    · exact hfails_below (le_toRat_below hx hdown)
    · exact hfails_above (toRat_above_le hx hup)
  · -- The decimal is below the power of ten in front of the number.
    have hpower : ((10 ^ j : Nat) : Rat) * 10 ^ (Int.log 10 x.toRat - j) =
        10 ^ Int.log 10 x.toRat := by
      push_cast
      rw [← zpow_natCast, ← zpow_add₀ (by norm_num)]
      congr 1
      ring
    have hself := Int.zpow_log_le_self (b := 10) (by decide) hx
    rw [Nat.cast_ofNat, ← hpower] at hself
    refine hfails_below (le_trans ?_ (le_toRat_below hx hself))
    have htens : (n : Rat) ≤ 10 ^ (j + 1) := by
      exact_mod_cast hfew.le
    have hten : (0 : Rat) < 10 ^ k := zpow_pos (by norm_num) k
    rw [hpower]
    calc (n : Rat) * 10 ^ k ≤ 10 ^ (j + 1) * 10 ^ k := mul_le_mul_of_nonneg_right htens hten.le
      _ = (10 : Rat) ^ ((j + 1 : Nat) + k) := by rw [zpow_add₀ (by norm_num), zpow_natCast]
      _ ≤ 10 ^ Int.log 10 x.toRat := zpow_le_zpow_right₀ (by norm_num) (by push_cast; omega)

end Decimal

end DeskCalc
