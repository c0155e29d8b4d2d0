import DeskCalc.Decimal.Layout
import DeskCalc.Decimal.Shortest
import DeskCalc.Proofs.Binary64.Rounding

/-!
# The Shortest Decimal Reads Back

The search for the shortest decimal gives up after seventeen digits, and this is why it never
has to. With seventeen digits the decimals lie closer together than one part in `10 ^ 16` of the
number, so one of the two around it is within half of that, and whatever is that near is rounded
to the number. What the search finds has been tested, and taking trailing zeros off changes
nothing.

All of it rests on the exponent that the digits are counted from. It is estimated from the
power of two, with `0.30103` for the logarithm of two; the powers `2 ^ 93 < 10 ^ 28` and
`10 ^ 59 < 2 ^ 196` show that the estimate is off by one at most, far beyond the range in which
it is used.

## Main definitions

* `Decimal.below`, `Decimal.above`: The two candidates around a rational.

## Theorems

* `floorLog10_eq_log`: The exponent is the logarithm, rounded down.
* `Decimal.shortestAt?_eq_some`, `Decimal.shortestAt?_eq_none`: What the two candidates have
  to do with the number.
* `Decimal.shortest_eq_trim`: The search succeeds.
* `Decimal.toBinary64_shortest`: The shortest decimal reads back.
* `Decimal.leading_shortest`: Its first digit is where the number's is, or close by.
-/

namespace DeskCalc

/-! ### Exact values -/

namespace Decimal

theorem tenPow_eq_zpow (k : Int) : tenPow k = 10 ^ k := by
  have h := ratPow_eq_zpow 10 k
  rw [Nat.cast_ofNat] at h
  exact h

theorem toRat_eq (d : Decimal) : d.toRat = d.digits * 10 ^ d.exponent := by
  rw [← tenPow_eq_zpow, toRat, tenPow]
  by_cases he : 0 ≤ d.exponent
  · rw [if_pos he, if_pos he, Nat.cast_mul]
  · rw [if_neg he, if_neg he, Rat.mkRat_eq_div, Rat.mkRat_eq_div, Int.cast_natCast, Int.cast_one,
      mul_one_div]

/-- Taking trailing zeros off leaves the value. -/
theorem toRat_trim (fuel : Nat) (d : Decimal) : (d.trim fuel).toRat = d.toRat := by
  induction fuel generalizing d with
  | zero => rfl
  | succ fuel ih =>
      rw [trim]
      by_cases hzero : d.digits ≠ 0 ∧ d.digits % 10 = 0
      · have hdigits : (d.digits : Rat) = (d.digits / 10 : Nat) * 10 := by
          exact_mod_cast (Nat.div_mul_cancel (Nat.dvd_of_mod_eq_zero hzero.2)).symm
        rw [if_pos hzero, ih, toRat_eq, toRat_eq, zpow_add_one₀ (by norm_num), hdigits]
        ring
      · rw [if_neg hzero]

theorem digits_pos_iff (d : Decimal) : 0 < d.digits ↔ 0 < d.toRat := by
  have hpow : (0 : Rat) < 10 ^ d.exponent := zpow_pos (by norm_num) _
  rw [toRat_eq, mul_pos_iff_of_pos_right hpow, Nat.cast_pos]

end Decimal

/-! ### The exponent -/

/-- A power of two is not above a power of ten whose exponent is large enough. -/
theorem two_zpow_le_ten_zpow {a b : Int} (hpos : 28 * a ≤ 93 * b) (hneg : 59 * a ≤ 196 * b) :
    (2 : Rat) ^ a ≤ 10 ^ b := by
  have htwo : (0 : Rat) ≤ 2 ^ a := (zpow_pos (by norm_num) a).le
  have hten : (0 : Rat) ≤ 10 ^ b := (zpow_pos (by norm_num) b).le
  by_cases ha : 0 ≤ a
  · rw [← pow_le_pow_iff_left₀ htwo hten (n := 93) (by decide)]
    calc ((2 : Rat) ^ a) ^ 93 = ((2 : Rat) ^ 93) ^ a := by
          rw [← zpow_natCast, ← zpow_natCast, zpow_comm]
      _ ≤ ((10 : Rat) ^ 28) ^ a := zpow_le_zpow_left₀ ha (by norm_num) (by norm_num)
      _ = (10 : Rat) ^ (28 * a) := by rw [← zpow_natCast, ← zpow_mul]; rfl
      _ ≤ (10 : Rat) ^ (b * 93) := zpow_le_zpow_right₀ (by norm_num) (by omega)
      _ = ((10 : Rat) ^ b) ^ 93 := by rw [zpow_mul]; rfl
  · rw [← pow_le_pow_iff_left₀ htwo hten (n := 196) (by decide)]
    obtain ⟨n, rfl⟩ : ∃ n : Nat, a = -n := ⟨(-a).toNat, by omega⟩
    calc ((2 : Rat) ^ (-(n : Int))) ^ 196 = (((2 : Rat) ^ 196) ^ n)⁻¹ := by
          rw [zpow_neg, zpow_natCast, inv_pow, pow_right_comm]
      _ ≤ (((10 : Rat) ^ 59) ^ n)⁻¹ :=
          inv_anti₀ (by positivity) (pow_le_pow_left₀ (by norm_num) (by norm_num) n)
      _ = (10 : Rat) ^ (59 * -(n : Int)) := by
          rw [← pow_mul, ← zpow_natCast, ← zpow_neg]
          push_cast
          ring_nf
      _ ≤ (10 : Rat) ^ (b * 196) := zpow_le_zpow_right₀ (by norm_num) (by omega)
      _ = ((10 : Rat) ^ b) ^ 196 := by rw [zpow_mul]; rfl

/-- The exponent of a positive rational is its logarithm to base ten, rounded down. -/
theorem floorLog10_eq_log {r : Rat} (hr : 0 < r) (hsmall : -10000 ≤ Int.log 2 r)
    (hlarge : Int.log 2 r ≤ 10000) : floorLog10 r = Int.log 10 r := by
  have hlog : floorLog2 r.num.natAbs r.den = Int.log 2 r := by
    have hnum : 0 < r.num.natAbs := Int.natAbs_pos.mpr (Rat.num_ne_zero.mpr hr.ne')
    rw [floorLog2_eq_log hnum r.den_pos, natAbs_num_div_den, abs_of_pos hr]
  rw [floorLog10, hlog]
  generalize he : Int.log 2 r * 30103 / 100000 = e
  -- The estimate is off by one at most.
  have hbelow : e - 1 ≤ Int.log 10 r := by
    have hpow : (2 : Rat) ^ (-Int.log 2 r) ≤ 10 ^ (-(e - 1)) :=
      two_zpow_le_ten_zpow (by omega) (by omega)
    rw [zpow_neg, zpow_neg, inv_le_inv₀ (zpow_pos (by norm_num) _) (zpow_pos (by norm_num) _)]
      at hpow
    have hself := Int.zpow_log_le_self (b := 2) (by decide) hr
    rw [Nat.cast_ofNat] at hself
    rw [← Int.zpow_le_iff_le_log (by decide) hr, Nat.cast_ofNat]
    exact hpow.trans hself
  have habove : Int.log 10 r < e + 2 := by
    have hpow : (2 : Rat) ^ (Int.log 2 r + 1) ≤ 10 ^ (e + 2) :=
      two_zpow_le_ten_zpow (by omega) (by omega)
    have hself := Int.lt_zpow_succ_log_self (b := 2) (by decide) r
    rw [Nat.cast_ofNat] at hself
    rw [← Int.lt_zpow_iff_log_lt (by decide) hr, Nat.cast_ofNat]
    exact hself.trans_le hpow
  have hlower : r < Decimal.tenPow e ↔ Int.log 10 r < e := by
    rw [Decimal.tenPow_eq_zpow, ← Int.lt_zpow_iff_log_lt (by decide) hr, Nat.cast_ofNat]
  have hupper : Decimal.tenPow (e + 1) ≤ r ↔ e + 1 ≤ Int.log 10 r := by
    rw [Decimal.tenPow_eq_zpow, ← Int.zpow_le_iff_le_log (by decide) hr, Nat.cast_ofNat]
  by_cases hlt : r < Decimal.tenPow e
  · have h := hlower.mp hlt
    rw [if_pos hlt]
    omega
  · have h := mt hlower.mpr hlt
    rw [if_neg hlt]
    by_cases hle : Decimal.tenPow (e + 1) ≤ r
    · have h := hupper.mp hle
      rw [if_pos hle]
      omega
    · have h := mt hupper.mpr hle
      rw [if_neg hle]
      omega

/-- The exponents that positive numbers have in base ten. -/
theorem Binary64.log_ten_toRat_range {x : Binary64} (hx : 0 < x.toRat) :
    -1074 ≤ Int.log 10 x.toRat ∧ Int.log 10 x.toRat < 1024 := by
  rcases log_toRat_range hx with ⟨hsmall, hlarge⟩
  rw [← Int.zpow_le_iff_le_log (by decide) hx, Nat.cast_ofNat] at hsmall ⊢
  rw [← Int.lt_zpow_iff_log_lt (by decide) hx, Nat.cast_ofNat] at hlarge ⊢
  constructor
  · refine le_trans ?_ hsmall
    rw [zpow_neg, zpow_neg, inv_le_inv₀ (zpow_pos (by norm_num) _) (zpow_pos (by norm_num) _)]
    exact two_zpow_le_ten_zpow (by omega) (by omega)
  · exact hlarge.trans_le (two_zpow_le_ten_zpow (by omega) (by omega))

namespace Decimal

/-! ### The two candidates -/

/-- The last decimal with the given exponent that is not above a rational. -/
def below (r : Rat) (k : Int) : Decimal := ⟨(r / tenPow k).floor.toNat, k⟩

/-- The first decimal with the given exponent that is above a rational. -/
def above (r : Rat) (k : Int) : Decimal := ⟨(below r k).digits + 1, k⟩

theorem toRat_above (r : Rat) (k : Int) : (above r k).toRat = (below r k).toRat + 10 ^ k := by
  rw [toRat_eq, toRat_eq, above, Nat.cast_add_one, add_mul, one_mul, below]

theorem natCast_digits_below {r : Rat} (hr : 0 < r) (k : Int) :
    ((below r k).digits : Int) = ⌊r / 10 ^ k⌋ := by
  have hpow : (0 : Rat) < 10 ^ k := zpow_pos (by norm_num) k
  rw [below, tenPow_eq_zpow]
  exact Int.toNat_of_nonneg (Int.floor_nonneg.mpr (div_pos hr hpow).le)

theorem toRat_below_le {r : Rat} (hr : 0 < r) (k : Int) : (below r k).toRat ≤ r := by
  have hpow : (0 : Rat) < 10 ^ k := zpow_pos (by norm_num) k
  rw [toRat_eq, ← Int.cast_natCast, natCast_digits_below hr, below, ← le_div_iff₀ hpow]
  exact Int.floor_le _

theorem lt_toRat_above {r : Rat} (hr : 0 < r) (k : Int) : r < (above r k).toRat := by
  have hpow : (0 : Rat) < 10 ^ k := zpow_pos (by norm_num) k
  rw [toRat_eq, above, Nat.cast_add_one, ← Int.cast_natCast, natCast_digits_below hr,
    ← div_lt_iff₀ hpow]
  exact Int.lt_floor_add_one _

theorem nearer_eq (r : Rat) (d e : Decimal) : nearer r d e = d ∨ nearer r d e = e := by
  rw [nearer]
  by_cases hdown : r - d.toRat < e.toRat - r
  · exact .inl (if_pos hdown)
  rw [if_neg hdown]
  by_cases hup : e.toRat - r < r - d.toRat
  · exact .inr (if_pos hup)
  rw [if_neg hup]
  by_cases heven : d.digits % 2 = 0
  · exact .inl (if_pos heven)
  · exact .inr (if_neg heven)

theorem shortestAt?_eq (x : Binary64) (r : Rat) (k : Int) :
    shortestAt? x r k =
      if (below r k).toBinary64 = x then
        if (above r k).toBinary64 = x then some (nearer r (below r k) (above r k))
        else some (below r k)
      else if (above r k).toBinary64 = x then some (above r k) else none := by
  rw [shortestAt?]
  split
  case h_1 hbelow habove =>
      have hb : (below r k).toBinary64 = x := of_decide_eq_true hbelow
      have ha : (above r k).toBinary64 = x := of_decide_eq_true habove
      rw [if_pos hb, if_pos ha]
      rfl
  case h_2 hbelow habove =>
      have hb : (below r k).toBinary64 = x := of_decide_eq_true hbelow
      have ha : (above r k).toBinary64 ≠ x := of_decide_eq_false habove
      rw [if_pos hb, if_neg ha]
      rfl
  case h_3 hbelow habove =>
      have hb : (below r k).toBinary64 ≠ x := of_decide_eq_false hbelow
      have ha : (above r k).toBinary64 = x := of_decide_eq_true habove
      rw [if_neg hb, if_pos ha]
      rfl
  case h_4 hbelow habove =>
      have hb : (below r k).toBinary64 ≠ x := of_decide_eq_false hbelow
      have ha : (above r k).toBinary64 ≠ x := of_decide_eq_false habove
      rw [if_neg hb, if_neg ha]

/-- What is found is one of the candidates, and reads back. -/
theorem shortestAt?_eq_some {x : Binary64} {r : Rat} {k : Int} {d : Decimal}
    (h : shortestAt? x r k = some d) : (d = below r k ∨ d = above r k) ∧ d.toBinary64 = x := by
  rw [shortestAt?_eq] at h
  by_cases hbelow : (below r k).toBinary64 = x
  · rw [if_pos hbelow] at h
    by_cases habove : (above r k).toBinary64 = x
    · rw [if_pos habove, Option.some.injEq] at h
      rw [← h]
      rcases nearer_eq r (below r k) (above r k) with hnearer | hnearer
      · exact ⟨.inl hnearer, by rw [hnearer, hbelow]⟩
      · exact ⟨.inr hnearer, by rw [hnearer, habove]⟩
    · rw [if_neg habove, Option.some.injEq] at h
      exact ⟨.inl h.symm, h ▸ hbelow⟩
  · rw [if_neg hbelow] at h
    by_cases habove : (above r k).toBinary64 = x
    · rw [if_pos habove, Option.some.injEq] at h
      exact ⟨.inr h.symm, h ▸ habove⟩
    · rw [if_neg habove] at h
      exact absurd h (by simp only [reduceCtorEq, not_false_eq_true])

theorem shortestAt?_eq_none {x : Binary64} {r : Rat} {k : Int} (h : shortestAt? x r k = none) :
    (below r k).toBinary64 ≠ x ∧ (above r k).toBinary64 ≠ x := by
  rw [shortestAt?_eq] at h
  by_cases hbelow : (below r k).toBinary64 = x
  · rw [if_pos hbelow] at h
    split at h <;> exact absurd h (by simp only [reduceCtorEq, not_false_eq_true])
  · rw [if_neg hbelow] at h
    by_cases habove : (above r k).toBinary64 = x
    · rw [if_pos habove] at h
      exact absurd h (by simp only [reduceCtorEq, not_false_eq_true])
    · exact ⟨hbelow, habove⟩

/-- One of the candidates reads back where they lie closely enough together. -/
theorem shortestAt?_ne_none {x : Binary64} (hx : 0 < x.toRat) {k : Int}
    (hk : 10 ^ k * 10 ^ 16 ≤ x.toRat) : shortestAt? x x.toRat k ≠ none := by
  intro hnone
  rcases shortestAt?_eq_none hnone with ⟨hbelow, habove⟩
  rcases Binary64.eq_finite_of_toRat_pos hx with ⟨m, q, h, hfinite, hm, hvalue⟩
  have hreads {d : Decimal} (hd : |d.toRat - x.toRat| * 2 ≤ 10 ^ k) : d.toBinary64 = x := by
    rw [hvalue] at hd hk
    rw [hfinite, toBinary64]
    exact Binary64.ofRat_eq_of_near h hm (by linarith)
  -- The nearer of the two is no further away than half their distance.
  have hle := toRat_below_le hx k
  have hlt := lt_toRat_above hx k
  have hdistance := toRat_above x.toRat k
  by_cases hdown : (x.toRat - (below x.toRat k).toRat) * 2 ≤ 10 ^ k
  · refine hbelow (hreads ?_)
    rwa [abs_sub_comm, abs_of_nonneg (by linarith)]
  · refine habove (hreads ?_)
    rw [abs_of_nonneg (by linarith)]
    linarith

/-! ### The search -/

/-- What a search through the first natural numbers finds, it does not find before. -/
theorem exists_of_findSome?_range {α : Type} {f : Nat → Option α} {m : Nat} {a : α}
    (h : (List.range m).findSome? f = some a) :
    ∃ n < m, f n = some a ∧ ∀ i < n, f i = none := by
  rcases List.findSome?_eq_some_iff.mp h with ⟨before, n, after, hsplit, hn, hbefore⟩
  have hlength : before.length < m := by
    have hcount := congrArg List.length hsplit
    rw [List.length_range, List.length_append, List.length_cons] at hcount
    omega
  have htake : before = List.range before.length := by
    have hprefix := congrArg (List.take before.length) hsplit
    rwa [List.take_left, List.take_range, Nat.min_eq_left hlength.le, eq_comm] at hprefix
  have hplace : n = before.length := by
    have hget := congrArg (fun l => l[before.length]?) hsplit
    rw [List.getElem?_range hlength, List.getElem?_append_right (Nat.le_refl _), Nat.sub_self,
      List.getElem?_cons_zero, Option.some.injEq] at hget
    exact hget.symm
  refine ⟨n, hplace ▸ hlength, hn, fun i hi => hbefore i ?_⟩
  rw [htake, List.mem_range, ← hplace]
  exact hi

/-- With seventeen digits at the latest, the search succeeds, and with fewer than it needs it does
    not. -/
theorem shortest_eq_trim {x : Binary64} (hx : 0 < x.toRat) :
    ∃ n < 17, ∃ d, shortestAt? x x.toRat (Int.log 10 x.toRat - (n : Nat)) = some d ∧
      (∀ i < n, shortestAt? x x.toRat (Int.log 10 x.toRat - (i : Nat)) = none) ∧
      shortest x = d.trim 17 := by
  rcases Binary64.log_toRat_range hx with ⟨hsmall, hlarge⟩
  have hlog : floorLog10 x.toRat = Int.log 10 x.toRat :=
    floorLog10_eq_log hx (by omega) (by omega)
  delta shortest
  dsimp only
  rw [hlog]
  cases hfound : (List.range 17).findSome? fun n : Nat =>
      shortestAt? x x.toRat (Int.log 10 x.toRat - n) with
  | none =>
      have hlast := List.findSome?_eq_none_iff.mp hfound 16 (List.mem_range.mpr (by decide))
      refine absurd hlast (shortestAt?_ne_none hx ?_)
      have hself := Int.zpow_log_le_self (b := 10) (by decide) hx
      rw [Nat.cast_ofNat] at hself
      rwa [← zpow_natCast, ← zpow_add₀ (by norm_num), Nat.cast_ofNat, Int.sub_add_cancel]
  | some d =>
      rcases exists_of_findSome?_range hfound with ⟨n, hn, hd, hbefore⟩
      exact ⟨n, hn, d, hd, hbefore, rfl⟩

/-- The shortest decimal of a positive number reads back. -/
theorem toBinary64_shortest {x : Binary64} (hx : 0 < x.toRat) : (shortest x).toBinary64 = x := by
  rcases shortest_eq_trim hx with ⟨n, -, d, hfound, -, hshortest⟩
  rw [hshortest, toBinary64, toRat_trim]
  exact (shortestAt?_eq_some hfound).2

/-- What reads back as a positive number has a digit other than zero. -/
theorem digits_pos_of_toBinary64 {x : Binary64} (hx : 0 < x.toRat) {d : Decimal}
    (h : d.toBinary64 = x) : 0 < d.digits := by
  rcases Nat.eq_zero_or_pos d.digits with hzero | hpos
  · rw [toBinary64, toRat_eq, hzero, Nat.cast_zero, zero_mul] at h
    have hvanishes : x.toRat = 0 := h ▸ Binary64.toRat_zero false
    exact absurd hvanishes hx.ne'
  · exact hpos

/-- The exponent of the first digit is that of the value. -/
theorem leading_eq_log {d : Decimal} (hd : 0 < d.digits) : d.leading = Int.log 10 d.toRat := by
  have hvalue : 0 < d.toRat := d.digits_pos_iff.mp hd
  have hpow : (0 : Rat) < 10 ^ d.exponent := zpow_pos (by norm_num) _
  have hlength : 0 < d.digitChars.length := Nat.length_toDigits_pos
  have hbelow : (10 : Rat) ^ (d.digitChars.length - 1) ≤ d.digits := by
    have hle : 10 ^ (d.digitChars.length - 1) ≤ d.digits := by
      by_cases hone : d.digitChars.length = 1
      · rw [hone]
        exact hd
      · have hshort : ¬ d.digitChars.length ≤ d.digitChars.length - 1 := by omega
        rw [digitChars, Nat.length_toDigits_le_iff (by decide) (by rw [← digitChars]; omega),
          ← digitChars] at hshort
        exact Nat.le_of_not_lt hshort
    exact_mod_cast hle
  have habove : (d.digits : Rat) < 10 ^ d.digitChars.length := by
    have hlt := (Nat.length_toDigits_le_iff (by decide) hlength).mp (Nat.le_refl _)
    exact_mod_cast hlt
  have hlower : d.leading ≤ Int.log 10 d.toRat := by
    rw [← Int.zpow_le_iff_le_log (by decide) hvalue, Nat.cast_ofNat, toRat_eq]
    calc (10 : Rat) ^ d.leading = 10 ^ (d.digitChars.length - 1) * 10 ^ d.exponent := by
          rw [← zpow_natCast, ← zpow_add₀ (by norm_num), leading, Nat.cast_pred hlength]
          congr 1
          omega
      _ ≤ d.digits * 10 ^ d.exponent := mul_le_mul_of_nonneg_right hbelow hpow.le
  have hupper : Int.log 10 d.toRat < d.leading + 1 := by
    rw [← Int.lt_zpow_iff_log_lt (by decide) hvalue, Nat.cast_ofNat, toRat_eq]
    calc (d.digits : Rat) * 10 ^ d.exponent < 10 ^ d.digitChars.length * 10 ^ d.exponent :=
          mul_lt_mul_of_pos_right habove hpow
      _ = (10 : Rat) ^ (d.leading + 1) := by
          rw [← zpow_natCast, ← zpow_add₀ (by norm_num), leading]
          congr 1
          omega
  omega

/-- The first digit of the shortest decimal has the exponent that the number's would have, or one
    close by. -/
theorem leading_shortest {x : Binary64} (hx : 0 < x.toRat) :
    Int.log 10 x.toRat - 16 ≤ (shortest x).leading ∧
      (shortest x).leading ≤ Int.log 10 x.toRat + 1 := by
  rcases shortest_eq_trim hx with ⟨n, hn, d, hfound, -, hshortest⟩
  rcases shortestAt?_eq_some hfound with ⟨hcandidate, hreads⟩
  have hvalue : (shortest x).toRat = d.toRat := by rw [hshortest, toRat_trim]
  have hdigits := digits_pos_of_toBinary64 hx hreads
  have hpos : 0 < d.toRat := d.digits_pos_iff.mp hdigits
  have hleading : (shortest x).leading = Int.log 10 d.toRat := by
    rw [leading_eq_log ((shortest x).digits_pos_iff.mpr (hvalue ▸ hpos)), hvalue]
  have hexponent : d.exponent = Int.log 10 x.toRat - n := by
    rcases hcandidate with hd | hd <;> rw [hd] <;> rfl
  have hself := Int.zpow_log_le_self (b := 10) (by decide) hx
  have hnext := Int.lt_zpow_succ_log_self (b := 10) (by decide) x.toRat
  rw [Nat.cast_ofNat] at hself hnext
  have hstep : (10 : Rat) ^ (Int.log 10 x.toRat - n) ≤ 10 ^ Int.log 10 x.toRat :=
    zpow_le_zpow_right₀ (by norm_num) (by omega)
  have hbelow : (10 : Rat) ^ (Int.log 10 x.toRat - 16) ≤ d.toRat := by
    have hone : (1 : Rat) ≤ d.digits := Nat.one_le_cast.mpr hdigits
    have hpow : (0 : Rat) < 10 ^ d.exponent := zpow_pos (by norm_num) _
    rw [toRat_eq]
    refine le_trans ?_ (le_mul_of_one_le_left hpow.le hone)
    exact zpow_le_zpow_right₀ (by norm_num) (by omega)
  have habove : d.toRat < 10 ^ (Int.log 10 x.toRat + 2) := by
    have hle := toRat_below_le hx (Int.log 10 x.toRat - n)
    have hdistance := toRat_above x.toRat (Int.log 10 x.toRat - n)
    have hmost : d.toRat ≤ x.toRat + 10 ^ (Int.log 10 x.toRat - n) := by
      have hpow : (0 : Rat) < 10 ^ (Int.log 10 x.toRat - n) := zpow_pos (by norm_num) _
      rcases hcandidate with hd | hd <;> rw [hd] <;> linarith
    have hten : (10 : Rat) ^ (Int.log 10 x.toRat + 2) = 10 ^ Int.log 10 x.toRat * 100 := by
      rw [zpow_add₀ (by norm_num)]
      norm_num
    rw [zpow_add_one₀ (by norm_num)] at hnext
    linarith
  rw [← Nat.cast_ofNat, Int.zpow_le_iff_le_log (by decide) hpos] at hbelow
  rw [← Nat.cast_ofNat, Int.lt_zpow_iff_log_lt (by decide) hpos] at habove
  rw [hleading]
  omega

end Decimal

end DeskCalc
