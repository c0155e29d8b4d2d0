import DeskCalc.Operator.Application
import DeskCalc.Proofs.Binary64.Integral

/-!
# Where the Factorial Ends

The factorial of a number is a loop over the integers up to it, and numbers go up to about
`10 ^ 308`. What ends the loop is the check of each product: the one by 171 is the first that is
not finite, so no factorial takes more than 170 multiplications.

`products` lists what the loop computes, and it alone decides the result
(`multiplyUp_eq_products`). The products themselves do not depend on how far the loop has to go:
each is the value of `floatFactorial`, which multiplies on without looking. That value is finite
up to 170 and never again, because no multiplication makes an infinity or NaN finite. Two
evaluations settle it, one on either side of the limit.

## Main definitions

* `Operator.products`: The products that the loop makes.
* `Operator.productUp`, `Operator.floatFactorial`: The product without the check.
* `Binary64.IsNat`: That a number is a natural one.

## Theorems

* `Operator.multiplyUp_eq_products`: The result of the loop, from its products.
* `Operator.multiplyUp_congr`: The result depends on no other products.
* `Operator.products_eq`: The products up to where the loop stops.
* `Operator.isFinite_floatFactorial_iff`: The factorials that are finite.
* `Operator.factorialOf_standard`: What the factorial of any number is.
-/

namespace DeskCalc

/-- That a number is the given natural one. Both zeros are zero. -/
structure Binary64.IsNat (x : Binary64) (n : Nat) : Prop where
  /-- The number is finite. -/
  isFinite : x.isFinite = true
  /-- Its value is the natural number. -/
  toRat_eq : x.toRat = n

/-- A product is not finite unless its first factor is. -/
theorem Binary64.isFinite_of_mul {x y : Binary64} (h : (x.mul y).isFinite = true) :
    x.isFinite = true := by
  cases x with
  | nan => exact h
  | inf s =>
      cases y with
      | nan | inf _ => exact h
      | finite t m q canonical =>
          rw [mul] at h
          split at h <;> exact h
  | finite _ _ _ _ => rfl

namespace Operator

variable {ar : Arithmetic} {count i : Nat} {x : Binary64}

/-! ### The loop -/

/-- The products that the loop makes, the first one that is not finite being the last. -/
def products (ar : Arithmetic) : (count i : Nat) → Binary64 → List Binary64
  | 0, _, _ => []
  | count + 1, i, x =>
    let product := ar.mul x (.ofInt i)
    product :: if product.isFinite then products ar count (i + 1) product else []

/-- The number multiplied by `i` and by the integers that follow it, `count` of them, from left to
    right and without a check. -/
def productUp (ar : Arithmetic) (count i : Nat) (x : Binary64) : Binary64 :=
  (List.range' i count).foldl (fun product (j : Nat) => ar.mul product (.ofInt j)) x

theorem productUp_succ : productUp ar (count + 1) i x =
    productUp ar count (i + 1) (ar.mul x (.ofInt i)) := rfl

theorem productUp_concat : productUp ar (count + 1) i x =
    ar.mul (productUp ar count i x) (.ofInt (i + count : Nat)) := by
  rw [productUp, List.range'_1_concat, List.foldl_append, List.foldl_cons, List.foldl_nil,
    productUp]

/-- The loop has a result if all its products are finite, which is the last one. -/
theorem multiplyUp_eq_products :
    multiplyUp ar count i x =
      if ∀ p ∈ products ar count i x, p.isFinite = true then
        some ((products ar count i x).getLastD x)
      else none := by
  induction count generalizing i x with
  | zero => rfl
  | succ count ih =>
      rw [multiplyUp, products]
      by_cases hfinite : (ar.mul x (.ofInt i)).isFinite = true
      · simp only [hfinite, if_true, List.forall_mem_cons, true_and, List.getLastD_cons]
        exact ih
      · rw [if_neg hfinite, if_neg fun h => hfinite (h _ List.mem_cons_self)]

/-- Only the products that the loop makes have a part in its result. Any other multiplication that
    agrees on these has the same one, whatever else it does. -/
theorem multiplyUp_congr {other : Arithmetic}
    (h : ∀ k, k < (products ar count i x).length →
      other.mul (productUp ar k i x) (.ofInt (i + k : Nat)) = productUp ar (k + 1) i x) :
    multiplyUp other count i x = multiplyUp ar count i x := by
  induction count generalizing i x with
  | zero => rfl
  | succ count ih =>
      rw [products] at h
      have hproduct : other.mul x (.ofInt i) = ar.mul x (.ofInt i) := h 0 (Nat.succ_pos _)
      rw [multiplyUp, multiplyUp, hproduct]
      by_cases hfinite : (ar.mul x (.ofInt i)).isFinite = true
      · simp only [hfinite, if_true]
        refine ih fun k hk => ?_
        have hnext := h (k + 1) (by
          rw [if_pos hfinite, List.length_cons]
          omega)
        have hindex : i + (k + 1) = i + 1 + k := by omega
        rwa [hindex, productUp_succ, productUp_succ] at hnext
      · simp only [hfinite]
        rfl

/-- The products are those without a check, up to where the loop stops: after all its rounds, or at
    a product that is not finite. -/
theorem products_eq {made : Nat} (hmade : made ≤ count)
    (hfinite : ∀ k, k + 1 < made → (productUp ar (k + 1) i x).isFinite = true)
    (hstop : made < count → 0 < made ∧ (productUp ar made i x).isFinite = false) :
    products ar count i x = (List.range made).map fun k => productUp ar (k + 1) i x := by
  induction made generalizing count i x with
  | zero =>
      obtain rfl : count = 0 := by
        by_contra hcount
        exact absurd (hstop (by omega)).1 (Nat.lt_irrefl 0)
      rfl
  | succ made ih =>
      obtain ⟨rest, rfl⟩ : ∃ rest, count = rest + 1 := ⟨count - 1, by omega⟩
      rw [List.range_succ_eq_map, List.map_cons, List.map_map, products]
      refine congrArg (_ :: ·) ?_
      cases made with
      | zero =>
          -- The first product is the last one, for one of the two reasons.
          by_cases hrest : rest = 0
          · rw [hrest, products, ite_self]
            rfl
          · have hinfinite := (hstop (by omega)).2
            rw [productUp_succ] at hinfinite
            exact if_neg (Bool.eq_false_iff.mp hinfinite)
      | succ made =>
          have hproduct : (ar.mul x (.ofInt i)).isFinite = true := hfinite 0 (by omega)
          rw [if_pos hproduct]
          refine ih (by omega) (fun k hk => ?_) (fun hlt => ⟨by omega, ?_⟩)
          · rw [← productUp_succ]
            exact hfinite (k + 1) (by omega)
          · rw [← productUp_succ]
            exact (hstop (by omega)).2

/-! ### The limit -/

/-- The product of the integers from two to `n`, from left to right. -/
def floatFactorial (n : Nat) : Binary64 := productUp .standard (n - 1) 2 .one

theorem floatFactorial_add_two (n : Nat) :
    floatFactorial (n + 2) = (floatFactorial (n + 1)).mul (.ofInt (2 + n : Nat)) :=
  productUp_concat

theorem isFinite_floatFactorial_of_le {m n : Nat} (hle : m ≤ n)
    (h : (floatFactorial n).isFinite = true) : (floatFactorial m).isFinite = true := by
  induction n, hle using Nat.le_induction with
  | base => exact h
  | succ n hle ih =>
      cases n with
      | zero => exact ih h
      | succ n =>
          rw [floatFactorial_add_two] at h
          exact ih (Binary64.isFinite_of_mul h)

theorem floatFactorial_170 :
    floatFactorial 170 = .finite false 5818033100654133 967 (by decide) := by
  decide +kernel

theorem isFinite_floatFactorial_171 : (floatFactorial 171).isFinite = false := by
  rw [floatFactorial_add_two 169, floatFactorial_170]
  decide +kernel

/-- The factorials that are finite. -/
theorem isFinite_floatFactorial_iff {n : Nat} :
    (floatFactorial n).isFinite = true ↔ n ≤ 170 := by
  constructor
  · intro h
    by_contra hn
    have hlimit := isFinite_floatFactorial_of_le (by omega : 171 ≤ n) h
    rw [isFinite_floatFactorial_171] at hlimit
    exact Bool.noConfusion hlimit
  · intro hn
    exact isFinite_floatFactorial_of_le hn (by rw [floatFactorial_170]; rfl)

/-- The loop makes no product beyond that by 171. -/
theorem products_floatFactorial (n : Nat) :
    products .standard (n - 1) 2 .one =
      (List.range' 2 (min (n - 1) 170)).map floatFactorial := by
  have hproducts : products .standard (n - 1) 2 .one =
      (List.range (min (n - 1) 170)).map fun k => productUp .standard (k + 1) 2 .one := by
    -- The loop stops after its rounds, or at the 170th product if it has more of them.
    refine products_eq (by omega) (fun k hk => ?_) (fun hlt => ?_)
    · exact isFinite_floatFactorial_iff.mpr (by omega : k + 2 ≤ 170)
    · have hmade : min (n - 1) 170 = 170 := by omega
      rw [hmade]
      exact ⟨by decide, isFinite_floatFactorial_171⟩
  rw [hproducts, List.range'_eq_map_range, List.map_map]
  refine List.map_congr_left fun k _ => ?_
  rw [Function.comp_apply, floatFactorial]
  congr 1
  omega

theorem isFinite_of_mem_map_floatFactorial {made : Nat} (hmade : made ≤ 169) :
    ∀ p ∈ (List.range' 2 made).map floatFactorial, p.isFinite = true := by
  intro p hp
  rcases List.mem_map.mp hp with ⟨k, hk, rfl⟩
  rw [List.mem_range'_1] at hk
  exact isFinite_floatFactorial_iff.mpr (by omega)

theorem getLastD_map_floatFactorial (made : Nat) :
    ((List.range' 2 made).map floatFactorial).getLastD .one = productUp .standard made 2 .one := by
  cases made with
  | zero => rfl
  | succ made =>
      rw [List.range'_1_concat, List.map_append, List.map_singleton, List.getLastD_concat,
        floatFactorial]
      congr 1
      omega

/-- The loop has a result for the numbers up to 170 only. -/
theorem multiplyUp_floatFactorial (n : Nat) :
    multiplyUp .standard (n - 1) 2 .one = if n ≤ 170 then some (floatFactorial n) else none := by
  rw [multiplyUp_eq_products, products_floatFactorial]
  by_cases hn : n ≤ 170
  · have hmade : min (n - 1) 170 = n - 1 := by omega
    have hfinite := isFinite_of_mem_map_floatFactorial (by omega : n - 1 ≤ 169)
    rw [hmade, if_pos hfinite, if_pos hn, getLastD_map_floatFactorial, floatFactorial]
  · have hlast : floatFactorial 171 ∈ (List.range' 2 (min (n - 1) 170)).map floatFactorial :=
      List.mem_map_of_mem (List.mem_range'_1.mpr (by omega))
    rw [if_neg, if_neg hn]
    intro hall
    have h := hall _ hlast
    rw [isFinite_floatFactorial_171] at h
    exact Bool.noConfusion h

/-! ### The factorial of a number -/

theorem factorialOf_of_not_isFinite (hx : x.isFinite = false) :
    factorialOf ar x = .error .invalidFactorial := by
  cases x with
  | nan | inf _ => rfl
  | finite _ _ _ _ => exact Bool.noConfusion hx

theorem factorialOf_of_neg (hx : x.isFinite = true) (hneg : x.toRat < 0) :
    factorialOf ar x = .error .negativeFactorial := by
  have hlt : x.lt (.zero false) = true := by
    rwa [Binary64.lt_eq_true_iff hx rfl, Binary64.toRat_zero]
  simp only [factorialOf, Binary64.truncate?_of_isFinite hx, hlt, if_true]

theorem lt_zero_eq_false (hx : x.isFinite = true) (hnonneg : 0 ≤ x.toRat) :
    x.lt (.zero false) = false := by
  rw [Bool.eq_false_iff, ne_eq, Binary64.lt_eq_true_iff hx rfl, Binary64.toRat_zero]
  exact not_lt.mpr hnonneg

theorem factorialOf_of_not_isNat (hx : x.isFinite = true) (hnonneg : 0 ≤ x.toRat)
    (hnat : ∀ n, ¬ x.IsNat n) : factorialOf .standard x = .error .nonIntegerFactorial := by
  have hne : x.eq (Arithmetic.standard.floor x) = false := by
    rw [Bool.eq_false_iff]
    intro heq
    rcases (Binary64.eq_floor_iff hx).mp heq with ⟨n, hn⟩
    rw [hn, Int.cast_nonneg_iff] at hnonneg
    refine hnat n.toNat ⟨hx, ?_⟩
    rw [hn, ← Int.cast_natCast, Int.toNat_of_nonneg hnonneg]
  simp only [factorialOf, Binary64.truncate?_of_isFinite hx, lt_zero_eq_false hx hnonneg, hne,
    Bool.false_eq_true, if_false, Bool.not_false, if_true]

theorem factorialOf_of_isNat {n : Nat} (hx : x.IsNat n) :
    factorialOf .standard x =
      if n ≤ 170 then .ok (floatFactorial n) else .error (.factorialOverflow n) := by
  have hnonneg : 0 ≤ x.toRat := by
    rw [hx.toRat_eq]
    exact Nat.cast_nonneg n
  have heq : x.eq (Arithmetic.standard.floor x) = true :=
    (Binary64.eq_floor_iff hx.isFinite).mpr ⟨n, hx.toRat_eq⟩
  have htruncate : x.truncate? = some (n : Int) := by
    rw [Binary64.truncate?_of_isFinite hx.isFinite, Binary64.truncateRat_eq, if_pos hnonneg,
      hx.toRat_eq, Int.floor_natCast]
  simp only [factorialOf, htruncate, lt_zero_eq_false hx.isFinite hnonneg, heq,
    Bool.false_eq_true, if_false, Bool.not_true, Int.toNat_natCast, multiplyUp_floatFactorial]
  by_cases hn : n ≤ 170
  · simp only [hn, if_true]
  · simp only [hn, if_false]

/-- The factorial depends on the products that lead to that of 171, and on no others. -/
theorem factorialOf_congr {mul : Binary64 → Binary64 → Binary64}
    (h : ∀ k, k < 170 → mul (floatFactorial (k + 1)) (.ofInt (2 + k : Nat)) =
      floatFactorial (k + 2)) (x : Binary64) :
    factorialOf { Arithmetic.standard with mul := mul } x = factorialOf .standard x := by
  have hloop : ∀ n : Nat, multiplyUp { Arithmetic.standard with mul := mul } (n - 1) 2 .one =
      multiplyUp .standard (n - 1) 2 .one := by
    intro n
    refine multiplyUp_congr fun k hk => h k ?_
    rw [products_floatFactorial, List.length_map, List.length_range'] at hk
    omega
  simp only [factorialOf, hloop]

/-- The factorial of any number. It is refused of what is not finite, of what is negative and of
    what is no integer, in this order. The natural numbers up to 170 have one, which is finite and
    takes one multiplication less than the number. Beyond them the products are finite up to the
    169th multiplication, the next one is the last, and the message quotes the number. So what is
    below a number with a factorial has one, and what is above a number without one has none. No
    multiplication but these 170 has a part in it, however large the number is. -/
theorem factorialOf_standard (x : Binary64) :
    (x.isFinite = false → factorialOf .standard x = .error .invalidFactorial) ∧
    (x.isFinite = true → x.toRat < 0 → factorialOf .standard x = .error .negativeFactorial) ∧
    (x.isFinite = true → 0 ≤ x.toRat → (∀ n, ¬ x.IsNat n) →
      factorialOf .standard x = .error .nonIntegerFactorial) ∧
    (∀ n, x.IsNat n →
      (n ≤ 170 →
        factorialOf .standard x = .ok (floatFactorial n) ∧ (floatFactorial n).isFinite = true ∧
        (products .standard (n - 1) 2 .one).length = n - 1) ∧
      (171 ≤ n →
        factorialOf .standard x = .error (.factorialOverflow n) ∧
        (Fault.factorialOverflow n).detail? = some (toString n ++ "!") ∧
        (products .standard (n - 1) 2 .one).length = 170 ∧
        ∃ finite overflow, products .standard (n - 1) 2 .one = finite ++ [overflow] ∧
          (∀ p ∈ finite, p.isFinite = true) ∧ overflow.isFinite = false) ∧
      ∀ y m, y.IsNat m → m ≤ n →
        ((∃ p, factorialOf .standard x = .ok p) → ∃ p, factorialOf .standard y = .ok p) ∧
        (factorialOf .standard y = .error (.factorialOverflow m) →
          factorialOf .standard x = .error (.factorialOverflow n))) ∧
    ∀ mul : Binary64 → Binary64 → Binary64,
      (∀ k, k < 170 → mul (floatFactorial (k + 1)) (.ofInt (2 + k : Nat)) =
        floatFactorial (k + 2)) →
        factorialOf { Arithmetic.standard with mul := mul } x = factorialOf .standard x := by
  refine ⟨factorialOf_of_not_isFinite, factorialOf_of_neg, factorialOf_of_not_isNat, ?_,
    fun _ hmul => factorialOf_congr hmul x⟩
  intro n hx
  refine ⟨fun hn => ⟨?_, ?_, ?_⟩, fun hn => ⟨?_, rfl, ?_, ?_⟩, fun y m hy hle => ⟨?_, ?_⟩⟩
  · rw [factorialOf_of_isNat hx, if_pos hn]
  · exact isFinite_floatFactorial_iff.mpr hn
  · rw [products_floatFactorial, List.length_map, List.length_range']
    omega
  · rw [factorialOf_of_isNat hx, if_neg (by omega)]
  · rw [products_floatFactorial, List.length_map, List.length_range']
    omega
  · have hmade : min (n - 1) 170 = 169 + 1 := by omega
    refine ⟨(List.range' 2 169).map floatFactorial, floatFactorial 171, ?_,
      isFinite_of_mem_map_floatFactorial (le_refl 169), isFinite_floatFactorial_171⟩
    rw [products_floatFactorial, hmade, List.range'_1_concat, List.map_append,
      List.map_singleton]
  · rintro ⟨p, hp⟩
    have hn : n ≤ 170 := by
      by_contra hn
      rw [factorialOf_of_isNat hx, if_neg hn] at hp
      simp only [reduceCtorEq] at hp
    exact ⟨floatFactorial m, by rw [factorialOf_of_isNat hy, if_pos (by omega)]⟩
  · intro h
    have hm : ¬ m ≤ 170 := by
      intro hm
      rw [factorialOf_of_isNat hy, if_pos hm] at h
      simp only [reduceCtorEq] at h
    rw [factorialOf_of_isNat hx, if_neg (by omega)]

/-- One number of each kind. The last one is the largest of all, which is an integer too, and its
    factorial is given up as early as that of 171, also where no infinity is ever multiplied. -/
theorem factorialOf_standard_edges :
    let n := 9007199254740991 * 2 ^ 971
    let largest : Binary64 := .finite false 9007199254740991 971 (by decide)
    factorialOf .standard .nan = .error .invalidFactorial ∧
    factorialOf .standard Binary64.half.neg = .error .negativeFactorial ∧
    factorialOf .standard .half = .error .nonIntegerFactorial ∧
    factorialOf .standard (.zero true) = .ok .one ∧
    (∃ p, factorialOf .standard (.ofInt 170) = .ok p ∧ p.isFinite = true) ∧
    largest.IsNat n ∧ factorialOf .standard largest = .error (.factorialOverflow n) ∧
    (products .standard (n - 1) 2 .one).length = 170 ∧
    factorialOf { Arithmetic.standard with mul := fun y z => if y.isFinite then y.mul z else .one }
      largest = .error (.factorialOverflow n) := by
  intro n largest
  have hhalf : Binary64.half.toRat = 1 / 2 := by decide +kernel
  have hlargest : largest.IsNat n := ⟨rfl, by decide +kernel⟩
  refine ⟨(factorialOf_standard .nan).1 rfl, ?_, ?_, ?_, ?_, hlargest, ?_⟩
  · refine (factorialOf_standard Binary64.half.neg).2.1 rfl ?_
    rw [Binary64.toRat_neg, hhalf]
    norm_num
  · refine (factorialOf_standard .half).2.2.1 rfl (by rw [hhalf]; norm_num) fun n hn => ?_
    have htwice : (1 : Rat) = 2 * n := by
      rw [← hn.toRat_eq, hhalf]
      norm_num
    have hparity : 1 = 2 * n := by exact_mod_cast htwice
    omega
  · have hzero : (Binary64.zero true).IsNat 0 := ⟨rfl, Binary64.toRat_zero true⟩
    exact (((factorialOf_standard _).2.2.2.1 0 hzero).1 (by decide)).1
  · have hlast : (Binary64.ofInt 170).IsNat 170 := ⟨by decide +kernel, by decide +kernel⟩
    rcases ((factorialOf_standard _).2.2.2.1 170 hlast).1 (by decide) with ⟨hok, hfinite, -⟩
    exact ⟨_, hok, hfinite⟩
  · rcases ((factorialOf_standard largest).2.2.2.1 n hlargest).2.1 (by decide +kernel) with
      ⟨hfails, -, hlength, -⟩
    refine ⟨hfails, hlength, ((factorialOf_standard largest).2.2.2.2 _ fun k hk => ?_).trans hfails⟩
    have hfinite : (floatFactorial (k + 1)).isFinite = true :=
      isFinite_floatFactorial_iff.mpr (by omega)
    simp only [hfinite, if_true]
    exact (floatFactorial_add_two k).symm

end Operator

end DeskCalc
