/-!
# Binary Floating-Point Numbers

The numbers the calculator computes with: 64-bit binary floating point, kept as exact integers
rather than as machine words, so that what an operation does to them can be stated.

A finite number is a sign, a significand and a power of two. The same value has many such
pairs, so the type admits only one of them: the significand stays below `2 ^ 53`, and it may
fall below `2 ^ 52` only at the smallest exponent. Two finite numbers are then the same term
exactly when they have the same bits, which also keeps the two zeros apart. All NaNs are one
value, since nothing the calculator does can tell them apart.

## Main definitions

* `Binary64.Canonical`: The significand and exponent pairs that are stored.
* `Binary64`: A finite number, an infinity, or NaN.
* `Binary64.ofBits`, `Binary64.toBits`: The interchange format.
* `Binary64.toRat`: The exact value of a finite number.
* `Binary64.isFinite`: Neither infinite nor NaN.
* `Binary64.neg`, `Binary64.abs`: Changes of sign.
-/

namespace DeskCalc

/-- The significand `m` and the exponent `q` of a stored number `m * 2 ^ q`: at most 53 bits,
    and exactly 53 unless the exponent is the smallest. -/
def Binary64.Canonical (m : Nat) (q : Int) : Prop :=
  m < 9007199254740992 ∧ -1074 ≤ q ∧ q ≤ 971 ∧ (q = -1074 ∨ 4503599627370496 ≤ m)

instance (m : Nat) (q : Int) : Decidable (Binary64.Canonical m q) :=
  inferInstanceAs (Decidable (_ ∧ _ ∧ _ ∧ (_ ∨ _)))

/-- A 64-bit binary floating-point number. -/
inductive Binary64 where
  /-- The result of an operation that has none. -/
  | nan
  /-- An infinity, with its sign. -/
  | inf (negative : Bool)
  /-- The number `m * 2 ^ q`, or its opposite. -/
  | finite (negative : Bool) (m : Nat) (q : Int) (canonical : Binary64.Canonical m q)
  deriving DecidableEq

namespace Binary64

/-- The zero of the given sign. -/
def zero (negative : Bool) : Binary64 := .finite negative 0 (-1074) (by decide)

/-- The number one. -/
def one : Binary64 := .finite false 4503599627370496 (-52) (by decide)

/-- The number one half. -/
def half : Binary64 := .finite false 4503599627370496 (-53) (by decide)

instance : Inhabited Binary64 := ⟨zero false⟩

/-! ### Bits -/

/-- The number with the given sign, exponent field and fraction. An exponent field of zero
    means a significand without its leading bit; the largest field holds infinities and NaN. -/
def ofFields (negative : Bool) (e f : Nat) (he : e < 2048) (hf : f < 4503599627370496) :
    Binary64 :=
  if ht : e = 2047 then
    if f = 0 then .inf negative else .nan
  else if hz : e = 0 then .finite negative f (-1074) ⟨by omega, by decide, by decide, .inl rfl⟩
  else .finite negative (f + 4503599627370496) (e - 1075) (by unfold Canonical; omega)

/-- The number with the given 64 bits: a sign, eleven bits of exponent, 52 of fraction. -/
def ofBits (bits : UInt64) : Binary64 :=
  ofFields (bits.toNat / 9223372036854775808 == 1)
    (bits.toNat / 4503599627370496 % 2048) (bits.toNat % 4503599627370496)
    (Nat.mod_lt _ (by decide)) (Nat.mod_lt _ (by decide))

/-- The 64 bits of a number. A significand without its leading bit has exponent field zero,
    one with it has the exponent's distance from the smallest, plus one; in both cases the
    fields are the sum of that distance and the whole significand. -/
def toBits : Binary64 → UInt64
  | .nan => UInt64.ofNat 9221120237041090560
  | .inf negative => UInt64.ofNat (signField negative + 9218868437227405312)
  | .finite negative m q _ =>
    UInt64.ofNat (signField negative + (q + 1074).toNat * 4503599627370496 + m)
where
  /-- The sign's contribution to the bits. -/
  signField (negative : Bool) : Nat := if negative then 9223372036854775808 else 0

/-! ### Value and sign -/

/-- The power of two with the given exponent, exactly. -/
def twoPow (k : Int) : Rat :=
  if 0 ≤ k then ((1 <<< k.toNat : Nat) : Rat) else mkRat 1 (1 <<< (-k).toNat)

/-- The exact value of a finite number. NaN and the infinities have none and are given zero. -/
def toRat : Binary64 → Rat
  | .nan => 0
  | .inf _ => 0
  | .finite negative m q _ => (if negative then -(m : Rat) else (m : Rat)) * twoPow q

/-- Neither an infinity nor NaN. -/
def isFinite : Binary64 → Bool
  | .finite .. => true
  | _ => false

/-- NaN. -/
def isNaN : Binary64 → Bool
  | .nan => true
  | _ => false

/-- A zero of either sign. -/
def isZero : Binary64 → Bool
  | .finite _ m _ _ => m == 0
  | _ => false

/-- The sign that is stored, also with a zero or an infinity. -/
def signBit : Binary64 → Bool
  | .nan => false
  | .inf negative => negative
  | .finite negative _ _ _ => negative

/-- The number with its sign replaced. -/
def withSign (negative : Bool) : Binary64 → Binary64
  | .nan => .nan
  | .inf _ => .inf negative
  | .finite _ m q h => .finite negative m q h

/-- The opposite. -/
def neg (x : Binary64) : Binary64 := x.withSign (!x.signBit)

/-- The magnitude. -/
def abs (x : Binary64) : Binary64 := x.withSign false

/-- A change of sign does not make a number infinite. -/
theorem isFinite_withSign (negative : Bool) (x : Binary64) :
    (x.withSign negative).isFinite = x.isFinite := by
  cases x <;> rfl

/-- The opposite of the opposite is the number itself. -/
theorem neg_neg (x : Binary64) : x.neg.neg = x := by
  cases x <;> simp [neg, withSign, signBit]

end Binary64

end DeskCalc
