import DeskCalc.Numeral
import DeskCalc.Proofs.Decimal.Shortest
import DeskCalc.Proofs.Text.Span

/-!
# Reading a Written Decimal

A decimal that is written out positionally is read back with its value. The text need not give
the same digits and exponent again, since zeros fill the places up to the point and a whole
number has no exponent of its own; but zeros in front count for nothing, and those behind are
what the power of ten stands for.

The scientific layout is not read as one number. Its mantissa is, and so are the digits of its
power of ten, and that is all that is shown about it here.

## Main definitions

* `Text.AsciiDigits`: A row of digits of the Latin script.
* `Decimal.mantissa`: The scientific layout without its power of ten.

## Theorems

* `Text.digitsValue_digitsOf_toDigits`: The digits of a natural number are read back.
* `Numeral.decimal?_digits`, `Numeral.decimal?_point`: What is read of digits, with or without a
  point.
* `Decimal.positional_cases`, `Decimal.mantissa_cases`: What the layouts are made of.
* `Decimal.read_positional`: The positional layout is read back with its value.
* `Decimal.read_toDigits`, `Decimal.read_mantissa`: The parts of the scientific layout are read.
-/

namespace DeskCalc

namespace Text

/-! ### Digits -/

/-- A row of digits of the Latin script. -/
def AsciiDigits (cs : List Char) : Prop := ∀ c ∈ cs, isAsciiDigit c = true

/-- The values of a row of such digits. -/
def digitsOf (cs : List Char) : List Nat := cs.map fun c => c.toNat - '0'.toNat

theorem digitValue?_of_isAsciiDigit {c : Char} (hc : isAsciiDigit c = true) :
    digitValue? c = some (c.toNat - '0'.toNat) := by
  rw [isAsciiDigit, Bool.and_eq_true, decide_eq_true_eq, decide_eq_true_eq] at hc
  have hrow : (48 ≤ c.toNat && c.toNat < 48 + 10) = true := by
    rw [Bool.and_eq_true, decide_eq_true_eq, decide_eq_true_eq]
    omega
  -- The first of the zeros is this script's.
  have hzeros : digitZeros = 48 :: digitZeros.tail := rfl
  have hfound : digitZeros.find? (fun z => z ≤ c.toNat && c.toNat < z + 10) = some 48 := by
    rw [hzeros]
    exact List.find?_cons_of_pos hrow
  rw [digitValue?, hfound]
  rfl

theorem isDigit_of_isAsciiDigit {c : Char} (hc : isAsciiDigit c = true) : isDigit c = true := by
  rw [isDigit, digitValue?_of_isAsciiDigit hc, Option.isSome_some]

theorem asciiDigits_toDigits (n : Nat) : AsciiDigits (Nat.toDigits 10 n) := by
  intro c hc
  have hdigit := Nat.isDigit_of_mem_toDigits (by decide) (Nat.le_refl 10) hc
  rw [Char.isDigit, Bool.and_eq_true, decide_eq_true_eq, decide_eq_true_eq] at hdigit
  rw [isAsciiDigit, Bool.and_eq_true, decide_eq_true_eq, decide_eq_true_eq]
  exact ⟨UInt32.le_iff_toNat_le.mp hdigit.1, UInt32.le_iff_toNat_le.mp hdigit.2⟩

theorem asciiDigits_replicate (n : Nat) : AsciiDigits (List.replicate n '0') := by
  intro c hc
  rw [List.eq_of_mem_replicate hc]
  rfl

theorem digitsOf_append (cs ds : List Char) : digitsOf (cs ++ ds) = digitsOf cs ++ digitsOf ds :=
  List.map_append

theorem foldl_digits (es : List Nat) (n : Nat) :
    es.foldl (fun n d => 10 * n + d) n = n * 10 ^ es.length + digitsValue es := by
  induction es generalizing n with
  | nil => rw [List.length_nil, Nat.pow_zero, Nat.mul_one]; rfl
  | cons e es ih =>
      rw [digitsValue, List.foldl_cons, List.foldl_cons, ih, ih, List.length_cons, Nat.pow_succ]
      ring

theorem digitsValue_append (ds es : List Nat) :
    digitsValue (ds ++ es) = digitsValue ds * 10 ^ es.length + digitsValue es := by
  rw [← foldl_digits, digitsValue, digitsValue, List.foldl_append]

theorem digitsValue_lt {cs : List Char} (hcs : AsciiDigits cs) :
    digitsValue (digitsOf cs) < 10 ^ cs.length := by
  induction cs with
  | nil => exact Nat.one_pos
  | cons c cs ih =>
      rcases List.forall_mem_cons.mp hcs with ⟨hc, hrest⟩
      rw [isAsciiDigit, Bool.and_eq_true, decide_eq_true_eq, decide_eq_true_eq] at hc
      have hdigit : digitsValue (digitsOf [c]) = c.toNat - 48 := Nat.zero_add _
      have hlength : (digitsOf cs).length = cs.length := List.length_map _
      have hless := ih hrest
      have hmost : (c.toNat - 48) * 10 ^ cs.length ≤ 9 * 10 ^ cs.length :=
        Nat.mul_le_mul_right _ (by omega)
      rw [← List.singleton_append, digitsOf_append, digitsValue_append, hdigit, hlength,
        List.length_append, List.length_singleton, Nat.pow_add, Nat.pow_one]
      omega

theorem digitsValue_replicate_zero (n : Nat) :
    digitsValue (digitsOf (List.replicate n '0')) = 0 := by
  induction n with
  | zero => rfl
  | succ n ih =>
      rw [List.replicate_succ', digitsOf_append, digitsValue_append, ih, Nat.zero_mul, Nat.zero_add]
      rfl

/-- Zeros in front of a row of digits count for nothing, and each one behind it for a factor of
    ten. -/
theorem digitsValue_padded (a b : Nat) (cs : List Char) :
    digitsValue (digitsOf (List.replicate a '0' ++ (cs ++ List.replicate b '0'))) =
      digitsValue (digitsOf cs) * 10 ^ b := by
  rw [digitsOf_append, digitsValue_append, digitsValue_replicate_zero, Nat.zero_mul, Nat.zero_add,
    digitsOf_append, digitsValue_append, digitsValue_replicate_zero, Nat.add_zero, digitsOf,
    digitsOf, List.length_map, List.length_replicate]

/-- The digits of a natural number are read back. -/
theorem digitsValue_digitsOf_toDigits (n : Nat) :
    digitsValue (digitsOf (Nat.toDigits 10 n)) = n := by
  rw [digitsValue, digitsOf, List.foldl_map]
  exact Nat.ofDigitChars_ten_toDigits

theorem digitChar_ne_zero : ∀ n < 10, n ≠ 0 → n.digitChar ≠ '0' := by decide

/-- The first digit of a natural number is not zero. -/
theorem zero_notMem_head?_toDigits {n : Nat} (hn : 0 < n) : '0' ∉ (Nat.toDigits 10 n).head? := by
  induction n using Nat.strongRecOn with
  | _ n ih =>
      rw [Nat.toDigits_eq_if (by decide)]
      by_cases hless : n < 10
      · rw [if_pos hless, List.head?_cons, Option.mem_some_iff]
        exact digitChar_ne_zero n hless hn.ne'
      · rw [if_neg hless, List.head?_append_of_ne_nil _ Nat.toDigits_ne_nil]
        exact ih (n / 10) (by omega) (by omega)

/-- Its last digit is what is left when it is divided by ten. -/
theorem zero_notMem_getLast?_toDigits {n : Nat} (hn : n % 10 ≠ 0) :
    '0' ∉ (Nat.toDigits 10 n).getLast? := by
  have hlast : (Nat.toDigits 10 n).getLast? = some (n % 10).digitChar := by
    rw [Nat.toDigits_eq_if (by decide)]
    by_cases hless : n < 10
    · rw [if_pos hless, Nat.mod_eq_of_lt hless, List.getLast?_singleton]
    · rw [if_neg hless, List.getLast?_append_of_ne_nil _ (List.cons_ne_nil _ _),
        List.getLast?_singleton]
  rw [hlast, Option.mem_some_iff]
  exact digitChar_ne_zero _ (Nat.mod_lt n (by decide)) hn

end Text

namespace Numeral

open Text

/-! ### Rows of digits -/

/-- The digits at the start of a text are all that come before something else. -/
theorem leadingDigits_append {ds rest : List Char} (hds : AsciiDigits ds)
    (hrest : ∀ c ∈ rest.head?, isDigit c = false) :
    leadingDigits (ds ++ rest) = digitsOf ds ∧ afterDigits (ds ++ rest) = rest := by
  have hdigits : ∀ c ∈ ds, isDigit c = true := fun c hc => isDigit_of_isAsciiDigit (hds c hc)
  have hvalues : ds.filterMap digitValue? = digitsOf ds :=
    List.filterMap_eq_map_iff_forall_eq_some.mpr fun c hc => digitValue?_of_isAsciiDigit (hds c hc)
  rcases span_append hdigits hrest with ⟨htake, hdrop⟩
  rw [leadingDigits, afterDigits, htake, hdrop]
  exact ⟨hvalues, rfl⟩

theorem leadingDigits_eq {ds : List Char} (hds : AsciiDigits ds) :
    leadingDigits ds = digitsOf ds ∧ afterDigits ds = [] := by
  have h : leadingDigits (ds ++ []) = digitsOf ds ∧ afterDigits (ds ++ []) = [] :=
    leadingDigits_append hds fun c hc => nomatch hc
  rwa [List.append_nil] at h

theorem not_isDigit_head?_point (rest : List Char) :
    ∀ c ∈ ('.' :: rest).head?, isDigit c = false := by
  intro c hc
  rw [List.head?_cons, Option.mem_some_iff] at hc
  rw [← hc]
  decide

/-- What is read of digits alone. -/
theorem decimal?_digits {ds : List Char} (hds : AsciiDigits ds) (hne : ds ≠ []) :
    decimal? ds = some (.ofDigits (digitsOf ds) []) := by
  rcases leadingDigits_eq hds with ⟨hleading, hafter⟩
  rw [decimal?, hleading, hafter]
  match ds, hne with
  | c :: cs, _ => rfl

/-- What is read of digits with a point among them. -/
theorem decimal?_point {ds es : List Char} (hds : AsciiDigits ds) (hes : AsciiDigits es)
    (hne : ds ≠ [] ∨ es ≠ []) :
    decimal? (ds ++ '.' :: es) = some (.ofDigits (digitsOf ds) (digitsOf es)) := by
  rcases leadingDigits_append hds (not_isDigit_head?_point es) with ⟨hleading, hafter⟩
  rw [decimal?, hleading, hafter, fractionDigits, (leadingDigits_eq hes).1]
  match ds, es, hne with
  | _ :: _, _, _ => rfl
  | [], _ :: _, _ => rfl

theorem read_ofList {cs : List Char} {d : Decimal} (h : decimal? cs = some d) :
    read (String.ofList cs) = .ok d.toBinary64 := by
  rw [read, String.toList_ofList, h]

end Numeral

namespace Decimal

open Text Numeral

theorem asciiDigits_digitChars (d : Decimal) : AsciiDigits d.digitChars :=
  asciiDigits_toDigits d.digits

theorem digitChars_ne_nil (d : Decimal) : d.digitChars ≠ [] := Nat.toDigits_ne_nil

/-- The digits of a natural number are read as that number. -/
theorem read_toDigits (n : Nat) :
    read (String.ofList (Nat.toDigits 10 n)) = .ok (toBinary64 ⟨n, 0⟩) := by
  have h := decimal?_digits (asciiDigits_toDigits n) Nat.toDigits_ne_nil
  rw [ofDigits, List.append_nil, digitsValue_digitsOf_toDigits] at h
  exact read_ofList h

/-! ### The positional layout -/

/-- The positional layout is the digits and zeros, or it has a point, with digits on both sides of
    it, zeros in front of the number's own perhaps, and as many places after it as the exponent
    says. -/
theorem positional_cases (d : Decimal) :
    0 ≤ d.exponent ∧ d.positional = d.digitChars ++ List.replicate d.exponent.toNat '0' ∨
      ∃ ds es, AsciiDigits ds ∧ AsciiDigits es ∧ ds ≠ [] ∧ es ≠ [] ∧
        d.positional = ds ++ '.' :: es ∧
        (∃ a, ds ++ es = List.replicate a '0' ++ d.digitChars) ∧
        d.exponent = -(es.length : Int) := by
  have hdigits := d.asciiDigits_digitChars
  rw [positional]
  by_cases hwhole : 0 ≤ d.exponent
  · exact .inl ⟨hwhole, if_pos hwhole⟩
  rw [if_neg hwhole]
  by_cases hplaces : (-d.exponent).toNat < d.digitChars.length
  · -- The point is among the digits.
    rw [if_pos hplaces]
    refine .inr ⟨_, _, fun c hc => hdigits c (List.mem_of_mem_take hc),
      fun c hc => hdigits c (List.mem_of_mem_drop hc), ?_, ?_, rfl, ⟨0, ?_⟩, ?_⟩
    · rw [ne_eq, List.take_eq_nil_iff, not_or]
      exact ⟨by omega, d.digitChars_ne_nil⟩
    · rw [ne_eq, List.drop_eq_nil_iff]
      omega
    · exact List.take_append_drop _ _
    · rw [List.length_drop]
      omega
  · -- Zeros fill the places after the point.
    rw [if_neg hplaces]
    refine .inr ⟨['0'], _, asciiDigits_replicate 1,
      List.forall_mem_append.mpr ⟨asciiDigits_replicate _, hdigits⟩, List.cons_ne_nil _ _,
      List.append_ne_nil_of_right_ne_nil _ d.digitChars_ne_nil, rfl,
      ⟨1 + ((-d.exponent).toNat - d.digitChars.length), ?_⟩, ?_⟩
    · rw [← List.append_assoc, ← List.replicate_one, List.replicate_append_replicate]
    · rw [List.length_append, List.length_replicate]
      omega

/-- The positional layout is read back with its value. -/
theorem read_positional (d : Decimal) :
    read (String.ofList d.positional) = .ok d.toBinary64 := by
  have hdigits := d.asciiDigits_digitChars
  have hvalue : digitsValue (digitsOf d.digitChars) = d.digits :=
    digitsValue_digitsOf_toDigits d.digits
  rcases d.positional_cases with ⟨hwhole, hlayout⟩ | ⟨ds, es, hds, hes, hne, _, hlayout, hzeros, he⟩
  · -- The zeros are what the power of ten stands for.
    have hzeros := asciiDigits_replicate d.exponent.toNat
    have hread := decimal?_digits (List.forall_mem_append.mpr ⟨hdigits, hzeros⟩)
      (List.append_ne_nil_of_left_ne_nil d.digitChars_ne_nil _)
    have hpadded : digitsValue (digitsOf (d.digitChars ++ List.replicate d.exponent.toNat '0')) =
        d.digits * 10 ^ d.exponent.toNat := by
      rw [← hvalue]
      exact digitsValue_padded 0 d.exponent.toNat d.digitChars
    have hsame : toRat (.ofDigits (digitsOf (d.digitChars ++
        List.replicate d.exponent.toNat '0')) []) = d.toRat := by
      have hpower : (10 : Rat) ^ d.exponent.toNat = 10 ^ d.exponent := by
        rw [← zpow_natCast, Int.toNat_of_nonneg hwhole]
      rw [toRat_eq, toRat_eq, ofDigits, List.append_nil, hpadded]
      push_cast
      rw [hpower, List.length_nil, Nat.cast_zero, neg_zero, zpow_zero, mul_one]
    rw [hlayout, read_ofList hread, toBinary64, hsame, toBinary64]
  · rcases hzeros with ⟨a, hzeros⟩
    have hpadded : digitsValue (digitsOf (ds ++ es)) = d.digits := by
      have h := digitsValue_padded a 0 d.digitChars
      rwa [List.replicate_zero, List.append_nil, Nat.pow_zero, Nat.mul_one, hvalue, ← hzeros] at h
    have hsame : ofDigits (digitsOf ds) (digitsOf es) = d := by
      rw [ofDigits, ← digitsOf_append, hpadded, digitsOf, List.length_map, ← he]
    rw [hlayout, read_ofList (decimal?_point hds hes (.inl hne)), hsame]

/-! ### The scientific layout -/

/-- The scientific layout without its power of ten. -/
def mantissa (d : Decimal) : List Char :=
  match d.digitChars with
  | first :: second :: rest => first :: '.' :: second :: rest
  | ds => ds

theorem scientific_eq (width : Nat) (d : Decimal) :
    d.scientific width = d.mantissa ++ exponentChars width d.leading := rfl

/-- One digit is always enough for the power of ten. -/
theorem exponentChars_one (e : Int) : exponentChars 1 e =
    'e' :: (if e < 0 then '-' else '+') :: Nat.toDigits 10 e.natAbs := by
  have hlength : 1 - (Nat.toDigits 10 e.natAbs).length = 0 :=
    Nat.sub_eq_zero_of_le Nat.length_toDigits_pos
  rw [exponentChars, hlength, List.replicate_zero, List.nil_append]

/-- The mantissa is the only digit, or it has a point between its first digit and the others. -/
theorem mantissa_cases (d : Decimal) :
    d.mantissa = d.digitChars ∧ d.digitChars.length = 1 ∨
      ∃ ds es, AsciiDigits ds ∧ AsciiDigits es ∧ ds.length = 1 ∧ es ≠ [] ∧
        d.mantissa = ds ++ '.' :: es ∧ ds ++ es = d.digitChars := by
  have hdigits := d.asciiDigits_digitChars
  have hne := d.digitChars_ne_nil
  rw [mantissa]
  match hchars : d.digitChars with
  | [] => exact absurd hchars hne
  | [first] => exact .inl ⟨rfl, rfl⟩
  | first :: second :: rest =>
      rw [hchars] at hdigits
      rcases List.forall_mem_cons.mp hdigits with ⟨hfirst, hrest⟩
      exact .inr ⟨[first], second :: rest, List.forall_mem_singleton.mpr hfirst, hrest, rfl,
        List.cons_ne_nil _ _, rfl, rfl⟩

/-- The mantissa is read as a number. -/
theorem read_mantissa (d : Decimal) : ∃ x, read (String.ofList d.mantissa) = .ok x := by
  rcases d.mantissa_cases with ⟨hlayout, _⟩ | ⟨ds, es, hds, hes, hone, _, hlayout, _⟩
  · rw [hlayout]
    exact ⟨_, read_ofList (decimal?_digits d.asciiDigits_digitChars d.digitChars_ne_nil)⟩
  · rw [hlayout]
    exact ⟨_, read_ofList (decimal?_point hds hes (.inl (List.ne_nil_of_length_pos (by omega))))⟩

end Decimal

end DeskCalc
