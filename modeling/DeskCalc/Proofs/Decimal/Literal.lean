import DeskCalc.Proofs.Decimal.Reading

/-!
# Decimal Numbers as They Are Written

Digits with a sign before them perhaps, a point and more digits after it, and a power of ten: what
people mean by a number in decimal notation. The calculator does not take all of it for one
number, but it writes such numbers out, and here they are read as what they mean.

A decimal can be written in many ways, with zeros in front, zeros behind, or another power of ten.
What these have in common is what is left of the digits without the zeros at either end, and the
number of digits left is how long the decimal is, however it is written.

## Main definitions

* `Decimal.Literal`: A decimal number as it is written.
* `Decimal.Literal.ofChars?`: The reading of a text.
* `Decimal.Literal.toRat`: What the number means.
* `Decimal.Literal.significant`: How many digits it has without the zeros at either end.
* `Decimal.Literal.Writes`: That it has the digits and the value of a decimal.

## Theorems

* `Decimal.Literal.ofChars?_spell`: What is spelled is read back.
* `Decimal.Literal.exists_digits`: What a number with few digits can be.
* `Decimal.exists_literal_positional`, `Decimal.exists_literal_scientific`: The layouts are such
  numbers.
-/

namespace DeskCalc

namespace Decimal

open Text

/-- A decimal number as it is written. -/
structure Literal where
  /-- Whether there is a minus sign. -/
  negative : Bool
  /-- The digits before the point. -/
  whole : List Char
  /-- The digits after the point, if there is one. -/
  fraction : Option (List Char)
  /-- The power of ten, if there is one. -/
  exponent : Option Int

namespace Literal

/-! ### Meaning -/

/-- All digits. -/
def digits (l : Literal) : List Char := l.whole ++ l.fraction.getD []

/-- The digits without the zeros at either end. -/
def stripped (l : Literal) : List Char :=
  dropEndWhile (· == '0') (l.digits.dropWhile (· == '0'))

/-- How many digits there are without the zeros at either end. -/
def significant (l : Literal) : Nat := l.stripped.length

/-- What the number means without its sign. -/
def magnitude (l : Literal) : Rat :=
  digitsValue (digitsOf l.digits) * 10 ^ (l.exponent.getD 0 - (l.fraction.getD []).length)

/-- What the number means. -/
def toRat (l : Literal) : Rat := if l.negative then -l.magnitude else l.magnitude

/-! ### Reading -/

/-- A sign, if there is one, and the text after it. -/
def splitSign : List Char → Bool × List Char
  | [] => (false, [])
  | c :: cs => if c = '-' then (true, cs) else if c = '+' then (false, cs) else (false, c :: cs)

/-- The digits after a point, if there is one, and the text after them. -/
def splitFraction : List Char → Option (List Char) × List Char
  | [] => (none, [])
  | c :: cs =>
    if c = '.' then (some (cs.takeWhile isAsciiDigit), cs.dropWhile isAsciiDigit)
    else (none, c :: cs)

/-- The integer that a text consists of. -/
def integer? (cs : List Char) : Option Int :=
  let (negative, ds) := splitSign cs
  if ds ≠ [] ∧ ds.all isAsciiDigit then
    some (if negative then -digitsValue (digitsOf ds) else digitsValue (digitsOf ds))
  else none

/-- The power of ten that a text consists of, which may be missing. -/
def exponent? : List Char → Option (Option Int)
  | [] => some none
  | c :: cs => if c = 'e' then (integer? cs).map some else none

/-- The decimal number that a text consists of. -/
def ofChars? (cs : List Char) : Option Literal :=
  let (negative, unsigned) := splitSign cs
  let whole := unsigned.takeWhile isAsciiDigit
  let (fraction, rest) := splitFraction (unsigned.dropWhile isAsciiDigit)
  if whole = [] then none
  else (exponent? rest).map fun exponent => ⟨negative, whole, fraction, exponent⟩

theorem asciiDigits_splitFraction (cs : List Char) :
    ∀ ds ∈ (splitFraction cs).1, AsciiDigits ds := by
  intro ds hds
  match cs with
  | [] => exact absurd hds (Option.not_mem_none ds)
  | c :: cs =>
      rw [splitFraction] at hds
      by_cases hpoint : c = '.'
      · rw [if_pos hpoint, Option.mem_some_iff] at hds
        rw [← hds]
        exact List.all_eq_true.mp List.all_takeWhile
      · rw [if_neg hpoint] at hds
        exact absurd hds (Option.not_mem_none ds)

/-- The digits that are read are digits. -/
theorem asciiDigits_digits {cs : List Char} {l : Literal} (h : ofChars? cs = some l) :
    AsciiDigits l.digits := by
  rw [ofChars?] at h
  dsimp only at h
  split at h
  · exact absurd h (Option.some_ne_none l).symm
  · rcases Option.map_eq_some_iff.mp h with ⟨exponent, _, rfl⟩
    refine List.forall_mem_append.mpr ⟨List.all_eq_true.mp List.all_takeWhile, ?_⟩
    have hfraction := asciiDigits_splitFraction ((splitSign cs).2.dropWhile isAsciiDigit)
    cases hsplit : (splitFraction ((splitSign cs).2.dropWhile isAsciiDigit)).1 with
    | none => exact fun c hc => nomatch hc
    | some ds => exact hfraction ds hsplit

/-! ### Spelling -/

/-- The text of a number without its sign. -/
def unsigned (l : Literal) : List Char :=
  l.whole ++ (l.fraction.elim [] ('.' :: ·) ++ l.exponent.elim [] (exponentChars 1))

/-- The text of a number. -/
def spell (l : Literal) : List Char := (if l.negative then ['-'] else []) ++ l.unsigned

theorem splitSign_sign (negative : Bool) {cs : List Char}
    (hcs : ∀ c ∈ cs.head?, isAsciiDigit c = true) :
    splitSign ((if negative then ['-'] else []) ++ cs) = (negative, cs) := by
  cases negative with
  | true => rfl
  | false =>
      match cs with
      | [] => rfl
      | c :: cs =>
          have hdigit := hcs c rfl
          have hminus : c ≠ '-' := by
            rintro rfl
            exact absurd hdigit (by decide)
          have hplus : c ≠ '+' := by
            rintro rfl
            exact absurd hdigit (by decide)
          change splitSign (c :: cs) = _
          rw [splitSign, if_neg hminus, if_neg hplus]

theorem exponent?_elim (exponent : Option Int) :
    exponent? (exponent.elim [] (exponentChars 1)) = some exponent := by
  cases exponent with
  | none => rfl
  | some e =>
      have hdigits : Nat.toDigits 10 e.natAbs ≠ [] ∧
          (Nat.toDigits 10 e.natAbs).all isAsciiDigit = true :=
        ⟨Nat.toDigits_ne_nil, List.all_eq_true.mpr (asciiDigits_toDigits _)⟩
      have hsign : splitSign ((if e < 0 then '-' else '+') :: Nat.toDigits 10 e.natAbs) =
          (decide (e < 0), Nat.toDigits 10 e.natAbs) := by
        by_cases hneg : e < 0
        · rw [if_pos hneg, decide_eq_true hneg]
          rfl
        · rw [if_neg hneg, decide_eq_false hneg]
          rfl
      change exponent? (exponentChars 1 e) = _
      rw [exponentChars_one, exponent?, if_pos rfl, integer?, hsign]
      dsimp only
      rw [if_pos hdigits, digitsValue_digitsOf_toDigits, Option.map_some]
      congr 2
      by_cases hneg : e < 0
      · rw [decide_eq_true hneg, if_pos rfl]
        omega
      · rw [decide_eq_false hneg, if_neg Bool.false_ne_true]
        omega

/-- What comes after the digits of a number does not start with a digit. -/
theorem not_digit_elim (exponent : Option Int) :
    ∀ c ∈ (exponent.elim [] (exponentChars 1)).head?, isAsciiDigit c = false ∧ c ≠ '.' := by
  intro c hc
  cases exponent with
  | none => exact absurd hc (Option.not_mem_none c)
  | some e =>
      obtain rfl : 'e' = c := Option.mem_some_iff.mp hc
      exact ⟨by decide, by decide⟩

theorem splitFraction_elim {fraction : Option (List Char)}
    (hfraction : ∀ ds ∈ fraction, AsciiDigits ds) (exponent : Option Int) :
    splitFraction (fraction.elim [] ('.' :: ·) ++ exponent.elim [] (exponentChars 1)) =
      (fraction, exponent.elim [] (exponentChars 1)) := by
  have hnext := not_digit_elim exponent
  generalize exponent.elim [] (exponentChars 1) = rest at hnext ⊢
  cases fraction with
  | some ds =>
      rcases span_append (hfraction ds rfl) fun c hc => (hnext c hc).1 with ⟨htake, hdrop⟩
      change splitFraction ('.' :: (ds ++ rest)) = _
      rw [splitFraction, if_pos rfl, htake, hdrop]
  | none =>
      match rest with
      | [] => rfl
      | c :: rest =>
          change splitFraction (c :: rest) = _
          rw [splitFraction, if_neg (hnext c rfl).2]

/-- What is spelled is read back. -/
theorem ofChars?_spell {l : Literal} (hwhole : AsciiDigits l.whole) (hne : l.whole ≠ [])
    (hfraction : ∀ ds ∈ l.fraction, AsciiDigits ds) : ofChars? l.spell = some l := by
  -- The digits before the point end at a point, at a power of ten or with the text.
  have hnext : ∀ c ∈ (l.fraction.elim [] ('.' :: ·) ++
      l.exponent.elim [] (exponentChars 1)).head?, isAsciiDigit c = false := by
    intro c hc
    cases hpoint : l.fraction with
    | none =>
        rw [hpoint] at hc
        exact (not_digit_elim l.exponent c hc).1
    | some ds =>
        rw [hpoint] at hc
        obtain rfl : '.' = c := Option.mem_some_iff.mp hc
        decide
  have hfirst : ∀ c ∈ l.unsigned.head?, isAsciiDigit c = true := by
    intro c hc
    rw [unsigned, List.head?_append_of_ne_nil _ hne] at hc
    exact hwhole c (List.mem_of_mem_head? hc)
  rcases span_append hwhole hnext with ⟨htake, hdrop⟩
  rw [ofChars?, spell, splitSign_sign l.negative hfirst]
  dsimp only
  rw [unsigned, htake, hdrop, splitFraction_elim hfraction]
  dsimp only
  rw [if_neg hne, exponent?_elim, Option.map_some]

/-! ### Zeros at either end -/

/-- The digits are those without the zeros at either end, and zeros. -/
theorem exists_zeros (l : Literal) :
    ∃ a b : Nat, l.digits = List.replicate a '0' ++ (l.stripped ++ List.replicate b '0') := by
  rcases exists_padding (· == '0') l.digits with ⟨before, after, hbefore, hafter, hsplit⟩
  have hzeros {cs : List Char} (hcs : ∀ c ∈ cs, (c == '0') = true) :
      cs = List.replicate cs.length '0' :=
    List.eq_replicate_of_mem fun c hc => eq_of_beq (hcs c hc)
  refine ⟨before.length, after.length, ?_⟩
  rw [← hzeros hbefore, ← hzeros hafter]
  exact hsplit

/-- A number is an integer with as many digits as it has without the zeros at either end, and a
    power of ten. -/
theorem exists_digits {l : Literal} (h : AsciiDigits l.digits) :
    ∃ (n : Nat) (k : Int), n < 10 ^ l.significant ∧ l.magnitude = n * 10 ^ k := by
  rcases l.exists_zeros with ⟨a, b, hdigits⟩
  have hstripped : AsciiDigits l.stripped := by
    intro c hc
    refine h c ?_
    rw [hdigits]
    exact List.mem_append_right _ (List.mem_append_left _ hc)
  refine ⟨digitsValue (digitsOf l.stripped),
    b + (l.exponent.getD 0 - (l.fraction.getD []).length), digitsValue_lt hstripped, ?_⟩
  rw [magnitude, hdigits, digitsValue_padded, zpow_add₀ (by norm_num), zpow_natCast]
  push_cast
  ring

/-! ### Decimals written out -/

/-- That a number has the digits of a decimal, with zeros around them perhaps but none at the end of
    a fraction, and a power of ten that makes up for its point and its zeros. -/
structure Writes (l : Literal) (d : Decimal) : Prop where
  /-- There are digits before the point. -/
  whole : AsciiDigits l.whole ∧ l.whole ≠ []
  /-- There are digits after it, if it is there. -/
  fraction : ∀ ds ∈ l.fraction, AsciiDigits ds ∧ ds ≠ []
  /-- The digits are those of the decimal. -/
  row : ∃ a b : Nat, l.digits = List.replicate a '0' ++ (d.digitChars ++ List.replicate b '0') ∧
    (b : Int) + (l.exponent.getD 0 - (l.fraction.getD []).length) = d.exponent ∧
    (l.fraction ≠ none → b = 0)

variable {l : Literal} {d : Decimal}

/-- The number means the decimal. -/
theorem Writes.magnitude_eq (h : l.Writes d) : l.magnitude = d.toRat := by
  rcases h.row with ⟨a, b, hdigits, hexponent, -⟩
  rw [magnitude, hdigits, digitsValue_padded, digitChars, digitsValue_digitsOf_toDigits, toRat_eq,
    ← hexponent, zpow_add₀ (by norm_num), zpow_natCast]
  push_cast
  ring

/-- A decimal without a trailing zero has as many digits as any number that writes it out, without
    the zeros at either end. -/
theorem Writes.significant_eq (h : l.Writes d) (hd : d.digits % 10 ≠ 0) :
    l.significant = d.digitChars.length := by
  rcases h.row with ⟨a, b, hdigits, -, -⟩
  have hzeros (n : Nat) : ∀ c ∈ List.replicate n '0', (c == '0') = true :=
    fun c hc => beq_iff_eq.mpr (List.eq_of_mem_replicate hc)
  -- Neither end of the decimal's own digits is a zero, so only the zeros around them go.
  have hfront : ∀ c ∈ d.digitChars.head?, (c == '0') = false := by
    intro c hc
    refine beq_eq_false_iff_ne.mpr ?_
    rintro rfl
    exact zero_notMem_head?_toDigits (Nat.pos_of_ne_zero fun hzero => hd (by rw [hzero])) hc
  have hback : ∀ c ∈ d.digitChars.reverse.head?, (c == '0') = false := by
    intro c hc
    refine beq_eq_false_iff_ne.mpr ?_
    rintro rfl
    rw [List.head?_reverse] at hc
    exact zero_notMem_getLast?_toDigits hd hc
  rw [significant, stripped, hdigits, dropEndWhile_padded (hzeros a) (hzeros b)
    (dropWhile_eq_self hfront) (dropWhile_eq_self hback)]

/-- No fraction ends with a zero. -/
theorem Writes.zero_notMem_getLast? (h : l.Writes d) (hd : d.digits % 10 ≠ 0) :
    ∀ ds ∈ l.fraction, ds ≠ [] ∧ '0' ∉ ds.getLast? := by
  intro ds hds
  rcases h.row with ⟨a, b, hdigits, -, hb⟩
  have hne := (h.fraction ds hds).2
  refine ⟨hne, ?_⟩
  -- With a fraction there are no zeros behind, and both end with the same digit.
  rw [Option.mem_def] at hds
  obtain rfl := hb (hds ▸ Option.some_ne_none ds)
  rw [digits, hds, Option.getD_some, List.replicate_zero, List.append_nil] at hdigits
  have hlast := congrArg List.getLast? hdigits
  rw [List.getLast?_append_of_ne_nil _ hne,
    List.getLast?_append_of_ne_nil _ d.digitChars_ne_nil] at hlast
  rw [hlast]
  exact zero_notMem_getLast?_toDigits hd

end Literal

open Literal

/-- The positional layout is a number without a power of ten. -/
theorem exists_literal_positional (d : Decimal) :
    ∃ l : Literal, l.Writes d ∧ l.exponent = none ∧ l.unsigned = d.positional := by
  have hdigits := d.asciiDigits_digitChars
  rcases d.positional_cases with ⟨hwhole, hlayout⟩ |
      ⟨ds, es, hds, hes, hne, hsome, hlayout, ⟨a, hzeros⟩, he⟩
  · refine ⟨⟨false, d.digitChars ++ List.replicate d.exponent.toNat '0', none, none⟩,
      ⟨⟨?_, ?_⟩, ?_, 0, d.exponent.toNat, ?_, ?_, ?_⟩, rfl, ?_⟩
    · exact List.forall_mem_append.mpr ⟨hdigits, asciiDigits_replicate _⟩
    · exact List.append_ne_nil_of_left_ne_nil d.digitChars_ne_nil _
    · exact fun es hes => nomatch hes
    · exact List.append_nil _
    · change (d.exponent.toNat : Int) + (0 - 0) = d.exponent
      omega
    · exact fun hnone => absurd rfl hnone
    · rw [hlayout]
      exact List.append_nil _
  · refine ⟨⟨false, ds, some es, none⟩, ⟨⟨hds, hne⟩, ?_, a, 0, ?_, ?_, fun _ => rfl⟩, rfl, ?_⟩
    · intro fs hfs
      obtain rfl : es = fs := Option.mem_some_iff.mp hfs
      exact ⟨hes, hsome⟩
    · rw [List.replicate_zero, List.append_nil]
      exact hzeros
    · change (0 : Int) + (0 - es.length) = d.exponent
      omega
    · rw [hlayout]
      exact congrArg (ds ++ ·) (List.append_nil _)

/-- The scientific layout is a number with a power of ten. -/
theorem exists_literal_scientific (d : Decimal) :
    ∃ l : Literal, l.Writes d ∧ l.exponent = some d.leading ∧ l.unsigned = d.scientific 1 := by
  have hdigits := d.asciiDigits_digitChars
  rcases d.mantissa_cases with ⟨hlayout, hone⟩ | ⟨ds, es, hds, hes, hone, hsome, hlayout, hall⟩
  · refine ⟨⟨false, d.digitChars, none, some d.leading⟩,
      ⟨⟨hdigits, d.digitChars_ne_nil⟩, ?_, 0, 0, ?_, ?_, fun _ => rfl⟩, rfl, ?_⟩
    · exact fun es hes => nomatch hes
    · rfl
    · change (0 : Int) + (d.leading - 0) = d.exponent
      rw [leading]
      omega
    · rw [scientific_eq, hlayout]
      rfl
  · have hne : ds ≠ [] := List.ne_nil_of_length_pos (by omega)
    refine ⟨⟨false, ds, some es, some d.leading⟩,
      ⟨⟨hds, hne⟩, ?_, 0, 0, ?_, ?_, fun _ => rfl⟩, rfl, ?_⟩
    · intro fs hfs
      obtain rfl : es = fs := Option.mem_some_iff.mp hfs
      exact ⟨hes, hsome⟩
    · rw [List.replicate_zero, List.nil_append, List.append_nil]
      exact hall
    · change (0 : Int) + (d.leading - es.length) = d.exponent
      have hlength := congrArg List.length hall
      rw [List.length_append] at hlength
      rw [leading]
      omega
    · rw [scientific_eq, hlayout, List.append_assoc]
      rfl

end Decimal

end DeskCalc
