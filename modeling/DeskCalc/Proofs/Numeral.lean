import DeskCalc.Proofs.Binary64.Range
import DeskCalc.Proofs.Decimal.Reading
import DeskCalc.Proofs.Token.Junction

/-!
# The Numbers of an Expression Are Readable

The scanner and the reader do not have the same idea of a number. To the scanner it is any row of
digits and points that starts with a digit, or with a point and a digit. The reader takes digits
and perhaps a point and more digits, of any script, and ignores the rest.

What the reader takes is the longest prefix of this form. In a row of digits and points only a
point can end it, and the first point does not, so the reader goes on to the second one. What is
before that has a digit, because the scanner asks for one at the start: the reader never fails on
what the scanner calls a number.

The value is said by the places of the digits, each after the point being worth a tenth of what it
would be in the place before. The reader instead collects the digits on both sides of the point
and scales them once, and only then rounds.

## Main definitions

* `Numeral.WellFormed`: Digits, and perhaps a point and more digits.
* `Numeral.accepted`: What the reader takes of a text.
* `Numeral.untilPoint`: A text up to one of its points.
* `Numeral.writtenValue`: What digits with a point are written for.
* `Numeral.ReadAs`: That a text is read as the number nearest to what the start of it is written
  for.

## Theorems

* `Numeral.decimal?_accepted`: What the reader does not take, it ignores.
* `Numeral.accepted_longest`: It takes the longest prefix that is well formed.
* `Numeral.accepted_eq_untilPoint`: Of digits and points it takes what is before the second point.
* `Decimal.toRat_ofDigits`: Collected and scaled, the digits have the value of their places.
* `Token.scan_readable`: All of this for the numbers that the scanner finds.
-/

namespace DeskCalc

namespace Numeral

open Text Scan

/-! ### What the reader takes -/

/-- Digits, and perhaps a point and more digits. -/
def WellFormed (cs : List Char) : Prop :=
  ∃ ds, (∀ c ∈ ds, isDigit c = true) ∧
    (cs = ds ∨ ∃ es, (∀ c ∈ es, isDigit c = true) ∧ cs = ds ++ '.' :: es)

/-- The point at the start of a text and the digits after it, nothing if there is no point. -/
def pointed : List Char → List Char
  | '.' :: rest => '.' :: rest.takeWhile isDigit
  | _ => []

/-- What the reader takes of a text. -/
def accepted (cs : List Char) : List Char := cs.takeWhile isDigit ++ pointed (afterDigits cs)

theorem pointed_cases (cs : List Char) :
    (∃ rest, cs = '.' :: rest ∧ pointed cs = '.' :: rest.takeWhile isDigit) ∨
      pointed cs = [] ∧ fractionDigits cs = [] := by
  by_cases hpoint : ∃ rest, cs = '.' :: rest
  · rcases hpoint with ⟨rest, rfl⟩
    exact .inl ⟨rest, rfl, rfl⟩
  · have hnone := not_exists.mp hpoint
    exact .inr ⟨pointed.eq_2 cs hnone, fractionDigits.eq_2 cs hnone⟩

/-- What the reader does not take, it ignores. -/
theorem decimal?_accepted (cs : List Char) : decimal? (accepted cs) = decimal? cs := by
  have hdigits : ∀ c ∈ cs.takeWhile isDigit, isDigit c = true := fun c hc =>
    List.mem_takeWhile_imp hc
  rcases pointed_cases (afterDigits cs) with ⟨rest, hafter, hpointed⟩ | ⟨hpointed, hnone⟩
  · rcases span_append hdigits (not_isDigit_head?_point (rest.takeWhile isDigit)) with
      ⟨htake, hdrop⟩
    rw [decimal?, decimal?, accepted, hpointed, leadingDigits, afterDigits, htake, hdrop,
      hafter, fractionDigits, fractionDigits, leadingDigits, leadingDigits, leadingDigits,
      List.takeWhile_idem]
  · have hempty : ∀ c ∈ ([] : List Char).head?, isDigit c = false := fun c hc =>
      absurd hc (Option.not_mem_none c)
    rcases span_append hdigits hempty with ⟨htake, hdrop⟩
    rw [decimal?, decimal?, accepted, hpointed, leadingDigits, afterDigits, htake, hdrop, hnone]
    rfl

/-- The reader takes the longest prefix that is well formed. -/
theorem accepted_longest (cs : List Char) :
    WellFormed (accepted cs) ∧ accepted cs <+: cs ∧
      ∀ q, WellFormed q → q <+: cs → q <+: accepted cs := by
  have hdigits {cs : List Char} : ∀ c ∈ cs.takeWhile isDigit, isDigit c = true := fun c hc =>
    List.mem_takeWhile_imp hc
  have hcut : cs.takeWhile isDigit ++ afterDigits cs = cs := List.takeWhile_append_dropWhile
  refine ⟨⟨cs.takeWhile isDigit, hdigits, ?_⟩, ?_, ?_⟩
  · rw [accepted]
    rcases pointed_cases (afterDigits cs) with ⟨rest, -, hpointed⟩ | ⟨hpointed, -⟩
    · exact .inr ⟨_, hdigits, by rw [hpointed]⟩
    · exact .inl (by rw [hpointed, List.append_nil])
  · rw [accepted]
    conv_rhs => rw [← hcut]
    rw [List.prefix_append_right_inj]
    rcases pointed_cases (afterDigits cs) with ⟨rest, hafter, hpointed⟩ | ⟨hpointed, -⟩
    · rw [hpointed, hafter, List.cons_prefix_cons]
      exact ⟨rfl, List.takeWhile_prefix isDigit⟩
    · rw [hpointed]
      exact List.nil_prefix
  · rintro q ⟨ds, hds, rfl | ⟨es, hes, rfl⟩⟩ ⟨rest, rfl⟩
    · rw [accepted, List.takeWhile_append_of_pos hds, List.append_assoc]
      exact List.prefix_append _ _
    · rw [List.append_assoc, List.cons_append]
      rcases span_append hds (not_isDigit_head?_point (es ++ rest)) with ⟨htake, hdrop⟩
      rw [accepted, afterDigits, htake, hdrop, pointed, List.takeWhile_append_of_pos hes,
        List.prefix_append_right_inj, List.cons_prefix_cons]
      exact ⟨rfl, List.prefix_append _ _⟩

/-! ### Rows of digits and points -/

/-- A text up to the point that comes after so many others, or all of it if there is no such
    point. The point itself is left out. -/
def untilPoint : Nat → List Char → List Char
  | _, [] => []
  | 0, c :: cs => if c = '.' then [] else c :: untilPoint 0 cs
  | n + 1, c :: cs => c :: untilPoint (if c = '.' then n else n + 1) cs

theorem ne_point_of_isAsciiDigit {c : Char} (hc : isAsciiDigit c = true) : c ≠ '.' := by
  rintro rfl
  exact absurd hc (by decide)

theorem untilPoint_digit (n : Nat) {c : Char} (hc : isAsciiDigit c = true) (cs : List Char) :
    untilPoint n (c :: cs) = c :: untilPoint n cs := by
  cases n <;> rw [untilPoint, if_neg (ne_point_of_isAsciiDigit hc)]

theorem untilPoint_append (n : Nat) {ds : List Char} (hds : AsciiDigits ds) (cs : List Char) :
    untilPoint n (ds ++ cs) = ds ++ untilPoint n cs := by
  induction ds with
  | nil => rfl
  | cons d ds ih =>
      rcases List.forall_mem_cons.mp hds with ⟨hd, hds⟩
      rw [List.cons_append, untilPoint_digit n hd, ih hds, List.cons_append]

/-- A row of digits and points is digits up to its end or to the first point. -/
theorem exists_digits {cs : List Char} (hcs : ∀ c ∈ cs, IsNumeral c) :
    ∃ ds rest, AsciiDigits ds ∧ cs = ds ++ rest ∧
      (rest = [] ∨ ∃ more, rest = '.' :: more ∧ ∀ c ∈ more, IsNumeral c) := by
  induction cs with
  | nil => exact ⟨[], [], List.forall_mem_nil _, rfl, .inl rfl⟩
  | cons c cs ih =>
      rcases List.forall_mem_cons.mp hcs with ⟨hc | rfl, htail⟩
      · rcases ih htail with ⟨ds, rest, hds, rfl, hrest⟩
        exact ⟨c :: ds, rest, List.forall_mem_cons.mpr ⟨(isAsciiDigit_eq c).trans hc, hds⟩, rfl,
          hrest⟩
      · exact ⟨[], '.' :: cs, List.forall_mem_nil _, rfl, .inr ⟨cs, rfl, htail⟩⟩

/-- A row of digits and points has digits up to its end, or digits on both sides of its first
    point, the latter up to its end or to the second point. -/
theorem exists_sides {cs : List Char} (hcs : ∀ c ∈ cs, IsNumeral c) :
    AsciiDigits cs ∨ ∃ ds es rest, AsciiDigits ds ∧ AsciiDigits es ∧
      cs = ds ++ '.' :: (es ++ rest) ∧ (rest = [] ∨ ∃ more, rest = '.' :: more) := by
  rcases exists_digits hcs with ⟨ds, rest, hds, rfl, rfl | ⟨more, rfl, hmore⟩⟩
  · exact .inl (by rwa [List.append_nil])
  · rcases exists_digits hmore with ⟨es, rest, hes, rfl, hrest⟩
    exact .inr ⟨ds, es, rest, hds, hes, rfl, hrest.imp_right fun ⟨more, h, _⟩ => ⟨more, h⟩⟩

theorem untilPoint_digits {ds : List Char} (hds : AsciiDigits ds) (n : Nat) :
    untilPoint n ds = ds := by
  have h := untilPoint_append n hds []
  rwa [untilPoint, List.append_nil] at h

theorem untilPoint_sides {ds es rest : List Char} (hds : AsciiDigits ds) (hes : AsciiDigits es)
    (hrest : rest = [] ∨ ∃ more, rest = '.' :: more) :
    untilPoint 1 (ds ++ '.' :: (es ++ rest)) = ds ++ '.' :: es := by
  have hend : untilPoint 0 rest = [] := by
    rcases hrest with rfl | ⟨more, rfl⟩ <;> rfl
  rw [untilPoint_append 1 hds, untilPoint, if_pos rfl, untilPoint_append 0 hes, hend,
    List.append_nil]

/-- Of digits and points the reader takes what is before the second point. -/
theorem accepted_eq_untilPoint {cs : List Char} (hcs : ∀ c ∈ cs, IsNumeral c) :
    accepted cs = untilPoint 1 cs := by
  have hdigits {ds : List Char} (hds : AsciiDigits ds) : ∀ c ∈ ds, isDigit c = true :=
    fun c hc => isDigit_of_isAsciiDigit (hds c hc)
  rcases exists_sides hcs with hds | ⟨ds, es, rest, hds, hes, rfl, hrest⟩
  · rw [untilPoint_digits hds, accepted, (leadingDigits_eq hds).2, pointed, List.append_nil,
      List.takeWhile_eq_self_iff.mpr (hdigits hds)]
    exact fun _ h => nomatch h
  · rcases span_append (hdigits hds) (not_isDigit_head?_point (es ++ rest)) with ⟨htake, hdrop⟩
    have hend : ∀ c ∈ rest.head?, isDigit c = false := by
      rcases hrest with rfl | ⟨more, rfl⟩
      · exact fun c hc => absurd hc (Option.not_mem_none c)
      · exact not_isDigit_head?_point more
    rw [untilPoint_sides hds hes hrest, accepted, afterDigits, htake, hdrop, pointed,
      (span_append (hdigits hes) hend).1]

/-! ### What is written -/

/-- The value of digits after a point, by their places. -/
def fractionValue : List Char → Rat
  | [] => 0
  | c :: cs => ((c.toNat - '0'.toNat : Nat) + fractionValue cs) / 10

/-- What digits with a point, or without one, are written for. -/
def writtenValue (cs : List Char) : Rat :=
  digitsValue (digitsOf (cs.takeWhile (· ≠ '.'))) +
    fractionValue ((cs.dropWhile (· ≠ '.')).drop 1)

theorem fractionValue_eq (es : List Char) :
    fractionValue es = digitsValue (digitsOf es) / 10 ^ es.length := by
  induction es with
  | nil => exact (zero_div (1 : Rat)).symm
  | cons e es ih =>
      have hdigit : digitsValue (digitsOf [e]) = e.toNat - '0'.toNat := Nat.zero_add _
      have hlength : (digitsOf es).length = es.length := List.length_map _
      rw [fractionValue, ih, ← List.singleton_append, digitsOf_append, digitsValue_append, hdigit,
        hlength, List.length_append, List.length_singleton, pow_add, pow_one]
      push_cast
      field_simp

theorem writtenValue_nonneg (cs : List Char) : 0 ≤ writtenValue cs := by
  rw [writtenValue, fractionValue_eq]
  positivity

theorem writtenValue_digits {ds : List Char} (hds : AsciiDigits ds) :
    writtenValue ds = digitsValue (digitsOf ds) := by
  have hpoint : ∀ c ∈ ds, decide (c ≠ '.') = true := fun c hc =>
    decide_eq_true (ne_point_of_isAsciiDigit (hds c hc))
  rw [writtenValue, List.takeWhile_eq_self_iff.mpr hpoint, List.dropWhile_eq_nil_iff.mpr hpoint,
    List.drop_nil, fractionValue, add_zero]

theorem writtenValue_point {ds : List Char} (hds : AsciiDigits ds) (es : List Char) :
    writtenValue (ds ++ '.' :: es) = digitsValue (digitsOf ds) + fractionValue es := by
  have hdigits : ∀ c ∈ ds, decide (c ≠ '.') = true := fun c hc =>
    decide_eq_true (ne_point_of_isAsciiDigit (hds c hc))
  have hpoint : ∀ c ∈ ('.' :: es).head?, decide (c ≠ '.') = false := by
    intro c hc
    rw [List.head?_cons, Option.mem_some_iff] at hc
    exact decide_eq_false (not_not.mpr hc.symm)
  rcases span_append hdigits hpoint with ⟨htake, hdrop⟩
  rw [writtenValue, htake, hdrop, List.drop_one, List.tail_cons]

end Numeral

open Numeral Scan Text

/-- Collected and scaled, the digits have the value of their places. -/
theorem Decimal.toRat_ofDigits (ds es : List Char) :
    (ofDigits (digitsOf ds) (digitsOf es)).toRat =
      digitsValue (digitsOf ds) + fractionValue es := by
  have hlength : (digitsOf es).length = es.length := List.length_map _
  rw [toRat_eq, ofDigits, digitsValue_append, fractionValue_eq, hlength, zpow_neg, zpow_natCast]
  push_cast
  field_simp

namespace Numeral

/-- Of digits and points of which a digit is before the second point, a decimal is read, with the
    value of what is written there. -/
theorem decimal?_of_numerals {cs : List Char} (hcs : ∀ c ∈ cs, IsNumeral c)
    (hdigit : ∃ c ∈ untilPoint 1 cs, c.isDigit = true) :
    ∃ d, decimal? cs = some d ∧ d.toRat = writtenValue (untilPoint 1 cs) := by
  rw [← decimal?_accepted, accepted_eq_untilPoint hcs]
  rcases hdigit with ⟨c, hc, hdigit⟩
  rcases exists_sides hcs with hds | ⟨ds, es, rest, hds, hes, rfl, hrest⟩
  · rw [untilPoint_digits hds] at hc ⊢
    refine ⟨_, decimal?_digits hds (List.ne_nil_of_mem hc), ?_⟩
    rw [writtenValue_digits hds]
    exact (Decimal.toRat_ofDigits cs []).trans (add_zero _)
  · rw [untilPoint_sides hds hes hrest] at hc ⊢
    -- A digit is not a point, so it is on one of the sides.
    have hside : ds ≠ [] ∨ es ≠ [] := by
      rw [List.mem_append, List.mem_cons] at hc
      rcases hc with hc | rfl | hc
      · exact .inl (List.ne_nil_of_mem hc)
      · exact absurd hdigit (by decide)
      · exact .inr (List.ne_nil_of_mem hc)
    refine ⟨_, decimal?_point hds hes hside, ?_⟩
    rw [writtenValue_point hds, Decimal.toRat_ofDigits]

/-! ### Numbers as tokens -/

/-- What the scanner takes for a number consists of digits and points, and has a digit before its
    second point. -/
theorem numerals_of_spells {cs : List Char} (hcs : Spells .number cs) :
    (∀ c ∈ cs, IsNumeral c) ∧ ∃ c ∈ untilPoint 1 cs, c.isDigit = true := by
  rcases hcs with ⟨d, ds, hform, hd, hds⟩
  have hdigit : isAsciiDigit d = true := (isAsciiDigit_eq d).trans hd
  have hrun : ∀ c ∈ d :: ds, IsNumeral c := List.forall_mem_cons.mpr ⟨.inl hd, hds⟩
  rcases hform with rfl | rfl
  · rw [untilPoint_digit 1 hdigit]
    exact ⟨hrun, d, List.mem_cons_self, hd⟩
  · rw [untilPoint, if_pos rfl, untilPoint_digit 0 hdigit]
    exact ⟨List.forall_mem_cons.mpr ⟨.inr rfl, hrun⟩, d,
      List.mem_cons_of_mem _ List.mem_cons_self, hd⟩

/-- That a text is read as the number nearest to what the start of it is written for. -/
structure ReadAs (text : String) (start : List Char) (x : Binary64) : Prop where
  /-- The start is what the reader takes. -/
  accepted : accepted text.toList = start
  /-- No longer prefix of the text is digits, and perhaps a point and more digits. -/
  longest : WellFormed start ∧ start <+: text.toList ∧
    ∀ q, WellFormed q → q <+: text.toList → q <+: start
  /-- It has a digit. -/
  digit : ∃ c ∈ start, c.isDigit = true
  /-- The text is read as the number. -/
  read : read text = .ok x
  /-- So is the start of it alone. -/
  read_start : Numeral.read (String.ofList start) = .ok x
  /-- The number is the nearest one, ties to even, unless there is none in range. -/
  nearest : writtenValue start < Binary64.overflowBound → x.IsNearest (writtenValue start)
  /-- Out of range it is the positive infinity. -/
  infinite : Binary64.overflowBound ≤ writtenValue start → x = .inf false
  /-- It is not NaN. -/
  not_nan : x.isNaN = false
  /-- It is not negative. -/
  not_negative : x.signBit = false

/-- Whatever consists of digits and points and has a digit before its second point is read as the
    number nearest to what is written before that point. -/
theorem exists_readAs {text : String} (htext : ∀ c ∈ text.toList, IsNumeral c)
    (hdigit : ∃ c ∈ untilPoint 1 text.toList, c.isDigit = true) :
    ∃ x, ReadAs text (untilPoint 1 text.toList) x := by
  have haccepted := accepted_eq_untilPoint htext
  rcases decimal?_of_numerals htext hdigit with ⟨d, hd, hvalue⟩
  have hread := read_ofList hd
  rw [String.ofList_toList] at hread
  have hstart : decimal? (untilPoint 1 text.toList) = some d := by
    rw [← haccepted, decimal?_accepted, hd]
  rcases Binary64.ofRat_of_nonneg (writtenValue_nonneg (untilPoint 1 text.toList)) with
    ⟨hsign, hnan, hnearest, hinfinite⟩
  rw [← hvalue, ← Decimal.toBinary64] at hsign hnan hinfinite hnearest
  refine ⟨d.toBinary64, haccepted, haccepted ▸ accepted_longest text.toList, hdigit, hread,
    read_ofList hstart, ?_, ?_, hnan, hsign⟩
  · rwa [← hvalue]
  · rwa [← hvalue]

end Numeral

/-- Every number that the scanner finds in a text is readable. The reader takes it up to, but not
    including, its second point, or all of it if there is none, and what it takes has a digit. The
    number is the one nearest to what is written there, ties to even; it is infinite only where
    the largest number is not nearer than the next power of two, and never NaN or negative. -/
theorem Token.scan_readable (s : String) {t : Token} (ht : t ∈ scan s) (hkind : t.kind = .number) :
    ∃ x, ReadAs t.text (untilPoint 1 t.text.toList) x := by
  have hspells := ((segments_tokens s.toList).spells t ht).2
  rw [hkind] at hspells
  rcases numerals_of_spells hspells with ⟨hnumerals, hdigit⟩
  exact exists_readAs hnumerals hdigit

/-- A number that starts with a point and has two more of them. -/
theorem Token.scan_readable_threePoints :
    number ".5.1." ∈ scan "2*.5.1." ∧ untilPoint 1 ".5.1.".toList = ".5".toList ∧
      writtenValue ".5".toList = 1 / 2 ∧ ∃ x, ReadAs ".5.1." ".5".toList x := by
  have hmem : number ".5.1." ∈ scan "2*.5.1." := by
    have hscan : scan "2*.5.1." = [number "2", operator "*", number ".5.1."] := by cbv
    rw [hscan]
    exact List.mem_cons_of_mem _ (List.mem_cons_of_mem _ List.mem_cons_self)
  have huntil : untilPoint 1 ".5.1.".toList = ".5".toList := by cbv
  have hvalue : writtenValue ".5".toList = 1 / 2 := by
    have hpoint : ".5".toList = [] ++ '.' :: ['5'] := by cbv
    have hfive : '5'.toNat - '0'.toNat = 5 := by decide
    rw [hpoint, writtenValue_point (List.forall_mem_nil _), fractionValue, fractionValue, hfive]
    norm_num [digitsOf, digitsValue]
  refine ⟨hmem, huntil, hvalue, ?_⟩
  rw [← huntil]
  exact Token.scan_readable "2*.5.1." hmem rfl

end DeskCalc
