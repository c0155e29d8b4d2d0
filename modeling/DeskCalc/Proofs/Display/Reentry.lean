import DeskCalc.Evaluation
import DeskCalc.Proofs.Binary64.Comparison
import DeskCalc.Proofs.Decimal.Reading
import DeskCalc.Proofs.Expression.Value

/-!
# Typing a Result Again

A displayed number that is typed in again never becomes another number. Shown without a power of
ten it is one number, after a sign perhaps, and that number reads back. Shown with one it is not
a number to the scanner: the `e` is the constant, and the power's sign is an operator between
that constant and the digits after it. So the mantissa is followed by a whole sum, with nothing
in between, and the machine is left with two values whatever they are.

A sign in front is out of order in the second case. It waits for its operand, but the operator
that releases it comes only after the constant, so it is the constant that is negated. The
mantissa stays where it is, and there are two values all the same.

## Main definitions

* `Display.isPositional`: Whether a number is shown without a power of ten.
* `Display.shown`: What a displayed number stands for, which is the number without the sign of a
  zero.
* `Scan.IsNumber`: A row of characters that the scanner takes for one number.

## Theorems

* `Scan.tokens_number`: Such a row is one token.
* `Postfix.evaluate_leftover`: A number before a whole expression is left over.
* `Expression.value_text`: The value of a displayed number.
-/

namespace DeskCalc

/-! ### Scanning -/

namespace Scan

open Text

/-- A row of characters that the scanner takes for one number. -/
def IsNumber : List Char → Prop
  | [] => False
  | c :: cs => isAsciiDigit c = true ∧ ∀ d ∈ cs, isNumeral d = true

theorem isNumeral_of_isAsciiDigit {c : Char} (hc : isAsciiDigit c = true) : isNumeral c = true := by
  rw [isNumeral, hc, Bool.true_or]

theorem isNumber_of_asciiDigits {cs : List Char} (hcs : AsciiDigits cs) (hne : cs ≠ []) :
    IsNumber cs := by
  match cs, hne with
  | c :: cs, _ =>
      rcases List.forall_mem_cons.mp hcs with ⟨hc, hrest⟩
      exact ⟨hc, fun d hd => isNumeral_of_isAsciiDigit (hrest d hd)⟩

/-- A point and digits may follow. -/
theorem IsNumber.point {cs ds : List Char} (hcs : IsNumber cs) (hds : AsciiDigits ds) :
    IsNumber (cs ++ '.' :: ds) := by
  match cs, hcs with
  | c :: cs, ⟨hc, hrest⟩ =>
      refine ⟨hc, List.forall_mem_append.mpr ⟨hrest, List.forall_mem_cons.mpr ⟨rfl, ?_⟩⟩⟩
      exact fun d hd => isNumeral_of_isAsciiDigit (hds d hd)

/-- A row that is one number is one token, if no more of the number follows. -/
theorem tokens_number {cs rest : List Char} (hcs : IsNumber cs)
    (hrest : ∀ c ∈ rest.head?, isNumeral c = false) :
    tokens (cs ++ rest) = .number (String.ofList cs) :: tokens rest := by
  match cs, hcs with
  | c :: cs, ⟨hc, hnumerals⟩ =>
      have hspace : isSpace c = false := by
        rw [isAsciiDigit, Bool.and_eq_true, decide_eq_true_eq, decide_eq_true_eq] at hc
        rw [isSpace, Bool.or_eq_false_iff, Bool.or_eq_false_iff, beq_eq_false_iff_ne,
          beq_eq_false_iff_ne, beq_eq_false_iff_ne]
        refine ⟨⟨?_, ?_⟩, ?_⟩ <;> rintro rfl <;> exact absurd hc.1 (by decide)
      have hstart : startsNumber c (cs ++ rest) = true := by
        rw [startsNumber, hc, Bool.true_or]
      rcases span_append hnumerals hrest with ⟨htake, hdrop⟩
      rw [List.cons_append, tokens, hspace, hstart, if_neg (by decide), if_pos rfl, htake, hdrop]

theorem tokens_singleton_number {cs : List Char} (hcs : IsNumber cs) :
    tokens cs = [.number (String.ofList cs)] := by
  have h : tokens (cs ++ []) = .number (String.ofList cs) :: tokens [] :=
    tokens_number hcs fun c hc => nomatch hc
  rwa [List.append_nil, tokens] at h

/-- The sign in front of a row, if there is one. -/
theorem tokens_sign (negative : Bool) (cs : List Char) :
    tokens ((if negative then ['-'] else []) ++ cs) =
      List.replicate negative.toNat Operator.minus.token ++ tokens cs := by
  cases negative with
  | false => rfl
  | true =>
      rw [if_pos rfl, List.singleton_append, tokens]
      rfl

/-- The `e` of a power of ten, and the power's sign. -/
theorem tokens_power (negative : Bool) (cs : List Char) :
    tokens ('e' :: (if negative then '-' else '+') :: cs) =
      .identifier "e" :: (if negative then Operator.minus else .plus).token :: tokens cs := by
  cases negative with
  | false =>
      rw [if_neg (by decide), tokens]
      change Token.identifier "e" :: tokens ('+' :: cs) = _
      rw [tokens]
      rfl
  | true =>
      rw [if_pos rfl, tokens]
      change Token.identifier "e" :: tokens ('-' :: cs) = _
      rw [tokens]
      rfl

end Scan

namespace Decimal

open Scan Text

theorem isNumber_positional (d : Decimal) : IsNumber d.positional := by
  rcases d.positional_cases with ⟨_, hlayout⟩ | ⟨ds, es, hds, hes, hne, _, hlayout, _⟩
  · rw [hlayout]
    exact isNumber_of_asciiDigits
      (List.forall_mem_append.mpr ⟨d.asciiDigits_digitChars, asciiDigits_replicate _⟩)
      (List.append_ne_nil_of_left_ne_nil d.digitChars_ne_nil _)
  · rw [hlayout]
    exact (isNumber_of_asciiDigits hds hne).point hes

theorem isNumber_mantissa (d : Decimal) : IsNumber d.mantissa := by
  rcases d.mantissa_cases with ⟨hlayout, _⟩ | ⟨ds, es, hds, hes, hone, _, hlayout, _⟩
  · rw [hlayout]
    exact isNumber_of_asciiDigits d.asciiDigits_digitChars d.digitChars_ne_nil
  · rw [hlayout]
    exact (isNumber_of_asciiDigits hds (List.ne_nil_of_length_pos (by omega))).point hes

/-- The scientific layout is a number, a constant, an operator and another number. -/
theorem tokens_scientific (d : Decimal) :
    tokens (d.scientific 1) = [.number (String.ofList d.mantissa), .identifier "e",
      (if d.leading < 0 then Operator.minus else .plus).token,
      .number (String.ofList (Nat.toDigits 10 d.leading.natAbs))] := by
  have hpower := tokens_power (decide (d.leading < 0)) (Nat.toDigits 10 d.leading.natAbs)
  simp only [decide_eq_true_eq] at hpower
  have hdigits : IsNumber (Nat.toDigits 10 d.leading.natAbs) :=
    isNumber_of_asciiDigits (asciiDigits_toDigits _) Nat.toDigits_ne_nil
  rw [scientific_eq, exponentChars_one, tokens_number d.isNumber_mantissa, hpower,
    tokens_singleton_number hdigits]
  intro c hc
  rw [List.head?_cons, Option.mem_some_iff] at hc
  rw [← hc]
  rfl

end Decimal

/-! ### Evaluation -/

theorem requireFinite_of_isFinite {xs : List Binary64} (hxs : ∀ x ∈ xs, x.isFinite = true) :
    requireFinite xs = .ok () := by
  have hnone : xs.reverse.find? (fun x => !x.isFinite) = none := by
    rw [List.find?_eq_none]
    intro x hx
    rw [hxs x (List.mem_reverse.mp hx)]
    decide
  rw [requireFinite, hnone]

variable {ar : Arithmetic} {mode : AngleMode}

namespace Tree

theorem compute_negated {t : Tree} {x : Binary64} (h : t.compute ar mode = .ok x)
    (hx : x.isFinite = true) (negative : Bool) :
    (t.negated negative.toNat).compute ar mode = .ok (if negative then ar.neg x else x) := by
  cases negative with
  | false => exact h
  | true =>
      have hfinite := requireFinite_of_isFinite (List.forall_mem_singleton.mpr hx)
      change (Tree.negate t).compute ar mode = _
      rw [compute, h]
      simp only [bind, Except.bind, hfinite]
      rfl

theorem compute_binary {l r : Tree} {x y : Binary64} (op : Dyad)
    (hl : l.compute ar mode = .ok x) (hr : r.compute ar mode = .ok y) (hx : x.isFinite = true)
    (hy : y.isFinite = true) : (Tree.binary op l r).compute ar mode = .ok (op.apply ar x y) := by
  have hfinite : requireFinite [x, y] = .ok () :=
    requireFinite_of_isFinite (List.forall_mem_cons.mpr ⟨hx, List.forall_mem_singleton.mpr hy⟩)
  rw [compute, hl, hr]
  simp only [bind, Except.bind, hfinite]
  rfl

end Tree

namespace Postfix

theorem evaluate_of_compute {t : Tree} {x : Binary64} (h : t.compute ar mode = .ok x)
    (hx : x.isFinite = true) : evaluate ar mode t.postorder = .ok x := by
  rw [evaluate, t.executeAll_postorder, h]
  change result [x] = _
  rw [result, if_pos hx]

/-- A number before a whole expression is left over. -/
theorem evaluate_leftover {t : Tree} {text : String} {x y : Binary64}
    (htext : Numeral.read text = .ok x) (h : t.compute ar mode = .ok y) :
    evaluate ar mode (.number text :: t.postorder) = .error (.leftoverValues 2) := by
  have hfirst : execute ar mode (.number text) [] = .ok [x] := by
    change (Numeral.read text).map (· :: []) = _
    rw [htext]
    rfl
  rw [evaluate, executeAll, hfirst]
  change (do
    let stack ← executeAll ar mode t.postorder [x]
    result stack) = _
  rw [t.executeAll_postorder, h]
  rfl

/-- A number after a sign, if there is one. -/
theorem ofTokens_number (negative : Bool) (text : String) :
    ofTokens (List.replicate negative.toNat Operator.minus.token ++ [.number text]) =
      .ok ((Tree.number text).negated negative.toNat).postorder := by
  cases negative <;> rfl

/-- A number and a sum with nothing in between. The sign in front goes to the first operand of the
    sum. -/
theorem ofTokens_number_sum (negative below : Bool) (text constant number : String) :
    ofTokens (List.replicate negative.toNat Operator.minus.token ++ [.number text,
        .identifier constant, (if below then Operator.minus else .plus).token, .number number]) =
      .ok (.number text :: (Tree.binary (if below then .minus else .plus)
        ((Tree.constant constant).negated negative.toNat) (.number number)).postorder) := by
  cases below with
  | false =>
      simp only [Bool.false_eq_true, if_false]
      cases negative <;> rfl
  | true =>
      simp only [if_true]
      cases negative <;> rfl

end Postfix

/-! ### Displayed numbers -/

namespace Display

/-- Whether a number is shown without a power of ten. -/
def isPositional (x : Binary64) : Bool :=
  x.isZero || (positionalFrom.le x.abs && x.abs.lt scientificFrom)

/-- What a displayed number stands for: the number, or zero without its sign. -/
def shown (x : Binary64) : Binary64 := if x.isZero then .zero false else x

theorem eq_shown {x : Binary64} (hx : x.isFinite = true) : (shown x).eq x = true := by
  rw [shown]
  by_cases hzero : x.isZero = true
  · rw [if_pos hzero]
    exact Binary64.eq_of_toRat_eq rfl hx
      (by rw [Binary64.toRat_zero, Binary64.toRat_of_isZero hzero])
  · rw [if_neg hzero]
    exact Binary64.eq_of_toRat_eq hx hx rfl

/-- The layout of a number other than zero is that of its magnitude, and the sign is written in
    front of it. -/
theorem text_of_ne_zero (negative : Bool) {m : Nat} {q : Int} (h : Binary64.Canonical m q)
    (hm : m ≠ 0) : text (.finite negative m q h) =
      String.ofList ((if negative then ['-'] else []) ++
        if isPositional (.finite negative m q h) then
          (Decimal.shortest (.finite false m q h)).positional
        else (Decimal.shortest (.finite false m q h)).scientific 1) := by
  have hsmall : positionalFrom.isFinite = true := by decide +kernel
  have hlarge : scientificFrom.isFinite = true := by decide +kernel
  rw [text, if_neg hm, isPositional, Binary64.isZero_eq_false negative h hm]
  change String.ofList (_ ++ magnitude (.finite false m q h)) = String.ofList (_ ++
    if positionalFrom.le (.finite false m q h) && (Binary64.finite false m q h).lt scientificFrom
    then _ else _)
  rw [magnitude, Binary64.le_eq_not_lt hlarge rfl, Binary64.le_eq_not_lt hsmall rfl]
  cases (Binary64.finite false m q h).lt positionalFrom <;>
    cases (Binary64.finite false m q h).lt scientificFrom <;> rfl

end Display

namespace Expression

open Display

variable {x : Binary64}

/-- One number after a sign, if there is one. -/
theorem value_number (mode : AngleMode) {cs : List Char} (hcs : Scan.IsNumber cs)
    (hread : Numeral.read (String.ofList cs) = .ok x) (hx : x.isFinite = true) (negative : Bool) :
    value .standard mode (String.ofList ((if negative then ['-'] else []) ++ cs)) =
      .ok (if negative then x.neg else x) := by
  have hnumber : (Tree.number (String.ofList cs)).compute .standard mode = .ok x := by
    rw [Tree.compute, hread]
  have hcompute := Tree.compute_negated hnumber hx negative
  have hresult : (if negative then Arithmetic.standard.neg x else x).isFinite = true := by
    cases negative with
    | false => exact hx
    | true => exact (x.isFinite_withSign _).trans hx
  rw [value, toPostfix, Token.scan, String.toList_ofList, Scan.tokens_sign,
    Scan.tokens_singleton_number hcs, Postfix.ofTokens_number]
  simp only [bind, Except.bind, Postfix.evaluate_of_compute hcompute hresult]
  rfl

/-- A positive number in the scientific layout, after a sign if there is one, leaves a value
    over. -/
theorem value_scientific (mode : AngleMode) (hx : 0 < x.toRat) (negative : Bool) :
    value .standard mode (String.ofList ((if negative then ['-'] else []) ++
      (Decimal.shortest x).scientific 1)) = .error (.fault (.leftoverValues 2)) := by
  rcases (Decimal.shortest x).read_mantissa with ⟨y, hy⟩
  rcases Binary64.log_ten_toRat_range hx with ⟨hsmall, hlarge⟩
  rcases Decimal.leading_shortest hx with ⟨hbelow, habove⟩
  generalize hexponent : (Decimal.shortest x).leading = e at *
  -- The number behind the operator is that of a few digits.
  have hpower : (Decimal.toBinary64 ⟨e.natAbs, 0⟩).isFinite = true := by
    have hfew : (e.natAbs : Rat) < 2 ^ 11 := by
      exact_mod_cast (by omega : e.natAbs < 2 ^ 11)
    rw [Decimal.toBinary64, Decimal.toRat_eq, zpow_zero, mul_one]
    refine Binary64.isFinite_ofRat ?_
    rw [Nat.abs_cast]
    exact hfew.trans (pow_lt_pow_right₀ (by norm_num) (by norm_num))
  have hconstant : (Tree.constant "e").compute .standard mode = .ok .e := by
    rw [Tree.compute, Constant.value]
    rw [show Constant.ofName? "e" = some .e from Constant.ofName?_name .e]
    rfl
  have hnumber : (Tree.number (String.ofList (Nat.toDigits 10 e.natAbs))).compute .standard mode =
      .ok (Decimal.toBinary64 ⟨e.natAbs, 0⟩) := by
    rw [Tree.compute, Decimal.read_toDigits]
  have hsigned := Tree.compute_negated hconstant rfl negative
  have hfinite : (if negative then Arithmetic.standard.neg .e else .e).isFinite = true := by
    cases negative <;> rfl
  have hsum := Tree.compute_binary (if e < 0 then .minus else .plus) hsigned hnumber hfinite hpower
  have htokens := Postfix.ofTokens_number_sum negative (decide (e < 0))
    (String.ofList (Decimal.shortest x).mantissa) "e" (String.ofList (Nat.toDigits 10 e.natAbs))
  simp only [decide_eq_true_eq] at htokens
  rw [value, toPostfix, Token.scan, String.toList_ofList, Scan.tokens_sign,
    Decimal.tokens_scientific, hexponent, htokens]
  simp only [bind, Except.bind, Postfix.evaluate_leftover hy hsum]
  rfl

/-- Typing a displayed number again gives that number, or zero without its sign, if it is shown
    without a power of ten, and fails because of a value left over if it is shown with one. -/
theorem value_text (mode : AngleMode) (hx : x.isFinite = true) :
    (isPositional x = true →
        value .standard mode (text x) = .ok (shown x) ∧ (shown x).eq x = true) ∧
      (isPositional x = false →
        value .standard mode (text x) = .error (.fault (.leftoverValues 2)) ∧
        (Fault.leftoverValues 2).kind = .invalidExpression) := by
  cases x with
  | nan => exact Bool.noConfusion hx
  | inf _ => exact Bool.noConfusion hx
  | finite negative m q h =>
      by_cases hm : m = 0
      · subst hm
        have hpositional : isPositional (.finite negative 0 q h) = true := rfl
        have hzero : Numeral.read (String.ofList ['0']) = .ok (.zero false) :=
          Decimal.read_toDigits 0
        refine ⟨fun _ => ⟨?_, eq_shown hx⟩, fun hscientific => ?_⟩
        · exact value_number mode (Scan.isNumber_of_asciiDigits (Text.asciiDigits_toDigits 0)
            Nat.toDigits_ne_nil) hzero rfl false
        · exact Bool.noConfusion (hpositional.symm.trans hscientific)
      · have hpos := Binary64.toRat_pos h hm
        rw [text_of_ne_zero negative h hm]
        constructor
        · intro hpositional
          have hsigned : (if negative then (Binary64.finite false m q h).neg
              else .finite false m q h) = shown (.finite negative m q h) := by
            rw [shown, Binary64.isZero_eq_false negative h hm]
            cases negative <;> rfl
          have hread := (Decimal.shortest (.finite false m q h)).read_positional
          rw [Decimal.toBinary64_shortest hpos] at hread
          rw [if_pos hpositional, value_number mode (Decimal.isNumber_positional _) hread rfl,
            hsigned]
          exact ⟨rfl, eq_shown hx⟩
        · intro hscientific
          rw [hscientific, if_neg Bool.false_ne_true, value_scientific mode hpos]
          exact ⟨rfl, rfl⟩

/-- One, which is read back, and the first number that is shown with a power of ten. -/
theorem value_text_one_scientificFrom :
    (Binary64.one.isFinite = true ∧ isPositional .one = true ∧
      value .standard .degrees (text .one) = .ok .one) ∧
    scientificFrom.isFinite = true ∧ isPositional scientificFrom = false ∧
      value .standard .radians (text scientificFrom) = .error (.fault (.leftoverValues 2)) := by
  have hone : isPositional .one = true := by decide +kernel
  have hfinite : scientificFrom.isFinite = true := by decide +kernel
  have hlarge : isPositional scientificFrom = false := by decide +kernel
  exact ⟨⟨rfl, hone, ((value_text .degrees rfl).1 hone).1⟩, hfinite, hlarge,
    ((value_text .radians hfinite).2 hlarge).1⟩

end Expression

end DeskCalc
