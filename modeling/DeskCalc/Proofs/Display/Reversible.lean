import DeskCalc.Display
import DeskCalc.Proofs.Binary64.Comparison
import DeskCalc.Proofs.Decimal.Fewest
import DeskCalc.Proofs.Decimal.Literal

/-!
# What Is Shown Can Be Read Back

A displayed number, read as a decimal with its power of ten and rounded, is the number itself, and
nothing shorter is. So what is shown loses nothing but the sign of zero, and two numbers that look
alike are the same number.

Both layouts write out the same decimal, the shortest that reads back, so that all there is to say
about digits is said before the layout is chosen.

## Theorems

* `Display.exists_literal`: What is shown, as a decimal number.
* `Display.text_shortest`: It reads back, nothing shorter does, and its layout depends on the
  magnitude.
-/

namespace DeskCalc

namespace Display

open Binary64 Decimal

variable {x y : Binary64}

/-- The magnitude of a number is shown as its shortest decimal, with a power of ten if it is very
    large or very small. -/
theorem exists_literal_magnitude (x : Binary64) :
    ∃ l : Literal, l.Writes (shortest x) ∧ l.unsigned = magnitude x ∧
      (l.exponent.isSome = true ↔ scientificFrom.le x = true ∨ x.lt positionalFrom = true) := by
  rw [magnitude]
  by_cases hscientific : (scientificFrom.le x || x.lt positionalFrom) = true
  · rcases (shortest x).exists_literal_scientific with ⟨l, hwrites, hexponent, hlayout⟩
    rw [if_pos hscientific]
    rw [Bool.or_eq_true] at hscientific
    exact ⟨l, hwrites, hlayout, fun _ => hscientific, fun _ => by rw [hexponent]; rfl⟩
  · rcases (shortest x).exists_literal_positional with ⟨l, hwrites, hexponent, hlayout⟩
    rw [if_neg hscientific]
    rw [Bool.or_eq_true] at hscientific
    refine ⟨l, hwrites, hlayout, fun hsome => ?_, fun h => absurd h hscientific⟩
    rw [hexponent] at hsome
    exact absurd hsome Bool.false_ne_true

/-- No decimal number with fewer digits than the shortest decimal of a positive number is rounded
    to it. -/
theorem not_isNearest_of_significant (hx : 0 < x.toRat) {l : Literal}
    (hdigits : Text.AsciiDigits l.digits)
    (hfew : l.significant < (shortest x).digitChars.length) : ¬ IsNearest x l.toRat := by
  rcases l.exists_digits hdigits with ⟨n, k, hn, hmagnitude⟩
  intro hnearest
  have hpos := hnearest.pos hx
  rw [Literal.toRat, hmagnitude] at hnearest hpos
  have hvalue : (0 : Rat) ≤ n * 10 ^ k :=
    mul_nonneg (Nat.cast_nonneg n) (zpow_pos (by norm_num) k).le
  -- A negative decimal is not rounded to a positive number, whatever its digits.
  cases hsign : l.negative with
  | true =>
      rw [hsign, if_pos rfl] at hpos
      linarith
  | false =>
      rw [hsign, if_neg Bool.false_ne_true] at hnearest
      refine not_isNearest_of_fewer hx (hn.trans_le ?_) k hnearest
      exact Nat.pow_le_pow_right (by decide) (by omega)

/-- A finite number other than zero is shown as a decimal number that is rounded to it and that no
    shorter one is, with a power of ten if it is very large or very small. A fraction does not end
    with a zero, and there is no point without a fraction. -/
theorem exists_literal (hfinite : x.isFinite = true) (hx : x.isZero = false) :
    ∃ l, Literal.ofChars? (text x).toList = some l ∧ IsNearest x l.toRat ∧
      (∀ cs other, Literal.ofChars? cs = some other → other.significant < l.significant →
        ¬ IsNearest x other.toRat) ∧
      (l.exponent.isSome = true ↔
        scientificFrom.le x.abs = true ∨ x.abs.lt positionalFrom = true) ∧
      ∀ ds ∈ l.fraction, ds ≠ [] ∧ '0' ∉ ds.getLast? := by
  match x, hfinite with
  | .finite negative m q h, _ =>
      have hm : m ≠ 0 := ne_of_beq_false hx
      have hpos := toRat_pos h hm
      have hlast := digits_shortest_mod_ne_zero hpos
      rcases exists_literal_magnitude (.finite false m q h) with
        ⟨l, hwrites, hlayout, hexponent⟩
      have htext : (text (.finite negative m q h)).toList =
          Literal.spell { l with negative := negative } := by
        rw [text, if_neg hm, String.toList_ofList]
        change _ ++ magnitude (.finite false m q h) = _ ++ l.unsigned
        rw [hlayout]
      have hnearest := isNearest_shortest hpos
      rw [← hwrites.magnitude_eq] at hnearest
      refine ⟨{ l with negative := negative }, ?_, ?_, ?_, hexponent,
        hwrites.zero_notMem_getLast? hlast⟩
      · rw [htext]
        exact Literal.ofChars?_spell hwrites.whole.1 hwrites.whole.2
          fun ds hds => (hwrites.fraction ds hds).1
      · cases negative with
        | false => exact hnearest
        | true => exact hnearest.neg
      · intro cs other hother hfew hread
        have hdigits := Literal.asciiDigits_digits hother
        change other.significant < l.significant at hfew
        rw [hwrites.significant_eq hlast] at hfew
        cases negative with
        | false => exact not_isNearest_of_significant hpos hdigits hfew hread
        | true =>
            -- The opposite of the other number would be rounded to the magnitude.
            have hopposite : Literal.toRat { other with negative := !other.negative } =
                -other.toRat := by
              rw [Literal.toRat, Literal.toRat]
              cases other.negative with
              | false => rfl
              | true => exact (neg_involutive other.magnitude).symm
            refine not_isNearest_of_significant hpos
              (l := { other with negative := !other.negative }) hdigits hfew ?_
            rw [hopposite]
            exact hread.neg

theorem text_of_isZero (hx : x.isZero = true) : text x = "0" := by
  cases x with
  | nan => exact Bool.noConfusion hx
  | inf _ => exact Bool.noConfusion hx
  | finite negative m q h =>
      rw [text]
      exact if_pos (eq_of_beq hx)

/-- No other number is shown like it. -/
theorem text_ne_zero (hfinite : x.isFinite = true) (hx : x.isZero = false) : text x ≠ "0" := by
  intro htext
  rcases exists_literal hfinite hx with ⟨l, hread, hnearest, -⟩
  rw [htext] at hread
  obtain rfl : ⟨false, ['0'], none, none⟩ = l := Option.some.inj hread
  -- What is read is zero, and zero is not rounded to the number.
  have hround := (ofRat_eq_iff_isNearest hfinite hx).mpr hnearest
  have hvalue : Literal.toRat ⟨false, ['0'], none, none⟩ = 0 := zero_mul _
  rw [hvalue] at hround
  rw [← hround] at hx
  exact Bool.noConfusion hx

/-- A finite number other than zero is shown as a decimal number that is rounded to it, ties to
    even, and that no decimal number with fewer digits is, zeros at either end aside. It has a power
    of ten if, and only if, it is very large or very small, its fraction does not end with a zero,
    and there is no point without a fraction. Two finite numbers that are shown alike are the same
    number, but for the sign of zero. -/
theorem text_shortest (hx : x.isFinite = true) (hy : y.isFinite = true) :
    (x.isZero = false → ∃ l, Literal.ofChars? (text x).toList = some l ∧
      ofRat l.toRat = x ∧ IsNearest x l.toRat ∧
      (∀ cs other, Literal.ofChars? cs = some other → other.significant < l.significant →
        ¬ IsNearest x other.toRat) ∧
      (l.exponent.isSome = true ↔
        scientificFrom.le x.abs = true ∨ x.abs.lt positionalFrom = true) ∧
      ∀ ds ∈ l.fraction, ds ≠ [] ∧ '0' ∉ ds.getLast?) ∧
    (text x = text y → x.eq y = true) := by
  refine ⟨fun hzero => ?_, fun hsame => ?_⟩
  · rcases exists_literal hx hzero with ⟨l, hread, hnearest, hrest⟩
    exact ⟨l, hread, (ofRat_eq_iff_isNearest hx hzero).mpr hnearest, hnearest, hrest⟩
  · cases hxzero : x.isZero with
    | true =>
        cases hyzero : y.isZero with
        | true =>
            refine eq_of_toRat_eq hx hy ?_
            rw [toRat_of_isZero hxzero, toRat_of_isZero hyzero]
        | false =>
            rw [text_of_isZero hxzero] at hsame
            exact absurd hsame.symm (text_ne_zero hy hyzero)
    | false =>
        cases hyzero : y.isZero with
        | true =>
            rw [text_of_isZero hyzero] at hsame
            exact absurd hsame (text_ne_zero hx hxzero)
        | false =>
            rcases exists_literal hx hxzero with ⟨l, hread, hnearest, -⟩
            rcases exists_literal hy hyzero with ⟨l', hread', hnearest', -⟩
            -- One text is read as one decimal number, which is rounded to one number.
            rw [← hsame, hread, Option.some.injEq] at hread'
            subst hread'
            have hequal : x = y := ((ofRat_eq_iff_isNearest hx hxzero).mpr hnearest).symm.trans
              ((ofRat_eq_iff_isNearest hy hyzero).mpr hnearest')
            exact eq_of_toRat_eq hx hy (congrArg Binary64.toRat hequal)

/-- The sum of a tenth and a fifth, which takes seventeen digits. -/
theorem text_shortest_threeTenths :
    let x := (toBinary64 ⟨1, -1⟩).add (toBinary64 ⟨2, -1⟩)
    x.isFinite = true ∧ x.isZero = false ∧ text x = "0.30000000000000004" ∧
      ∃ l, Literal.ofChars? "0.30000000000000004".toList = some l ∧ l.significant = 17 ∧
        ofRat l.toRat = x ∧ ∀ cs other, Literal.ofChars? cs = some other →
          other.significant < 17 → ¬ IsNearest x other.toRat := by
  intro x
  have hfinite : x.isFinite = true := by decide +kernel
  have hzero : x.isZero = false := by decide +kernel
  have htext : text x = "0.30000000000000004" := by decide +kernel
  rcases (text_shortest hfinite hfinite).1 hzero with ⟨l, hread, hround, -, hfewest, -⟩
  rw [htext] at hread
  have hlength : (Literal.ofChars? "0.30000000000000004".toList).map Literal.significant =
      some 17 := by
    decide +kernel
  rw [hread, Option.map_some, Option.some.injEq] at hlength
  rw [hlength] at hfewest
  exact ⟨hfinite, hzero, htext, l, hread, hlength, hround, hfewest⟩

end Display

end DeskCalc
