import DeskCalc.Proofs.Outcome
import DeskCalc.Proofs.Text.Span
import DeskCalc.Text.Integer

/-!
# The Integers That a Text Can Be

Which texts are read as integers, said without the reader: padding, a sign or none, digits with
single underscores between them, and padding again.

The reader finds the digits as the longest run of digits and underscores, and looks at the run
only then. This agrees with the grammar because the characters around the digits are of other
classes: a sign is neither padding nor a digit, and no digit of any script is padding. The last
is a fact about two tables, and it is decided on them.

## Main definitions

* `Text.Separated`: Digits with single underscores between them, and their values.
* `Text.Signed`: The signs, and what they make of a number.
* `Text.WritesInteger`: That a text is a given integer.

## Theorems

* `Text.separatedDigits?_eq_some_iff`: The values of a row of digits.
* `Text.readNatural_eq_ok_iff`: What is read behind the sign.
* `Text.readInteger_eq_ok_iff`: What is read of a text.
-/

namespace DeskCalc

namespace Text

/-! ### The grammar -/

/-- Digits with single underscores between them, and their values. -/
inductive Separated : List Char → List Nat → Prop where
  /-- The last digit. -/
  | last {c : Char} {d : Nat} (hc : digitValue? c = some d) : Separated [c] [d]
  /-- A digit directly before another. -/
  | digit {c : Char} {d : Nat} {cs : List Char} {ds : List Nat} (hc : digitValue? c = some d)
      (hcs : Separated cs ds) : Separated (c :: cs) (d :: ds)
  /-- A digit with an underscore before the next. -/
  | underscore {c : Char} {d : Nat} {cs : List Char} {ds : List Nat}
      (hc : digitValue? c = some d) (hcs : Separated cs ds) : Separated (c :: '_' :: cs) (d :: ds)

/-- A sign, and what it makes of a number. -/
inductive Signed : List Char → Nat → Int → Prop where
  /-- There may be no sign. -/
  | none (n : Nat) : Signed [] n n
  /-- A plus changes nothing. -/
  | plus (n : Nat) : Signed ['+'] n n
  /-- A minus makes it the opposite. -/
  | minus (n : Nat) : Signed ['-'] n (-n)

/-- That a text is the given natural number, with padding behind it. -/
def WritesNatural (cs : List Char) (n : Nat) : Prop :=
  ∃ body after ds, cs = body ++ after ∧ Separated body ds ∧ ds.length ≤ maxIntegerDigits ∧
    n = digitsValue ds ∧ ∀ c ∈ after, isIntegerPadding c = true

/-- That a text is the given integer, with padding around it. -/
def WritesInteger (cs : List Char) (n : Int) : Prop :=
  ∃ before sign rest k, cs = before ++ (sign ++ rest) ∧
    (∀ c ∈ before, isIntegerPadding c = true) ∧ WritesNatural rest k ∧ Signed sign k n

/-! ### Classes of characters -/

-- Both classes are given by code points, so this is decided for each digit of each script.
theorem isBlank_digit : ∀ z ∈ digitZeros, ∀ k < 10, isBlank (Char.ofNat (z + k)) = false := by
  decide +kernel

/-- No digit of any script is padding. -/
theorem not_padding_of_digit {c : Char} (hc : isDigit c = true) : isIntegerPadding c = false := by
  rcases Option.isSome_iff_exists.mp hc with ⟨d, hd⟩
  rcases Option.map_eq_some_iff.mp hd with ⟨z, hz, -⟩
  have hmem := List.mem_of_find?_eq_some hz
  have hrange := List.find?_some hz
  simp only [Bool.and_eq_true, decide_eq_true_eq] at hrange
  have hblank := isBlank_digit z hmem (c.toNat - z) (by omega)
  rw [show z + (c.toNat - z) = c.toNat by omega, Char.ofNat_toNat] at hblank
  rw [isIntegerPadding, hblank, Bool.false_and]

/-- What goes on with a row of digits is not padding. -/
theorem not_padding_of_run {c : Char} (hc : (isDigit c || c == '_') = true) :
    isIntegerPadding c = false := by
  rw [Bool.or_eq_true, beq_iff_eq] at hc
  rcases hc with hdigit | rfl
  · exact not_padding_of_digit hdigit
  · decide

/-! ### Digits -/

theorem Separated.digits {cs : List Char} {ds : List Nat} (h : Separated cs ds) :
    ∃ c rest, cs = c :: rest ∧ isDigit c = true ∧
      ∀ e ∈ cs, (isDigit e || e == '_') = true := by
  have hdigit : ∀ {c d}, digitValue? c = some d → isDigit c = true := by
    intro c d hc
    rw [isDigit, hc, Option.isSome_some]
  have hrun : ∀ {c d}, digitValue? c = some d → (isDigit c || c == '_') = true := by
    intro c d hc
    rw [hdigit hc, Bool.true_or]
  induction h with
  | @last c d hc => exact ⟨c, [], rfl, hdigit hc, List.forall_mem_singleton.mpr (hrun hc)⟩
  | @digit c d cs ds hc _ ih =>
      rcases ih with ⟨_, _, _, _, hall⟩
      exact ⟨c, cs, rfl, hdigit hc, List.forall_mem_cons.mpr ⟨hrun hc, hall⟩⟩
  | @underscore c d cs ds hc _ ih =>
      rcases ih with ⟨_, _, _, _, hall⟩
      have hbar : (isDigit '_' || '_' == '_') = true := by decide
      exact ⟨c, '_' :: cs, rfl, hdigit hc,
        List.forall_mem_cons.mpr ⟨hrun hc, List.forall_mem_cons.mpr ⟨hbar, hall⟩⟩⟩

theorem separated_of_separatedDigits? {cs : List Char} {ds : List Nat}
    (h : separatedDigits? cs = some ds) : Separated cs ds := by
  fun_induction separatedDigits? cs generalizing ds with
  | case1 => exact absurd h (by simp only [reduceCtorEq, not_false_eq_true])
  | case2 c =>
      rcases Option.map_eq_some_iff.mp h with ⟨d, hd, rfl⟩
      exact .last hd
  | case3 c rest ih =>
      simp only [bind, Option.bind_eq_some_iff, pure, Option.some.injEq] at h
      rcases h with ⟨d, hd, es, hes, rfl⟩
      exact .underscore hd (ih hes)
  | case4 c rest _ _ ih =>
      simp only [bind, Option.bind_eq_some_iff, pure, Option.some.injEq] at h
      rcases h with ⟨d, hd, es, hes, rfl⟩
      exact .digit hd (ih hes)

theorem separatedDigits?_of_separated {cs : List Char} {ds : List Nat} (h : Separated cs ds) :
    separatedDigits? cs = some ds := by
  induction h with
  | last hc => rw [separatedDigits?, hc]; rfl
  | underscore hc _ ih => rw [separatedDigits?, hc, ih]; rfl
  | @digit c d cs ds hc hcs ih =>
      -- The digits behind this one do not start with an underscore.
      rcases hcs.digits with ⟨e, rest, rfl, he, _⟩
      rw [separatedDigits?, hc, ih]
      · rfl
      · exact fun h => nomatch h
      · rintro _ ⟨⟩
        exact absurd he (by decide)

/-- The values of a row of digits. -/
theorem separatedDigits?_eq_some_iff {cs : List Char} {ds : List Nat} :
    separatedDigits? cs = some ds ↔ Separated cs ds :=
  ⟨separated_of_separatedDigits?, separatedDigits?_of_separated⟩

/-! ### Numbers -/

/-- What is read behind the sign. -/
theorem readNatural_eq_ok_iff {cs : List Char} {n : Nat} :
    readNatural cs = .ok n ↔ WritesNatural cs n := by
  unfold readNatural
  constructor
  · intro h
    split at h
    · simp only [reduceCtorEq] at h
    · next ds hds =>
        split at h
        · simp only [reduceCtorEq] at h
        · next hlength =>
            split at h
            · next hpadding =>
                rw [Except.ok.injEq] at h
                refine ⟨_, _, ds, List.takeWhile_append_dropWhile.symm,
                  separatedDigits?_eq_some_iff.mp hds, by omega, h.symm, ?_⟩
                exact List.all_eq_true.mp hpadding
            · simp only [reduceCtorEq] at h
  · rintro ⟨body, after, ds, rfl, hbody, hlength, rfl, hafter⟩
    -- The run that the reader takes is the whole body: padding does not go on with it.
    rcases hbody.digits with ⟨_, _, _, _, hrun⟩
    have hstop : ∀ c ∈ after.head?, (isDigit c || c == '_') = false := by
      intro c hc
      rw [← Bool.not_eq_true]
      intro hcontra
      have hpadding := hafter c (List.mem_of_mem_head? hc)
      rw [not_padding_of_run hcontra] at hpadding
      exact Bool.noConfusion hpadding
    rcases span_append hrun hstop with ⟨htake, hdrop⟩
    rw [htake, hdrop, separatedDigits?_of_separated hbody]
    simp only [if_neg (by omega : ¬ maxIntegerDigits < ds.length),
      if_pos (List.all_eq_true.mpr hafter)]

-- The reader changes the number behind the sign as an integer, in a second step.
theorem signed_eq_ok_iff {r : Except IntegerFault Nat} {f : Int → Int} {n : Int} :
    Except.map f (r >>= fun k => pure (k : Int)) = .ok n ↔ ∃ k : Nat, r = .ok k ∧ f k = n := by
  cases r with
  | error e =>
      simp only [bind, Except.bind, Except.map, reduceCtorEq, false_and, exists_false]
  | ok k =>
      simp only [bind, Except.bind, pure, Except.pure, Except.map, Except.ok.injEq,
        exists_eq_left']

/-- What is read of a text. -/
theorem readInteger_eq_ok_iff {s : String} {n : Int} :
    readInteger s = .ok n ↔ WritesInteger s.toList n := by
  constructor
  · intro h
    have hbefore : ∀ c ∈ s.toList.takeWhile isIntegerPadding, isIntegerPadding c = true :=
      fun c hc => List.all_eq_true.mp List.all_takeWhile c hc
    have hcut : s.toList = s.toList.takeWhile isIntegerPadding ++
        s.toList.dropWhile isIntegerPadding := List.takeWhile_append_dropWhile.symm
    unfold readInteger at h
    split at h
    · next cs hcs =>
        rcases signed_eq_ok_iff.mp h with ⟨k, hk, rfl⟩
        rw [hcs] at hcut
        exact ⟨_, ['-'], cs, k, hcut, hbefore, readNatural_eq_ok_iff.mp hk, .minus k⟩
    · next cs hcs =>
        rcases signed_eq_ok_iff.mp h with ⟨k, hk, rfl⟩
        rw [hcs] at hcut
        exact ⟨_, ['+'], cs, k, hcut, hbefore, readNatural_eq_ok_iff.mp hk, .plus k⟩
    · rcases signed_eq_ok_iff.mp h with ⟨k, hk, rfl⟩
      exact ⟨_, [], _, k, hcut, hbefore, readNatural_eq_ok_iff.mp hk, .none k⟩
  · rintro ⟨before, sign, rest, k, hs, hbefore, hrest, hsign⟩
    have hread := readNatural_eq_ok_iff.mpr hrest
    rcases hrest with ⟨body, after, ds, rfl, hbody, _⟩
    rcases hbody.digits with ⟨c, cs, rfl, hc, _⟩
    -- Skipping stops at the sign, or at the first digit.
    have hskip : s.toList.dropWhile isIntegerPadding = sign ++ ((c :: cs) ++ after) := by
      rw [hs]
      refine (span_append hbefore ?_).2
      intro e he
      cases hsign with
      | none =>
          obtain rfl : c = e := Option.some.inj he
          exact not_padding_of_digit hc
      | plus =>
          obtain rfl : '+' = e := Option.some.inj he
          decide
      | minus =>
          obtain rfl : '-' = e := Option.some.inj he
          decide
    unfold readInteger
    rw [hskip]
    cases hsign with
    | plus => exact signed_eq_ok_iff.mpr ⟨k, hread, rfl⟩
    | minus => exact signed_eq_ok_iff.mpr ⟨k, hread, rfl⟩
    | none =>
        -- A digit is not taken for a sign.
        split
        · next heq =>
            obtain rfl : c = '-' := (List.cons.inj heq).1
            exact absurd hc (by decide)
        · next heq =>
            obtain rfl : c = '+' := (List.cons.inj heq).1
            exact absurd hc (by decide)
        · exact signed_eq_ok_iff.mpr ⟨k, hread, rfl⟩

end Text

end DeskCalc
