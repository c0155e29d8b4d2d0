import DeskCalc.Proofs.Expression.Closed
import DeskCalc.Proofs.Postfix.Renaming
import DeskCalc.Proofs.Token.Segmentation

/-!
# Letter Case Does Not Matter

Two texts that differ only in the case of letters have the same value or the same kind of fault.

A change of case keeps a letter a letter and leaves all other characters alone, so it moves no
token and changes no token but a name. Conversion does not look at names at all. The machine does,
when it looks up a constant or a function, and then it takes the name in lower case. So nothing
that happens on the way depends on the case, and it is only seen in a fault that quotes a name.

The two texts are compared by what they are in lower case, and so are their tokens and their
faults. A change of case is a renaming of tokens, `Token.rename lowercase`.

## Main definitions

* `caseless`: What the case of letters leaves of an outcome.

## Theorems

* `Scan.tokens_toLower`: The tokens of a text in lower case.
* `Postfix.caseless_execute`: Tokens that differ in case do the same on any stack.
* `Expression.carry_value`: Texts that differ in case have the same value, or faults alike.
* `Evaluator.evaluate_of_lowercase_eq`: The same for evaluations, with the kinds of faults.
-/

namespace DeskCalc

open Outcome

/-! ### Characters and tokens -/

namespace Scan

theorem toNat_toLower {c : Char} (hc : c.isUpper = true) : c.toLower.toNat = c.toNat + 32 := by
  unfold Char.isUpper at hc
  rw [decide_eq_true_eq] at hc
  have hmost : c.toNat ≤ 90 := UInt32.le_iff_toNat_le.mp hc.2
  have hval : c.toLower.toNat = (c.val + 32).toNat := by
    unfold Char.toLower
    rw [dif_pos hc]
    rfl
  rw [hval, UInt32.toNat_add]
  exact Nat.mod_eq_of_lt (by change c.toNat + 32 < 2 ^ 32; omega)

/-- Only letters have another case, and it is a letter. -/
theorem toLower_eq_or (c : Char) : c.toLower = c ∨ IsLetter c ∧ IsLetter c.toLower := by
  by_cases hupper : c.isUpper = true
  · have hlower := toNat_toLower hupper
    unfold Char.isUpper at hupper
    rw [decide_eq_true_eq] at hupper
    have hleast : 65 ≤ c.toNat := UInt32.le_iff_toNat_le.mp hupper.1
    have hmost : c.toNat ≤ 90 := UInt32.le_iff_toNat_le.mp hupper.2
    simp only [← isLetter_iff, isLetter, hlower, Bool.or_eq_true, Bool.and_eq_true,
      decide_eq_true_eq]
    exact .inr ⟨by omega, by omega⟩
  · left
    unfold Char.toLower
    rw [dif_neg]
    unfold Char.isUpper at hupper
    rwa [decide_eq_true_eq] at hupper

theorem toLower_eq_self {c : Char} (hc : ¬ IsLetter c) : c.toLower = c :=
  (toLower_eq_or c).resolve_right fun h => hc h.1

/-- A class of characters that has all letters or none does not tell cases apart. -/
theorem toLower_class {p : Char → Bool} (hp : (∀ c, IsLetter c → p c = true) ∨
    ∀ c, IsLetter c → p c = false) : p ∘ Char.toLower = p := by
  funext c
  rw [Function.comp_apply]
  rcases toLower_eq_or c with hsame | ⟨hc, hlower⟩
  · rw [hsame]
  · rcases hp with hall | hnone
    · rw [hall c hc, hall _ hlower]
    · rw [hnone c hc, hnone _ hlower]

theorem isSpace_toLower : isSpace ∘ Char.toLower = isSpace :=
  toLower_class (.inr fun c hc => by
    rw [← Bool.not_eq_true, isSpace_iff]
    exact not_space_of_letter hc)

theorem isNumeral_toLower : isNumeral ∘ Char.toLower = isNumeral :=
  toLower_class (.inr fun c hc => by
    rw [← Bool.not_eq_true, isNumeral_iff]
    exact not_numeral_of_letter hc)

theorem isLetter_toLower : isLetter ∘ Char.toLower = isLetter :=
  toLower_class (.inl fun c hc => (isLetter_iff c).mpr hc)

theorem isNameChar_toLower : isNameChar ∘ Char.toLower = isNameChar :=
  toLower_class (.inl fun c hc => (isNameChar_iff c).mpr (.inl hc))

theorem isAsciiDigit_toLower (c : Char) : Text.isAsciiDigit c.toLower = Text.isAsciiDigit c := by
  have hclass : Text.isAsciiDigit ∘ Char.toLower = Text.isAsciiDigit :=
    toLower_class (.inr fun c hc => by
      rw [isAsciiDigit_eq, ← Bool.not_eq_true]
      exact fun hdigit => not_numeral_of_letter hc (.inl hdigit))
  exact congrFun hclass c

theorem startsNumber_toLower (c : Char) (rest : List Char) :
    startsNumber c.toLower (rest.map Char.toLower) = startsNumber c rest := by
  have hpoint : (c.toLower == '.') = (c == '.') := by
    rcases toLower_eq_or c with hsame | ⟨hc, hlower⟩
    · rw [hsame]
    · rw [beq_false_of_ne, beq_false_of_ne]
      · rintro rfl
        exact absurd ((isLetter_iff '.').mpr hc) (by decide)
      · intro hdot
        rw [hdot] at hlower
        exact absurd ((isLetter_iff '.').mpr hlower) (by decide)
  have hdigit : startsWithDigit (rest.map Char.toLower) = startsWithDigit rest := by
    cases rest with
    | nil => rfl
    | cons d rest => exact isAsciiDigit_toLower d
  rw [startsNumber, startsNumber, isAsciiDigit_toLower, hpoint, hdigit]

theorem not_letter_of_startsNumber {c : Char} {rest : List Char}
    (h : startsNumber c rest = true) : ¬ IsLetter c := by
  intro hc
  rw [startsNumber_eq_false (not_numeral_of_letter hc)] at h
  exact Bool.noConfusion h

theorem map_toLower_numeral {cs : List Char} (hcs : ∀ c ∈ cs, isNumeral c = true) :
    cs.map Char.toLower = cs := by
  rw [List.map_congr_left (g := id) fun c hc => ?_, List.map_id]
  exact toLower_eq_self fun hletter =>
    not_numeral_of_letter hletter ((isNumeral_iff c).mp (hcs c hc))

/-- The tokens of a text in lower case are its tokens with their names in lower case. -/
theorem tokens_toLower (cs : List Char) :
    tokens (cs.map Char.toLower) = (tokens cs).map (Token.rename lowercase) := by
  -- The cases are those of the scanner: in each of them it finds the same class of character.
  fun_induction tokens cs with
  | case1 => rw [List.map_nil, tokens, List.map_nil]
  | case2 c rest hspace ih =>
      have hlower : isSpace c.toLower = true := (congrFun isSpace_toLower c).trans hspace
      rw [List.map_cons, tokens, if_pos hlower, ih]
  | case3 c rest hspace hstart ih =>
      have hself := toLower_eq_self (not_letter_of_startsNumber hstart)
      have hdigits := map_toLower_numeral fun c hc =>
        List.all_eq_true.mp (List.all_takeWhile (p := isNumeral) (l := rest)) c hc
      rw [List.map_cons, tokens, startsNumber_toLower, if_pos hstart, hself, if_neg hspace,
        List.takeWhile_map, List.dropWhile_map, isNumeral_toLower, hdigits, ih]
      rfl
  | case4 c rest hspace hstart hletter ih =>
      have hname : String.ofList (c.toLower :: (rest.takeWhile isNameChar).map Char.toLower) =
          lowercase (String.ofList (c :: rest.takeWhile isNameChar)) := by
        rw [lowercase, String.toList_ofList, List.map_cons]
      have hspace' : ¬ isSpace c.toLower = true :=
        fun h => hspace ((congrFun isSpace_toLower c).symm.trans h)
      have hletter' : isLetter c.toLower = true := (congrFun isLetter_toLower c).trans hletter
      rw [List.map_cons, tokens, startsNumber_toLower, if_neg hstart, if_neg hspace',
        if_pos hletter', List.takeWhile_map, List.dropWhile_map, isNameChar_toLower, hname, ih]
      rfl
  | case5 c rest hspace hstart hletter hsymbol ih =>
      have hself := toLower_eq_self (mt (isLetter_iff c).mpr hletter)
      rw [List.map_cons, tokens, startsNumber_toLower, if_neg hstart, hself, if_neg hspace,
        if_neg hletter, if_pos hsymbol, ih]
      rfl
  | case6 c rest hspace hstart hletter hsymbol ih =>
      have hself := toLower_eq_self (mt (isLetter_iff c).mpr hletter)
      rw [List.map_cons, tokens, startsNumber_toLower, if_neg hstart, hself, if_neg hspace,
        if_neg hletter, if_neg hsymbol, ih]
      rfl

end Scan

theorem Token.scan_lowercase (text : String) :
    scan (lowercase text) = (scan text).map (Token.rename lowercase) := by
  rw [scan, lowercase, String.toList_ofList, Scan.tokens_toLower]
  rfl

/-! ### The machine -/

/-- What the case of letters leaves of an outcome: all of a result, and all of a fault but the case
    of the name that it quotes. -/
def caseless {α : Type} : Except Fault α → Except Fault α := carry (Fault.rename lowercase) id

/-- Sequences do not tell cases apart if their steps do not, since a result has no case. -/
theorem caseless_bind {α β : Type} {r r' : Except Fault α} {k k' : α → Except Fault β}
    (hr : caseless r = caseless r') (hk : ∀ x, caseless (k x) = caseless (k' x)) :
    caseless (r >>= k) = caseless (r' >>= k') := by
  refine carry_bind_congr hr fun x x' hx => ?_
  rw [id, id] at hx
  rw [hx]
  exact hk x'

theorem Constant.caseless_value {name other : String} (h : lowercase name = lowercase other) :
    caseless (value name) = caseless (value other) := by
  have hfind : ofName? name = ofName? other := by rw [ofName?, ofName?, h]
  rw [value, value, hfind]
  cases ofName? other with
  | none =>
      change Except.error (Fault.unknownIdentifier (lowercase name)) = _
      rw [h]
      rfl
  | some c => rfl

theorem Function.caseless_call (ar : Arithmetic) (mode : AngleMode) {name other : String}
    (h : lowercase name = lowercase other) (args : List Binary64) :
    caseless (call ar mode name args) = caseless (call ar mode other args) := by
  have hfind : ofName? name = ofName? other := by rw [ofName?, ofName?, h]
  rw [call, call, hfind]
  cases ofName? other with
  | none =>
      change Except.error (Fault.unsupportedFunction (lowercase name)) = _
      rw [h]
      rfl
  | some f => rfl

namespace Postfix

variable {ar : Arithmetic} {mode : AngleMode}

theorem caseless_executeCall {name other : String} (h : lowercase name = lowercase other)
    (argc : Option Int) (stack : List Binary64) :
    caseless (executeCall ar mode name argc stack) =
      caseless (executeCall ar mode other argc stack) := by
  unfold executeCall
  dsimp only
  by_cases hshort : (stack.length : Int) < argc.getD 1
  · rw [if_pos hshort, if_pos hshort]
    change Except.error (Fault.missingArguments (lowercase name) _) = _
    rw [h]
    rfl
  · rw [if_neg hshort, if_neg hshort]
    -- Both take the same arguments off the stack, whichever function it is.
    refine caseless_bind rfl fun p => ?_
    exact caseless_bind (Function.caseless_call ar mode h p.1) fun _ => rfl

/-- Tokens that differ in the case of their name have the same effect on any stack, or faults
    that differ in the case of the name they quote. -/
theorem caseless_execute {t u : Token} (h : t.rename lowercase = u.rename lowercase)
    (stack : List Binary64) :
    caseless (execute ar mode t stack) = caseless (execute ar mode u stack) := by
  have hkinds : u.kind = t.kind := by
    rw [← Token.kind_rename lowercase u, ← h, Token.kind_rename]
  cases hkind : t.kind with
  | number | operator | unknown =>
      -- The two are the same token, since it is left alone.
      rw [hkind] at hkinds
      simp only [Token.rename, hkind, hkinds] at h
      rw [h]
  | identifier =>
      rw [hkind] at hkinds
      simp only [Token.rename, hkind, hkinds, Token.mk.injEq, true_and] at h
      simp only [execute, hkind, hkinds]
      exact caseless_bind (Constant.caseless_value h.1) fun _ => rfl
  | call =>
      rw [hkind] at hkinds
      simp only [Token.rename, hkind, hkinds, Token.mk.injEq, true_and] at h
      simp only [execute, hkind, hkinds, h.2]
      exact caseless_executeCall h.1 u.argc stack

theorem caseless_executeAll {ts us : List Token}
    (h : ts.map (Token.rename lowercase) = us.map (Token.rename lowercase))
    (stack : List Binary64) :
    caseless (executeAll ar mode ts stack) = caseless (executeAll ar mode us stack) := by
  induction ts generalizing us stack with
  | nil =>
      rw [List.map_nil, eq_comm, List.map_eq_nil_iff] at h
      rw [h]
  | cons t ts ih =>
      rw [List.map_cons, eq_comm, List.map_eq_cons_iff] at h
      rcases h with ⟨u, us, rfl, hu, hus⟩
      exact caseless_bind (caseless_execute hu.symm stack) fun next => ih hus.symm next

theorem caseless_evaluate {ts us : List Token}
    (h : ts.map (Token.rename lowercase) = us.map (Token.rename lowercase)) :
    caseless (evaluate ar mode ts) = caseless (evaluate ar mode us) :=
  caseless_bind (caseless_executeAll h []) fun _ => rfl

end Postfix

/-! ### Texts -/

namespace Expression

variable {text other : String}

/-- Conversion has the same output for both texts, but for the case of names. -/
theorem carry_toPostfix (h : lowercase text = lowercase other) :
    carry (Failure.rename lowercase) (List.map (Token.rename lowercase)) (toPostfix text) =
      carry (Failure.rename lowercase) (List.map (Token.rename lowercase)) (toPostfix other) := by
  have hlower : ∀ text, Postfix.ofTokens (Token.scan (lowercase text)) =
      carry (Failure.rename lowercase) (List.map (Token.rename lowercase)) (toPostfix text) := by
    intro text
    have htyped : ∀ t ∈ Token.scan text, t.kind ≠ .call :=
      fun t ht => (Scan.isTyped_of_mem_tokens text.toList t ht).1
    rw [Token.scan_lowercase, Postfix.ofTokens_rename lowercase htyped, toPostfix]
  rw [← hlower, ← hlower, h]

theorem carry_value (ar : Arithmetic) (mode : AngleMode) (h : lowercase text = lowercase other) :
    carry (Failure.rename lowercase) id (value ar mode text) =
      carry (Failure.rename lowercase) id (value ar mode other) := by
  have hfault : ∀ r : Except Fault Binary64, carry (Failure.rename lowercase) id
      (r.mapError .fault) = (caseless r).mapError .fault := fun r => by
    cases r <;> rfl
  refine carry_bind_congr (carry_toPostfix h) fun ts us hts => ?_
  rw [hfault, hfault, Postfix.caseless_evaluate hts]

end Expression

/-- Two texts that are the same in lower case, that is, which differ in the case of ASCII letters at
    most, have the same value, or each has a fault and both are of the same kind. Even the faults
    are the same but for the case of the name that they quote. -/
theorem Evaluator.evaluate_of_lowercase_eq (ar : Arithmetic) {text other : String}
    (h : lowercase text = lowercase other) (e : Evaluator) (mode : Option AngleMode) :
    (∃ x, (e.evaluate ar text mode).outcome = .ok x ∧
        (e.evaluate ar other mode).outcome = .ok x) ∨
      ∃ f g : Fault, (e.evaluate ar text mode).outcome = .error (.fault f) ∧
        (e.evaluate ar other mode).outcome = .error (.fault g) ∧ f.kind = g.kind ∧
        f.rename lowercase = g.rename lowercase := by
  have hvalue := Expression.carry_value ar (mode.getD e.mode) h
  -- A result and a fault are never alike, so either both texts have a value or neither has.
  simp only [evaluate]
  cases htext : Expression.value ar (mode.getD e.mode) text with
  | ok x =>
      cases hother : Expression.value ar (mode.getD e.mode) other with
      | ok y =>
          rw [htext, hother] at hvalue
          have hxy : x = y := Except.ok.inj hvalue
          exact .inl ⟨x, rfl, by rw [hxy]⟩
      | error failure => simp only [htext, hother, carry, reduceCtorEq] at hvalue
  | error failure =>
      cases hother : Expression.value ar (mode.getD e.mode) other with
      | ok y => simp only [htext, hother, carry, reduceCtorEq] at hvalue
      | error failure' =>
          rcases Expression.failsOnly_value _ _ _ _ htext with ⟨f, rfl, _⟩
          rcases Expression.failsOnly_value _ _ _ _ hother with ⟨g, rfl, _⟩
          rw [htext, hother] at hvalue
          have hquoted : f.rename lowercase = g.rename lowercase :=
            Failure.fault.inj (Except.error.inj hvalue)
          refine .inr ⟨f, g, rfl, rfl, ?_, hquoted⟩
          rw [← Fault.kind_rename lowercase f, hquoted, Fault.kind_rename]

/-- A function and a constant, each in two spellings, first one that there is and then one that is
    unknown. The first two texts have the same value, and neither of the others has one, for faults
    of the same kind. -/
theorem Evaluator.evaluate_of_lowercase_eq_root :
    (lowercase "Sqrt(16)*PI" = lowercase "SQRT(16)*pi" ∧
      ∃ x, ((⟨.degrees⟩ : Evaluator).evaluate .standard "Sqrt(16)*PI" none).outcome = .ok x ∧
        ((⟨.degrees⟩ : Evaluator).evaluate .standard "SQRT(16)*pi" none).outcome = .ok x) ∧
    lowercase "Sqrt(16)+Foo" = lowercase "SQRT(16)+fOO" ∧
      ∃ f g : Fault,
        ((⟨.degrees⟩ : Evaluator).evaluate .standard "Sqrt(16)+Foo" none).outcome =
          .error (.fault f) ∧
        ((⟨.degrees⟩ : Evaluator).evaluate .standard "SQRT(16)+fOO" none).outcome =
          .error (.fault g) ∧
        f.kind = g.kind ∧ f.rename lowercase = g.rename lowercase := by
  have hpi : lowercase "Sqrt(16)*PI" = lowercase "SQRT(16)*pi" := by decide +kernel
  have hfoo : lowercase "Sqrt(16)+Foo" = lowercase "SQRT(16)+fOO" := by decide +kernel
  have hsome : ((⟨.degrees⟩ : Evaluator).evaluate .standard "Sqrt(16)*PI" none).isOk = true := by
    decide +kernel
  have hnone : ((⟨.degrees⟩ : Evaluator).evaluate .standard "Sqrt(16)+Foo" none).isOk = false := by
    decide +kernel
  refine ⟨⟨hpi, ?_⟩, hfoo, ?_⟩
  · rcases evaluate_of_lowercase_eq .standard hpi ⟨.degrees⟩ none with hvalue | ⟨f, _, hf, _⟩
    · exact hvalue
    · rw [Evaluation.isOk, hf] at hsome
      exact Bool.noConfusion hsome
  · rcases evaluate_of_lowercase_eq .standard hfoo ⟨.degrees⟩ none with ⟨x, hx, _⟩ | hfault
    · rw [Evaluation.isOk, hx] at hnone
      exact Bool.noConfusion hnone
    · exact hfault

end DeskCalc
