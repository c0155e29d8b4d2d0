import DeskCalc.Proofs.Text.Span
import DeskCalc.Token.Scan
import Mathlib.Data.List.TakeWhile
import Mathlib.Tactic.ByContra

/-!
# The Segmentation of a Text

What the scanner does, said without the scanner: a text is cut into white space and tokens, each
token is spelled as its kind requires, and what directly follows a token does not belong to it.

The last part is what makes the cut unique. A row of digits could be cut anywhere into shorter
numbers if a number were allowed to end before a digit, and a lone point is a token only because
no digit follows it. So a piece is always judged together with the text behind it, and `Segments`
has one constructor for all kinds of tokens, with that text in it.

The first character of a piece tells its kind, except that a point needs the next one. That the
classes of characters exclude each other is all that there is to show for it.

## Main definitions

* `Scan.IsSpace`, `Scan.IsNumeral`, `Scan.IsLetter`, `Scan.IsNameChar`, `Scan.IsSymbol`: The
  classes of characters, by the characters that they have.
* `Scan.Spells`: The rows of characters that are tokens of a kind.
* `Scan.Ends`: That a token ends where another text begins.
* `Scan.Segments`: A text, cut into tokens.
* `Scan.visible`: A text without its white space.

## Theorems

* `Scan.tokens_append`: A token is scanned as one if it ends where the rest begins.
* `Scan.tokens_eq_of_segments`, `Scan.segments_tokens`: The tokens of a text are its segmentation,
  and the only one.
* `Scan.Segments.flatMap_text`: The tokens have all of a text but its white space.
* `Scan.Segments.exists_place`: Every token stands somewhere in the text.
* `Token.scan_segments`: All of this for the scanner.
-/

namespace DeskCalc

namespace Scan

/-! ### Classes of characters -/

/-- White space. -/
def IsSpace (c : Char) : Prop := c ∈ [' ', '\t', '\n']

instance (c : Char) : Decidable (IsSpace c) := inferInstanceAs (Decidable (_ ∈ _))

/-- Digits and points. -/
def IsNumeral (c : Char) : Prop := c.isDigit = true ∨ c = '.'

/-- Letters and the low line. -/
def IsLetter (c : Char) : Prop := c.isAlpha = true ∨ c = '_'

/-- Letters, digits and the low line. -/
def IsNameChar (c : Char) : Prop := IsLetter c ∨ c.isDigit = true

/-- The operators, the brackets and the comma. -/
def IsSymbol (c : Char) : Prop := c ∈ "+-*/^(),!%".toList

theorem isAsciiDigit_eq (c : Char) : Text.isAsciiDigit c = c.isDigit := by
  rw [Bool.eq_iff_iff, Text.isAsciiDigit, Char.isDigit, Bool.and_eq_true, Bool.and_eq_true,
    decide_eq_true_eq, decide_eq_true_eq, decide_eq_true_eq, decide_eq_true_eq, ge_iff_le,
    UInt32.le_iff_toNat_le, UInt32.le_iff_toNat_le]
  rfl

theorem isSpace_iff (c : Char) : isSpace c = true ↔ IsSpace c := by
  rw [IsSpace, isSpace, Bool.or_eq_true, Bool.or_eq_true, beq_iff_eq, beq_iff_eq, beq_iff_eq,
    List.mem_cons, List.mem_cons, List.mem_singleton, or_assoc]

theorem isNumeral_iff (c : Char) : isNumeral c = true ↔ IsNumeral c := by
  rw [isNumeral, Bool.or_eq_true, beq_iff_eq, isAsciiDigit_eq]
  rfl

theorem isLetter_iff (c : Char) : isLetter c = true ↔ IsLetter c := by
  rw [isLetter, IsLetter, Bool.or_eq_true, beq_iff_eq]
  delta Char.isAlpha Char.isUpper Char.isLower
  rw [Bool.or_comm]
  simp only [Bool.or_eq_true, Bool.and_eq_true, decide_eq_true_eq, ge_iff_le,
    UInt32.le_iff_toNat_le]
  rfl

theorem isNameChar_iff (c : Char) : isNameChar c = true ↔ IsNameChar c := by
  rw [isNameChar, Bool.or_eq_true, isLetter_iff, isAsciiDigit_eq]
  rfl

theorem isSymbol_iff (c : Char) : isSymbol c = true ↔ IsSymbol c := by
  rw [isSymbol, List.contains_iff_mem]
  rfl

/-! ### The classes exclude each other -/

theorem not_space_of_numeral {c : Char} (hc : IsNumeral c) : ¬ IsSpace c := by
  intro hspace
  rw [IsSpace] at hspace
  simp only [List.mem_cons, List.not_mem_nil, or_false] at hspace
  rw [← isNumeral_iff] at hc
  rcases hspace with rfl | rfl | rfl <;> exact absurd hc (by decide)

theorem not_space_of_letter {c : Char} (hc : IsLetter c) : ¬ IsSpace c := by
  intro hspace
  rw [IsSpace] at hspace
  simp only [List.mem_cons, List.not_mem_nil, or_false] at hspace
  rw [← isLetter_iff] at hc
  rcases hspace with rfl | rfl | rfl <;> exact absurd hc (by decide)

theorem not_numeral_of_letter {c : Char} (hc : IsLetter c) : ¬ IsNumeral c := by
  rw [← isLetter_iff] at hc
  rintro (hdigit | rfl)
  · rw [← isAsciiDigit_eq, Text.isAsciiDigit, Bool.and_eq_true, decide_eq_true_eq,
      decide_eq_true_eq] at hdigit
    simp only [isLetter, Bool.or_eq_true, Bool.and_eq_true, decide_eq_true_eq, beq_iff_eq] at hc
    rcases hc with hc | rfl
    · omega
    · exact absurd hdigit (by decide)
  · exact absurd hc (by decide)

/-- A symbol is of no other class. -/
theorem symbol_excludes {c : Char} (hc : IsSymbol c) :
    ¬ IsSpace c ∧ ¬ IsNumeral c ∧ ¬ IsLetter c := by
  rw [← isSymbol_iff, isSymbol, List.contains_iff_mem] at hc
  simp only [List.mem_cons, List.not_mem_nil, or_false] at hc
  rw [← isSpace_iff, ← isNumeral_iff, ← isLetter_iff]
  rcases hc with rfl | rfl | rfl | rfl | rfl | rfl | rfl | rfl | rfl | rfl <;> decide

theorem not_space_of_nameChar {c : Char} (hc : IsNameChar c) : ¬ IsSpace c :=
  hc.elim not_space_of_letter fun hdigit => not_space_of_numeral (.inl hdigit)

/-- No number starts at a character that cannot be in one. -/
theorem startsNumber_eq_false {c : Char} (hc : ¬ IsNumeral c) (rest : List Char) :
    startsNumber c rest = false := by
  rw [← isNumeral_iff, Bool.not_eq_true, isNumeral, Bool.or_eq_false_iff] at hc
  rw [startsNumber, hc.1, hc.2, Bool.false_and, Bool.or_self]

/-! ### Segmentations -/

/-- That a row of characters is a token of the given kind. -/
def Spells : TokenKind → List Char → Prop
  -- A digit, or a point and a digit, and then digits and points.
  | .number, cs =>
    ∃ d ds, (cs = d :: ds ∨ cs = '.' :: d :: ds) ∧ d.isDigit = true ∧ ∀ c ∈ ds, IsNumeral c
  | .identifier, cs => ∃ d ds, cs = d :: ds ∧ IsLetter d ∧ ∀ c ∈ ds, IsNameChar c
  | .operator, cs => ∃ c, cs = [c] ∧ IsSymbol c
  | .unknown, cs =>
    ∃ c, cs = [c] ∧ ¬ IsSpace c ∧ ¬ IsLetter c ∧ ¬ c.isDigit = true ∧ ¬ IsSymbol c
  | .call, _ => False

/-- That a token of the given kind ends where the rest of the text begins: the rest does not go
    on with it, and does not make a number of a lone point. -/
def Ends : TokenKind → List Char → List Char → Prop
  | .number, _, rest => ∀ c ∈ rest.head?, ¬ IsNumeral c
  | .identifier, _, rest => ∀ c ∈ rest.head?, ¬ IsNameChar c
  | .unknown, cs, rest => cs = ['.'] → ∀ c ∈ rest.head?, ¬ c.isDigit = true
  | .operator, _, _ | .call, _, _ => True

/-- A text, cut into white space and tokens. -/
inductive Segments : List Char → List Token → Prop where
  /-- Of an empty text there are none. -/
  | done : Segments [] []
  /-- White space comes first. -/
  | space {c : Char} {rest : List Char} {ts : List Token} (hc : IsSpace c)
      (hrest : Segments rest ts) : Segments (c :: rest) ts
  /-- A token comes first. -/
  | token {kind : TokenKind} {cs rest : List Char} {ts : List Token} (hcs : Spells kind cs)
      (hends : Ends kind cs rest) (hrest : Segments rest ts) :
      Segments (cs ++ rest) (⟨kind, String.ofList cs, none⟩ :: ts)

/-- A text without its white space. -/
def visible (cs : List Char) : List Char := cs.filter fun c => ¬ IsSpace c

/-! ### Scanning a token -/

theorem tokens_space {c : Char} (hc : IsSpace c) (rest : List Char) :
    tokens (c :: rest) = tokens rest := by
  rw [tokens, if_pos ((isSpace_iff c).mpr hc)]

theorem tokens_run {c : Char} {cs rest : List Char} (hc : IsNumeral c)
    (hstart : startsNumber c (cs ++ rest) = true) (hcs : ∀ d ∈ cs, IsNumeral d)
    (hrest : ∀ d ∈ rest.head?, ¬ IsNumeral d) :
    tokens (c :: (cs ++ rest)) = .number (String.ofList (c :: cs)) :: tokens rest := by
  simp only [← isNumeral_iff, Bool.not_eq_true] at hcs hrest
  rcases Text.span_append hcs hrest with ⟨htake, hdrop⟩
  have hspace := not_space_of_numeral hc
  rw [← isSpace_iff] at hspace
  rw [tokens, if_neg hspace, if_pos hstart, htake, hdrop]

theorem tokens_name {c : Char} {cs rest : List Char} (hc : IsLetter c)
    (hcs : ∀ d ∈ cs, IsNameChar d) (hrest : ∀ d ∈ rest.head?, ¬ IsNameChar d) :
    tokens (c :: (cs ++ rest)) = .identifier (String.ofList (c :: cs)) :: tokens rest := by
  simp only [← isNameChar_iff, Bool.not_eq_true] at hcs hrest
  rcases Text.span_append hcs hrest with ⟨htake, hdrop⟩
  have hspace := not_space_of_letter hc
  have hstart := startsNumber_eq_false (not_numeral_of_letter hc) (cs ++ rest)
  rw [← isSpace_iff] at hspace
  rw [tokens, if_neg hspace, hstart, if_neg Bool.false_ne_true, if_pos ((isLetter_iff c).mpr hc),
    htake, hdrop]

theorem tokens_symbol {c : Char} (hc : IsSymbol c) (rest : List Char) :
    tokens (c :: rest) = .operator (String.singleton c) :: tokens rest := by
  rcases symbol_excludes hc with ⟨hspace, hnumeral, hletter⟩
  rw [← isSpace_iff] at hspace
  rw [← isLetter_iff] at hletter
  rw [tokens, if_neg hspace, startsNumber_eq_false hnumeral, if_neg Bool.false_ne_true,
    if_neg hletter, if_pos ((isSymbol_iff c).mpr hc)]

/-- A token is scanned as one, of its kind, if it ends where the rest begins. -/
theorem tokens_append {kind : TokenKind} {cs rest : List Char} (hcs : Spells kind cs)
    (hends : Ends kind cs rest) :
    tokens (cs ++ rest) = ⟨kind, String.ofList cs, none⟩ :: tokens rest := by
  cases kind with
  | number =>
      rcases hcs with ⟨d, ds, hform, hd, hds⟩
      have hdigit : Text.isAsciiDigit d = true := isAsciiDigit_eq d ▸ hd
      rcases hform with rfl | rfl
      · refine tokens_run (.inl hd) ?_ hds hends
        rw [startsNumber, hdigit, Bool.true_or]
      · exact tokens_run (.inr rfl) hdigit (List.forall_mem_cons.mpr ⟨.inl hd, hds⟩) hends
  | identifier =>
      rcases hcs with ⟨d, ds, rfl, hd, hds⟩
      exact tokens_name hd hds hends
  | operator =>
      rcases hcs with ⟨c, rfl, hc⟩
      exact tokens_symbol hc rest
  | unknown =>
      rcases hcs with ⟨c, rfl, hspace, hletter, hdigit, hsymbol⟩
      rw [← isSpace_iff] at hspace
      rw [← isLetter_iff] at hletter
      rw [← isSymbol_iff] at hsymbol
      have hstart : ¬ startsNumber c rest = true := by
        rw [startsNumber, isAsciiDigit_eq, Bool.or_eq_true, not_or]
        refine ⟨hdigit, fun hpoint => ?_⟩
        rw [Bool.and_eq_true, beq_iff_eq] at hpoint
        rcases hpoint with ⟨rfl, hnext⟩
        -- Of a point it has to be known what follows.
        match rest, hnext with
        | e :: rest, hnext => exact hends rfl e rfl (isAsciiDigit_eq e ▸ hnext)
      rw [List.singleton_append, tokens, if_neg hspace, if_neg hstart, if_neg hletter,
        if_neg hsymbol]
      rfl
  | call => exact False.elim hcs

/-! ### Scanning a text -/

/-- A text has no other segmentation than its tokens. -/
theorem tokens_eq_of_segments {cs : List Char} {ts : List Token} (h : Segments cs ts) :
    tokens cs = ts := by
  induction h with
  | done => rw [tokens]
  | space hc _ ih => rw [tokens_space hc, ih]
  | token hcs hends _ ih => rw [tokens_append hcs hends, ih]

/-- What a number starts with, together with the run behind it. -/
theorem spells_number {c : Char} {rest : List Char} (hstart : startsNumber c rest = true) :
    Spells .number (c :: rest.takeWhile isNumeral) := by
  have hnumerals : ∀ d ∈ rest.takeWhile isNumeral, IsNumeral d := fun d hd =>
    (isNumeral_iff d).mp (List.mem_takeWhile_imp hd)
  rw [startsNumber, Bool.or_eq_true, Bool.and_eq_true, beq_iff_eq] at hstart
  rcases hstart with hdigit | ⟨rfl, hdigit⟩
  · exact ⟨c, _, .inl rfl, isAsciiDigit_eq c ▸ hdigit, hnumerals⟩
  · -- The digit behind the point is the first of the run.
    match rest, hdigit with
    | d :: rest, hdigit =>
        have hd : d.isDigit = true := isAsciiDigit_eq d ▸ hdigit
        rw [List.takeWhile_cons_of_pos ((isNumeral_iff d).mpr (.inl hd))] at hnumerals ⊢
        exact ⟨d, _, .inr rfl, hd, (List.forall_mem_cons.mp hnumerals).2⟩

/-- The tokens of a text are a segmentation of it. -/
theorem segments_tokens (cs : List Char) : Segments cs (tokens cs) := by
  fun_induction tokens cs with
  | case1 => exact .done
  | case2 c rest hspace ih => exact .space ((isSpace_iff c).mp hspace) ih
  | case3 c rest _ hnumber ih =>
      have hcut : c :: rest = (c :: rest.takeWhile isNumeral) ++ rest.dropWhile isNumeral := by
        rw [List.cons_append, List.takeWhile_append_dropWhile]
      rw [hcut]
      refine @Segments.token .number _ _ _ (spells_number hnumber) (fun d hd => ?_) ih
      rw [← isNumeral_iff, Text.head?_dropWhile d hd]
      exact Bool.false_ne_true
  | case4 c rest _ _ hletter ih =>
      have hcut : c :: rest = (c :: rest.takeWhile isNameChar) ++ rest.dropWhile isNameChar := by
        rw [List.cons_append, List.takeWhile_append_dropWhile]
      rw [hcut]
      refine @Segments.token .identifier _ _ _ ⟨c, _, rfl, (isLetter_iff c).mp hletter, ?_⟩
        (fun d hd => ?_) ih
      · exact fun d hd => (isNameChar_iff d).mp (List.mem_takeWhile_imp hd)
      · rw [← isNameChar_iff, Text.head?_dropWhile d hd]
        exact Bool.false_ne_true
  | case5 c rest _ _ _ hsymbol ih =>
      exact @Segments.token .operator [c] _ _ ⟨c, rfl, (isSymbol_iff c).mp hsymbol⟩ trivial ih
  | case6 c rest hspace hnumber hletter hsymbol ih =>
      rw [startsNumber, isAsciiDigit_eq, Bool.or_eq_true, not_or] at hnumber
      rw [isSpace_iff] at hspace
      rw [isLetter_iff] at hletter
      rw [isSymbol_iff] at hsymbol
      refine @Segments.token .unknown [c] _ _ ⟨c, rfl, hspace, hletter, hnumber.1, hsymbol⟩
        (fun hpoint d hd hdigit => hnumber.2 ?_) ih
      rw [List.cons.injEq] at hpoint
      match rest, hd with
      | e :: rest, rfl => rw [hpoint.1, startsWithDigit, isAsciiDigit_eq, hdigit]; rfl

/-! ### What a segmentation has -/

/-- There is no white space in a token. -/
theorem visible_of_spells {kind : TokenKind} {cs : List Char} (hcs : Spells kind cs) :
    visible cs = cs := by
  suffices h : ∀ c ∈ cs, ¬ IsSpace c by
    rw [visible, List.filter_eq_self]
    exact fun c hc => decide_eq_true (h c hc)
  cases kind with
  | number =>
      rcases hcs with ⟨d, ds, hform, hd, hds⟩
      have hrun : ∀ c ∈ d :: ds, ¬ IsSpace c := List.forall_mem_cons.mpr
        ⟨not_space_of_numeral (.inl hd), fun c hc => not_space_of_numeral (hds c hc)⟩
      rcases hform with rfl | rfl
      · exact hrun
      · exact List.forall_mem_cons.mpr ⟨not_space_of_numeral (.inr rfl), hrun⟩
  | identifier =>
      rcases hcs with ⟨d, ds, rfl, hd, hds⟩
      exact List.forall_mem_cons.mpr
        ⟨not_space_of_letter hd, fun c hc => not_space_of_nameChar (hds c hc)⟩
  | operator =>
      rcases hcs with ⟨c, rfl, hc⟩
      exact List.forall_mem_singleton.mpr (symbol_excludes hc).1
  | unknown =>
      rcases hcs with ⟨c, rfl, hspace, _⟩
      exact List.forall_mem_singleton.mpr hspace
  | call => exact False.elim hcs

theorem visible_append (cs ds : List Char) : visible (cs ++ ds) = visible cs ++ visible ds :=
  List.filter_append cs ds

theorem visible_space {c : Char} (hc : IsSpace c) (cs : List Char) :
    visible (c :: cs) = visible cs :=
  List.filter_cons_of_neg (by simp only [hc, not_true_eq_false, decide_false, Bool.false_eq_true,
    not_false_eq_true])

namespace Segments

/-- The tokens have all of a text but its white space. -/
theorem flatMap_text {cs : List Char} {ts : List Token} (h : Segments cs ts) :
    (ts.flatMap fun t => t.text.toList) = visible cs := by
  induction h with
  | done => rfl
  | space hc _ ih => rw [visible_space hc, ih]
  | token hcs _ _ ih =>
      rw [List.flatMap_cons, ih, String.toList_ofList, visible_append, visible_of_spells hcs]

/-- Every token stands somewhere in the text: the tokens before it have the text before it, and
    those after it segment the text after it, where it ends. -/
theorem exists_place {cs : List Char} {ts pre post : List Token} {t : Token}
    (h : Segments cs ts) (hts : ts = pre ++ t :: post) :
    t.argc = none ∧ ∃ before rest, cs = before ++ (t.text.toList ++ rest) ∧
      (pre.flatMap fun t => t.text.toList) = visible before ∧ Segments rest post ∧
        Spells t.kind t.text.toList ∧ Ends t.kind t.text.toList rest := by
  induction h generalizing pre with
  | done => exact absurd hts.symm (List.append_ne_nil_of_right_ne_nil pre (List.cons_ne_nil t post))
  | @space c rest ts hc _ ih =>
      rcases ih hts with ⟨hargc, before, after, rfl, hbefore, hplace⟩
      exact ⟨hargc, c :: before, after, rfl, by rw [visible_space hc, hbefore], hplace⟩
  | @token kind cs rest ts hcs hends hrest ih =>
      cases pre with
      | nil =>
          rw [List.nil_append, List.cons.injEq] at hts
          rcases hts with ⟨rfl, rfl⟩
          rw [String.toList_ofList]
          exact ⟨rfl, [], rest, rfl, rfl, hrest, hcs, hends⟩
      | cons p pre =>
          rw [List.cons_append, List.cons.injEq] at hts
          rcases hts with ⟨rfl, hts⟩
          rcases ih hts with ⟨hargc, before, after, rfl, hbefore, hplace⟩
          refine ⟨hargc, cs ++ before, after, (List.append_assoc _ _ _).symm, ?_, hplace⟩
          rw [List.flatMap_cons, hbefore, String.toList_ofList, visible_append,
            visible_of_spells hcs]

end Segments

end Scan

open Scan

/-- The tokens of a text are its segmentation, and it has no other. They have all characters of
    the text in their order, except for its white space. Each of them stands somewhere in the
    text, between what is left of it for the tokens before and for those after, is spelled as its
    kind requires, and ends where it ends because what directly follows does not belong to it;
    none is a call or has an argument count. -/
theorem Token.scan_segments (s : String) :
    (∀ ts, Segments s.toList ts ↔ ts = scan s) ∧
      ((scan s).flatMap fun t => t.text.toList) = visible s.toList ∧
      ∀ pre t post, scan s = pre ++ t :: post → t.kind ≠ .call ∧ t.argc = none ∧
        ∃ before rest, s.toList = before ++ (t.text.toList ++ rest) ∧
          (pre.flatMap fun t => t.text.toList) = visible before ∧ Segments rest post ∧
            Spells t.kind t.text.toList ∧ Ends t.kind t.text.toList rest := by
  have hscan : Segments s.toList (scan s) := segments_tokens s.toList
  refine ⟨fun ts => ⟨fun hts => (tokens_eq_of_segments hts).symm, ?_⟩, hscan.flatMap_text, ?_⟩
  · rintro rfl
    exact hscan
  · intro pre t post hts
    rcases hscan.exists_place hts with ⟨hargc, before, rest, hplace⟩
    refine ⟨fun hkind => ?_, hargc, before, rest, hplace⟩
    have hspells : Spells t.kind t.text.toList := hplace.2.2.2.1
    rw [hkind] at hspells
    exact hspells

/-- A number and a name that touch, a lone point, and a point that starts a number. -/
example : (Token.scan "2pi . .5.").map (fun t => (t.kind, t.text)) =
    [(.number, "2"), (.identifier, "pi"), (.unknown, "."), (.number, ".5.")] := by
  cbv

end DeskCalc
