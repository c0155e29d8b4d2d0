import DeskCalc.Proofs.Token.Segmentation

/-!
# Texts Put Together

When the tokens of two texts that are put together are the tokens of the one and then those of
the other.

They are not always. Two rows of digits become one number, and a lone point that gets a digit
behind it is a number from then on. What goes wrong is always that the last token of the first
text does not end where the second begins, so it is enough that a break is on one side of the
place where they meet: white space, an operator, a bracket or a comma. Behind a break no token
can go on, and the only token that a break is itself the last character of is that single
character.

So white space can come and go at any such place. And tokens that are written out one after the
other, with a space between each two of them, are scanned as the tokens that they were. This is
where it matters that a segmentation judges each token by what directly follows it, and not by
what has followed it in the text that it was taken from.

## Main definitions

* `Scan.IsBreak`: White space, operators, brackets and commas.
* `Scan.Parted`: That two texts meet at a break.

## Theorems

* `Scan.Ends.append`: A token that ends in a text ends also when another is put behind it.
* `Scan.Segments.append`: Segmentations of parted texts are put together.
* `Scan.segments_intercalate`: Tokens with spaces between them are a segmentation.
* `Token.scan_parted`: All of this for the scanner.
-/

namespace DeskCalc

namespace Scan

/-! ### Breaks -/

/-- White space, operators, brackets and commas. -/
def IsBreak (c : Char) : Prop := IsSpace c ∨ IsSymbol c

/-- That the first of two texts ends with a break or the second begins with one. Nothing is asked
    of an empty text. -/
def Parted (u v : List Char) : Prop :=
  (∀ c ∈ u.getLast?, IsBreak c) ∨ ∀ c ∈ v.head?, IsBreak c

theorem not_numeral_of_break {c : Char} (hc : IsBreak c) : ¬ IsNumeral c := by
  intro hnumeral
  rcases hc with hspace | hsymbol
  · exact not_space_of_numeral hnumeral hspace
  · exact (symbol_excludes hsymbol).2.1 hnumeral

theorem not_nameChar_of_break {c : Char} (hc : IsBreak c) : ¬ IsNameChar c := by
  intro hname
  rcases hc with hspace | hsymbol
  · exact not_space_of_nameChar hname hspace
  · rcases hname with hletter | hdigit
    · exact (symbol_excludes hsymbol).2.2 hletter
    · exact (symbol_excludes hsymbol).2.1 (.inl hdigit)

-- A token of more than one character is a number or a name, and has no break in it. So a break
-- at the end of a token says that the token is an operator.
theorem not_break_of_spells {kind : TokenKind} {cs : List Char} (hcs : Spells kind cs)
    (hkind : kind ≠ .operator) : ∀ c ∈ cs, ¬ IsBreak c := by
  cases kind with
  | operator => exact absurd rfl hkind
  | call => exact False.elim hcs
  | number =>
      intro c hc hbreak
      refine not_numeral_of_break hbreak ?_
      rcases hcs with ⟨d, ds, rfl | rfl, hd, hds⟩
      · rcases List.mem_cons.mp hc with rfl | hc
        · exact .inl hd
        · exact hds c hc
      · simp only [List.mem_cons] at hc
        rcases hc with rfl | rfl | hc
        · exact .inr rfl
        · exact .inl hd
        · exact hds c hc
  | identifier =>
      intro c hc hbreak
      refine not_nameChar_of_break hbreak ?_
      rcases hcs with ⟨d, ds, rfl, hd, hds⟩
      rcases List.mem_cons.mp hc with rfl | hc
      · exact .inl hd
      · exact hds c hc
  | unknown =>
      intro c hc hbreak
      rcases hcs with ⟨d, rfl, hspace, _, _, hsymbol⟩
      rw [List.mem_singleton.mp hc] at hbreak
      exact hbreak.elim hspace hsymbol

theorem ne_nil_of_spells {kind : TokenKind} {cs : List Char} (hcs : Spells kind cs) : cs ≠ [] := by
  cases kind with
  | call => exact False.elim hcs
  | number => rcases hcs with ⟨d, ds, rfl | rfl, _⟩ <;> exact List.cons_ne_nil _ _
  | identifier =>
      rcases hcs with ⟨d, ds, rfl, _⟩
      exact List.cons_ne_nil d ds
  | operator =>
      rcases hcs with ⟨c, rfl, _⟩
      exact List.cons_ne_nil c []
  | unknown =>
      rcases hcs with ⟨c, rfl, _⟩
      exact List.cons_ne_nil c []

/-! ### Where a token ends -/

/-- Every token ends before a break. -/
theorem ends_of_break (kind : TokenKind) (cs : List Char) {rest : List Char}
    (hrest : ∀ c ∈ rest.head?, IsBreak c) : Ends kind cs rest := by
  cases kind with
  | number => exact fun c hc => not_numeral_of_break (hrest c hc)
  | identifier => exact fun c hc => not_nameChar_of_break (hrest c hc)
  | unknown => exact fun _ c hc hdigit => not_numeral_of_break (hrest c hc) (.inl hdigit)
  | operator => trivial
  | call => trivial

/-- A token that ends in a text ends also when another text is put behind it, if the two are
    parted. -/
theorem Ends.append {kind : TokenKind} {cs rest v : List Char} (hcs : Spells kind cs)
    (h : Ends kind cs rest) (hparted : Parted (cs ++ rest) v) : Ends kind cs (rest ++ v) := by
  match rest with
  | c :: rest =>
      -- Whether it ends is seen from the first character behind it, which is the same.
      cases kind <;> exact h
  | [] =>
      -- The token is the last of its text, so it is this token that has to end before the other.
      rw [List.append_nil] at hparted
      rw [List.nil_append]
      rcases hparted with hlast | hhead
      · by_cases hkind : kind = .operator
        · subst hkind
          trivial
        · have hmem := List.getLast_mem (ne_nil_of_spells hcs)
          have hbreak := hlast _ (List.getLast?_eq_some_getLast (ne_nil_of_spells hcs))
          exact absurd hbreak (not_break_of_spells hcs hkind _ hmem)
      · exact ends_of_break kind cs hhead

/-- What is parted from a text is parted from the end of it. -/
theorem Parted.of_append {cs rest v : List Char} (h : Parted (cs ++ rest) v) : Parted rest v := by
  refine h.imp_left fun hlast c hc => hlast c ?_
  rw [List.getLast?_append, Option.mem_def.mp hc, Option.some_or]
  rfl

/-! ### Segmentations put together -/

/-- Segmentations of parted texts are put together. -/
theorem Segments.append {u v : List Char} {ts us : List Token} (hu : Segments u ts)
    (hv : Segments v us) (hparted : Parted u v) : Segments (u ++ v) (ts ++ us) := by
  induction hu with
  | done => exact hv
  | @space c rest ts hc _ ih =>
      rw [← List.singleton_append] at hparted
      exact .space hc (ih hparted.of_append)
  | token hcs hends _ ih =>
      rw [List.append_assoc]
      exact .token hcs (hends.append hcs hparted) (ih hparted.of_append)

theorem segments_blank {w : List Char} (hw : ∀ c ∈ w, IsSpace c) : Segments w [] := by
  induction w with
  | nil => exact .done
  | cons c w ih =>
      rcases List.forall_mem_cons.mp hw with ⟨hc, hw⟩
      exact .space hc (ih hw)

/-- White space where two texts are parted does not change their tokens. -/
theorem Segments.insert {u w v : List Char} {ts us : List Token} (hu : Segments u ts)
    (hv : Segments v us) (hw : ∀ c ∈ w, IsSpace c) (hparted : Parted u v) :
    Segments (u ++ (w ++ v)) (ts ++ us) := by
  match w with
  | [] => exact hu.append hv hparted
  | c :: w =>
      -- Both ends of the white space are breaks.
      have hfront : Parted u (c :: (w ++ v)) := by
        refine .inr fun d hd => ?_
        rw [List.head?_cons, Option.mem_some_iff] at hd
        exact .inl (hw d (hd ▸ List.mem_cons_self))
      have hback : Parted (c :: w) v :=
        .inl fun d hd => .inl (hw d (List.mem_of_getLast? hd))
      exact hu.append ((segments_blank hw).append hv hback) hfront

/-- Every token of a segmentation is spelled as its kind requires. -/
theorem Segments.spells {cs : List Char} {ts : List Token} (h : Segments cs ts) :
    ∀ t ∈ ts, t.argc = none ∧ Spells t.kind t.text.toList := by
  induction h with
  | done => exact fun t ht => absurd ht List.not_mem_nil
  | space _ _ ih => exact ih
  | token hcs _ _ ih =>
      refine List.forall_mem_cons.mpr ⟨⟨rfl, ?_⟩, ih⟩
      rwa [String.toList_ofList]

-- The token is put together again from its parts.
theorem Segments.cons {t : Token} {rest : List Char} {ts : List Token} (hargc : t.argc = none)
    (ht : Spells t.kind t.text.toList) (hends : Ends t.kind t.text.toList rest)
    (hrest : Segments rest ts) : Segments (t.text.toList ++ rest) (t :: ts) := by
  have h := Segments.token ht hends hrest
  rw [String.ofList_toList, ← hargc] at h
  exact h

/-- Tokens that are written out with a space between each two of them are a segmentation. -/
theorem segments_intercalate {ts : List Token}
    (hts : ∀ t ∈ ts, t.argc = none ∧ Spells t.kind t.text.toList) :
    Segments ([' '].intercalate (ts.map fun t => t.text.toList)) ts := by
  induction ts with
  | nil => exact .done
  | cons t ts ih =>
      rcases List.forall_mem_cons.mp hts with ⟨⟨hargc, ht⟩, hts⟩
      have hspace : IsSpace ' ' := by decide
      cases ts with
      | nil =>
          have hends : Ends t.kind t.text.toList [] := ends_of_break _ _ fun c hc => nomatch hc
          have hlast := Segments.cons hargc ht hends .done
          rw [List.append_nil] at hlast
          rwa [List.map_singleton, List.intercalate_singleton]
      | cons u ts =>
          rw [List.map_cons, List.map_cons, List.intercalate_cons_cons, List.append_assoc]
          refine .cons hargc ht (ends_of_break _ _ fun c hc => ?_) (.space hspace (ih hts))
          rw [List.singleton_append, List.head?_cons, Option.mem_some_iff] at hc
          exact hc ▸ .inl hspace

end Scan

open Scan

/-- The tokens of two texts that meet at a break are those of the first and then those of the
    second, and white space put in there changes nothing. The tokens of any text, written out
    with a space between each two of them, are scanned as the same tokens. -/
theorem Token.scan_parted (u v : String) :
    (Parted u.toList v.toList → scan (u ++ v) = scan u ++ scan v ∧
      ∀ w : String, (∀ c ∈ w.toList, IsSpace c) → scan (u ++ w ++ v) = scan (u ++ v)) ∧
      scan (" ".intercalate ((scan u).map Token.text)) = scan u := by
  have hu : Segments u.toList (scan u) := segments_tokens u.toList
  have hv : Segments v.toList (scan v) := segments_tokens v.toList
  constructor
  · intro hparted
    have hjoined : scan (u ++ v) = scan u ++ scan v := by
      rw [scan, String.toList_append]
      exact tokens_eq_of_segments (hu.append hv hparted)
    refine ⟨hjoined, fun w hw => ?_⟩
    rw [hjoined, scan, String.toList_append, String.toList_append, List.append_assoc]
    exact tokens_eq_of_segments (hu.insert hv hw hparted)
  · have hwritten := segments_intercalate hu.spells
    rw [scan, String.toList_intercalate, List.map_map]
    exact tokens_eq_of_segments hwritten

/-- A number goes on behind another, but not behind an operator, with white space or without. A
    lone point is kept apart from the number behind it. -/
theorem Token.scan_parted_lonePoint :
    scan ("2*" ++ ".5 . 1") = scan "2*" ++ scan ".5 . 1" ∧
      scan ("2*" ++ " \t" ++ ".5 . 1") = scan ("2*" ++ ".5 . 1") ∧
      scan (" ".intercalate ((scan ".5 . 1").map Token.text)) = scan ".5 . 1" ∧
      scan ("2" ++ ".5 . 1") ≠ scan "2" ++ scan ".5 . 1" := by
  have hparted : Parted "2*".toList ".5 . 1".toList := by
    refine .inl fun c hc => .inr ?_
    rw [Option.mem_def] at hc
    have hlast : "2*".toList.getLast? = some '*' := by decide
    rw [hlast, Option.some.injEq] at hc
    rw [← hc]
    exact (isSymbol_iff '*').mp (by decide)
  have hspaces : ∀ c ∈ " \t".toList, IsSpace c := by
    have hlist : " \t".toList = [' ', '\t'] := by decide
    rw [hlist]
    exact List.forall_mem_cons.mpr ⟨by decide, List.forall_mem_singleton.mpr (by decide)⟩
  rcases (scan_parted "2*" ".5 . 1").1 hparted with ⟨hjoined, hinserted⟩
  refine ⟨hjoined, hinserted " \t" hspaces, (scan_parted ".5 . 1" "").2, ?_⟩
  intro hsame
  have hlength := congrArg List.length hsame
  have htogether : (scan ("2" ++ ".5 . 1")).length = 3 := by cbv
  have hapart : (scan "2" ++ scan ".5 . 1").length = 4 := by cbv
  omega

end DeskCalc
