import DeskCalc.Evaluation
import DeskCalc.Proofs.Expression.Conversion
import DeskCalc.Proofs.Expression.Value

/-!
# Repeated Signs

What the calculator makes of several signs in a row.

A sign leans to the left like most operators, so a second one makes the first leave before its
operand has come. The machine then applies it to whatever value was pushed last: the left
operand of the operator that is still waiting, or the argument before the current one, however
many brackets lie in between. Only when there is no such value, because the signs stand at the
very left of the whole expression, does the machine notice that something is missing. So `--3`
fails, while `2---3` is read as `(-2)-(-3)`.

`Infix.Sum.reading` says where each sign ends up. No sign disappears on the way, which is why a
phrase can be taken for what it means only if every sign stayed with its atom
(`Infix.Sum.reading_eq_tree_iff`).

## Main definitions

* `Infix.Sum.doubleSigned`: The phrase `2---3`.

## Theorems

* `Infix.Sum.negations_tree`: No sign is lost by going astray.
* `Infix.Sum.reading_eq_tree_iff`: A phrase is taken for what it means, with no sign left over,
  exactly when no atom has more than one sign.
* `Tree.evaluate_signedPostorder`: Signs without an operand stop the machine.
* `Expression.value_of_signs`: The value of a text with any number of signs.
* `Expression.value_doubleSigned_ne`: Two signs in a row may give the value of something else.
-/

namespace DeskCalc

/-! ### Where signs end up -/

namespace Tree

/-- A tree that holds no more signs than before was given none. -/
theorem eq_of_negated_eq {n k : Nat} {l t : Tree} (h : l.negated n = t)
    (hcount : t.negations = l.negations + k) (hk : k = 0) : n = 0 ∧ l = t := by
  -- Were it given any, it would hold as many more.
  have hn : n = 0 := by
    rw [← h, negations_negated] at hcount
    omega
  rw [hn, negated] at h
  exact ⟨hn, h⟩

/-- Signs can be taken off again. -/
theorem eq_of_negated_eq_negated (n : Nat) {l t : Tree} (h : l.negated n = t.negated n) :
    l = t := by
  induction n with
  | zero => exact h
  | succ n ih =>
      rw [negated, negated, negate.injEq] at h
      exact ih h

/-- Factorials can be taken off again. -/
theorem eq_of_factorials_eq (n : Nat) {l t : Tree} (h : l.factorials n = t.factorials n) :
    l = t := by
  induction n with
  | zero => exact h
  | succ n ih =>
      rw [factorials, factorials, factorial.injEq] at h
      exact ih h

end Tree

namespace Infix

mutual

/-- No sign is lost by going astray: those that a phrase means are those that it is taken to
    have and those that it leaves over. -/
theorem Sum.negations_tree (s : Sum) :
    s.tree.negations = s.reading.negations + s.surplus := by
  match s with
  | .one p => exact p.negations_tree
  | .more s op p =>
      -- What the right operand leaves over, the left one is given.
      have hs := s.negations_tree
      have hp := p.negations_tree
      rw [Sum.tree, Sum.reading, Sum.surplus, Tree.negations, Tree.negations,
        Tree.negations_negated]
      omega

theorem Product.negations_tree (p : Product) :
    p.tree.negations = p.reading.negations + p.surplus := by
  match p with
  | .one p => exact p.negations_tree
  | .more p op q =>
      have hp := p.negations_tree
      have hq := q.negations_tree
      rw [Product.tree, Product.reading, Product.surplus, Tree.negations, Tree.negations,
        Tree.negations_negated]
      omega

theorem Power.negations_tree (p : Power) :
    p.tree.negations = p.reading.negations + p.surplus := by
  match p with
  | .one f => exact f.negations_tree
  | .raised f p =>
      have hf := f.negations_tree
      have hp := p.negations_tree
      rw [Power.tree, Power.reading, Power.surplus, Tree.negations, Tree.negations,
        Tree.negations_negated]
      omega

theorem Factor.negations_tree (f : Factor) :
    f.tree.negations = f.reading.negations + f.surplus := by
  match f with
  | .mk signs a factorials =>
      -- The atom keeps one sign if there is any, and the others join those it leaves over.
      have ha := a.negations_tree
      rw [Factor.tree, Factor.reading, Factor.surplus, Tree.negations_factorials,
        Tree.negations_factorials, Tree.negations_negated, Tree.negations_negated]
      omega

theorem Atom.negations_tree (a : Atom) :
    a.tree.negations = a.reading.negations + a.surplus := by
  match a with
  | .number _ => rfl
  | .constant _ => rfl
  | .group s => exact s.negations_tree
  | .call _ args => exact args.negations_trees

theorem Arguments.negations_trees (args : Arguments) :
    args.trees.negations = args.readings.negations + args.surplus := by
  match args with
  | .one s => exact s.negations_tree
  | .more s rest =>
      have hs := s.negations_tree
      have hrest := rest.negations_trees
      rw [Arguments.trees, Arguments.readings, Arguments.surplus, Trees.negations,
        Trees.negations, Tree.negations_negated]
      omega

end

mutual

/-- A phrase that is taken for what it means, with no sign left over, has at most one sign for
    each atom. -/
theorem Sum.signedOnce_of_reading_eq (s : Sum) (hsurplus : s.surplus = 0)
    (h : s.reading = s.tree) : s.SignedOnce := by
  match s with
  | .one p => exact p.signedOnce_of_reading_eq hsurplus h
  | .more s op p =>
      rw [Sum.surplus] at hsurplus
      rw [Sum.reading, Sum.tree, Tree.binary.injEq] at h
      -- The left operand has all its own signs already, so it was given no others.
      rcases Tree.eq_of_negated_eq h.2.1 s.negations_tree hsurplus with ⟨hp, hs⟩
      exact ⟨s.signedOnce_of_reading_eq hsurplus hs, p.signedOnce_of_reading_eq hp h.2.2⟩

theorem Product.signedOnce_of_reading_eq (p : Product) (hsurplus : p.surplus = 0)
    (h : p.reading = p.tree) : p.SignedOnce := by
  match p with
  | .one p => exact p.signedOnce_of_reading_eq hsurplus h
  | .more p op q =>
      rw [Product.surplus] at hsurplus
      rw [Product.reading, Product.tree, Tree.binary.injEq] at h
      rcases Tree.eq_of_negated_eq h.2.1 p.negations_tree hsurplus with ⟨hq, hp⟩
      exact ⟨p.signedOnce_of_reading_eq hsurplus hp, q.signedOnce_of_reading_eq hq h.2.2⟩

theorem Power.signedOnce_of_reading_eq (p : Power) (hsurplus : p.surplus = 0)
    (h : p.reading = p.tree) : p.SignedOnce := by
  match p with
  | .one f => exact f.signedOnce_of_reading_eq hsurplus h
  | .raised f p =>
      rw [Power.surplus] at hsurplus
      rw [Power.reading, Power.tree, Tree.binary.injEq] at h
      rcases Tree.eq_of_negated_eq h.2.1 f.negations_tree hsurplus with ⟨hp, hf⟩
      exact ⟨f.signedOnce_of_reading_eq hsurplus hf, p.signedOnce_of_reading_eq hp h.2.2⟩

theorem Factor.signedOnce_of_reading_eq (f : Factor) (hsurplus : f.surplus = 0)
    (h : f.reading = f.tree) : f.SignedOnce := by
  match f with
  | .mk signs a factorials =>
      -- With none left over there was one sign at most, and the atom kept it.
      rw [Factor.surplus] at hsurplus
      have hsigns : signs ≤ 1 := by omega
      rw [Factor.reading, Factor.tree, Nat.min_eq_left hsigns] at h
      have hatom := Tree.eq_of_negated_eq_negated signs (Tree.eq_of_factorials_eq factorials h)
      exact ⟨hsigns, a.signedOnce_of_reading_eq (by omega) hatom⟩

theorem Atom.signedOnce_of_reading_eq (a : Atom) (hsurplus : a.surplus = 0)
    (h : a.reading = a.tree) : a.SignedOnce := by
  match a with
  | .number _ => trivial
  | .constant _ => trivial
  | .group s => exact s.signedOnce_of_reading_eq hsurplus h
  | .call name args =>
      rw [Atom.reading, Atom.tree, Tree.call.injEq] at h
      exact args.signedOnce_of_readings_eq hsurplus h.2

theorem Arguments.signedOnce_of_readings_eq (args : Arguments) (hsurplus : args.surplus = 0)
    (h : args.readings = args.trees) : args.SignedOnce := by
  match args with
  | .one s =>
      rw [Arguments.readings, Arguments.trees, Trees.one.injEq] at h
      exact s.signedOnce_of_reading_eq hsurplus h
  | .more s rest =>
      rw [Arguments.surplus] at hsurplus
      rw [Arguments.readings, Arguments.trees, Trees.more.injEq] at h
      rcases Tree.eq_of_negated_eq h.1 s.negations_tree hsurplus with ⟨hrest, hs⟩
      exact ⟨s.signedOnce_of_reading_eq hsurplus hs,
        rest.signedOnce_of_readings_eq hrest h.2⟩

end

/-- A phrase is taken for what it means, with no sign left over, exactly when no atom has more
    than one sign. -/
theorem Sum.reading_eq_tree_iff (s : Sum) :
    s.surplus = 0 ∧ s.reading = s.tree ↔ s.SignedOnce := by
  constructor
  · rintro ⟨hsurplus, h⟩
    exact s.signedOnce_of_reading_eq hsurplus h
  · intro h
    exact ⟨s.surplus_eq_zero h, s.reading_eq_tree h⟩

/-- The phrase `2---3`: a difference, and a number with two signs. -/
def Sum.doubleSigned : Sum :=
  .more (.one (.one (.one (.mk 0 (.number "2") 0)))) .minus (.one (.one (.mk 2 (.number "3") 0)))

end Infix

/-! ### What the machine makes of it -/

/-- Signs without an operand stop the machine before it has computed anything. -/
theorem Tree.evaluate_signedPostorder (ar : Arithmetic) (mode : AngleMode) (n : Nat) (t : Tree) :
    Postfix.evaluate ar mode (t.signedPostorder n) =
      if n = 0 then t.value ar mode else .error .missingOperand := by
  cases n with
  | zero =>
      rw [signedPostorder, List.replicate_zero, List.nil_append, if_pos rfl, value,
        Postfix.evaluate, t.executeAll_postorder]
      cases t.compute ar mode <;> rfl
  | succ n =>
      rw [signedPostorder, List.replicate_succ, if_neg (Nat.succ_ne_zero n)]
      rfl

namespace Expression

open Infix

/-- The value of a text that spells a phrase with any number of signs. The phrase has the value
    of the expression that it is taken for, in which every sign but the last of a row is applied
    to what was computed before the row, or it fails for want of an operand if nothing was. It is
    taken for what it means exactly when no atom has more than one sign. -/
theorem value_of_signs (ar : Arithmetic) (s : Sum) (text : String) (mode : AngleMode)
    (htext : Token.scan text = s.spell) :
    value ar mode text = (if s.surplus = 0 then (s.reading.value ar mode).mapError .fault
        else .error (.fault .missingOperand)) ∧
      (s.SignedOnce → value ar mode text = (s.tree.value ar mode).mapError .fault) ∧
      (s.surplus = 0 ∧ s.reading = s.tree ↔ s.SignedOnce) := by
  -- The output is that of the reading after the signs left over, and any of these stops it.
  have hvalue : value ar mode text =
      (if s.surplus = 0 then (s.reading.value ar mode).mapError .fault
        else .error (.fault .missingOperand)) := by
    rw [value, toPostfix, htext, s.ofTokens_spell]
    simp only [bind, Except.bind]
    rw [Tree.evaluate_signedPostorder]
    by_cases hs : s.surplus = 0
    · rw [if_pos hs, if_pos hs]
    · rw [if_neg hs, if_neg hs]
      rfl
  refine ⟨hvalue, fun h => ?_, s.reading_eq_tree_iff⟩
  rw [hvalue, if_pos (s.surplus_eq_zero h), s.reading_eq_tree h]

/-- The text of the phrase. -/
theorem scan_doubleSigned : Token.scan "2---3" = Sum.doubleSigned.spell := by
  cbv

/-- The second of two signs stays with its operand, and the first is applied to what came before
    the operator. -/
theorem value_of_signs_doubleSigned :
    Token.scan "2---3" = Sum.doubleSigned.spell ∧
      value .standard .degrees "2---3" = ((Tree.binary .minus (.negate (.number "2"))
        (.negate (.number "3"))).value .standard .degrees).mapError .fault :=
  ⟨scan_doubleSigned, (value_of_signs .standard Sum.doubleSigned "2---3" .degrees
    scan_doubleSigned).1⟩

/-- That is not what the phrase means: its value is one, and two less the number three with its
    sign changed twice is minus one. -/
theorem value_doubleSigned_ne :
    Token.scan "2---3" = Sum.doubleSigned.spell ∧
      (value .standard .degrees "2---3").toOption = some .one ∧
      (Sum.doubleSigned.tree.value .standard .degrees).toOption = some (.ofInt (-1)) ∧
      Binary64.one ≠ .ofInt (-1) :=
  ⟨scan_doubleSigned, by decide +kernel, by decide +kernel, by decide +kernel⟩

end Expression

end DeskCalc
