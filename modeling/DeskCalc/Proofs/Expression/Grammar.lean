import DeskCalc.Proofs.Expression.Tree

/-!
# The Infix Grammar

How expressions are written. There is one type for each strength of binding, so that a phrase
can stand only where it may stand without brackets, and the tree that was meant is read off
the phrase without any talk of precedence.

A sum leans to the left, and so does a product; a power leans to the right. A factor is an atom
with signs before it and factorials after it, and the signs are applied first. One sign is all
that the calculator promises to understand, but the grammar allows any number, since what
happens to the others is worth knowing. `Sum.SignedOnce` singles out the phrases in which no
atom has more than one.

The signs that follow another sign go astray: they are applied to whatever operand comes before
them, if there is one. So a phrase also has a second tree, the one that it is taken for. A sign
at the left edge of a phrase finds no operand there and has to look further to the left, which
is why the reading of a phrase comes with the number of its signs that do.

## Main definitions

* `Symbol.token`: The token of a bracket, a comma or an operator.
* `SumOperator`, `ProductOperator`: The operators of sums and of products.
* `Infix.Sum`, `Infix.Product`, `Infix.Power`, `Infix.Factor`, `Infix.Atom`, `Infix.Arguments`:
  The phrases.
* `Infix.Sum.spell`: The tokens of a phrase.
* `Infix.Sum.tree`: The expression that a phrase means.
* `Infix.Sum.SignedOnce`: No atom has more than one sign.
* `Infix.Sum.reading`, `Infix.Sum.surplus`: The expression that a phrase is taken for, and the
  signs that are left for what comes before it.

## Theorems

* `Infix.Sum.surplus_eq_zero`: One sign for each atom leaves none over.
* `Infix.Sum.reading_eq_tree`: Such a phrase is taken for what it means.
* `Infix.Arguments.length_readings`: No argument is lost.
-/

namespace DeskCalc

/-- The token of a bracket, a comma or an operator. -/
def Symbol.token (s : Symbol) : Token := .operator s.text

/-- The operators of a sum. -/
inductive SumOperator where
  /-- A sum. -/
  | plus
  /-- A difference. -/
  | minus
  deriving DecidableEq, Repr

/-- The operator between its operands. -/
def SumOperator.toDyad : SumOperator → Dyad
  | .plus => .plus
  | .minus => .minus

/-- The operators of a product. -/
inductive ProductOperator where
  /-- A product. -/
  | times
  /-- A quotient. -/
  | divide
  /-- The remainder of a quotient. -/
  | remainder
  deriving DecidableEq, Repr

/-- The operator between its operands. -/
def ProductOperator.toDyad : ProductOperator → Dyad
  | .times => .times
  | .divide => .divide
  | .remainder => .remainder

namespace Infix

mutual

/-- Products, added and subtracted. -/
inductive Sum where
  /-- A product alone. -/
  | one (p : Product)
  /-- A sum, and one more product. -/
  | more (s : Sum) (op : SumOperator) (p : Product)

/-- Powers, multiplied and divided. -/
inductive Product where
  /-- A power alone. -/
  | one (p : Power)
  /-- A product, and one more power. -/
  | more (p : Product) (op : ProductOperator) (q : Power)

/-- Factors, each raised to what follows it. -/
inductive Power where
  /-- A factor alone. -/
  | one (f : Factor)
  /-- A factor raised to a power. -/
  | raised (f : Factor) (p : Power)

/-- An atom, with signs before it and factorials after it. -/
inductive Factor where
  /-- So many signs, the atom, and so many factorials. -/
  | mk (signs : Nat) (a : Atom) (factorials : Nat)

/-- What needs no brackets to be an operand. -/
inductive Atom where
  /-- A number. -/
  | number (text : String)
  /-- The name of a constant. -/
  | constant (name : String)
  /-- A sum in brackets. -/
  | group (s : Sum)
  /-- A function and its arguments. -/
  | call (name : String) (arguments : Arguments)

/-- At least one sum, with commas between them. -/
inductive Arguments where
  /-- The last argument. -/
  | one (s : Sum)
  /-- An argument before the rest. -/
  | more (s : Sum) (rest : Arguments)

end

/-! ### Spelling -/

mutual

/-- The tokens of a sum. -/
def Sum.spell : Sum → List Token
  | .one p => p.spell
  | .more s op p => s.spell ++ op.toDyad.toOperator.token :: p.spell

/-- The tokens of a product. -/
def Product.spell : Product → List Token
  | .one p => p.spell
  | .more p op q => p.spell ++ op.toDyad.toOperator.token :: q.spell

/-- The tokens of a power. -/
def Power.spell : Power → List Token
  | .one f => f.spell
  | .raised f p => f.spell ++ Operator.power.token :: p.spell

/-- The tokens of a factor. -/
def Factor.spell : Factor → List Token
  | .mk signs a factorials => List.replicate signs Operator.minus.token ++ a.spell ++
      List.replicate factorials Operator.factorial.token

/-- The tokens of an atom. -/
def Atom.spell : Atom → List Token
  | .number text => [.number text]
  | .constant name => [.identifier name]
  | .group s => Symbol.opening.token :: s.spell ++ [Symbol.closing.token]
  | .call name args =>
    .identifier name :: Symbol.opening.token :: args.spell ++ [Symbol.closing.token]

/-- The tokens of a list of arguments. -/
def Arguments.spell : Arguments → List Token
  | .one s => s.spell
  | .more s rest => s.spell ++ Symbol.comma.token :: rest.spell

end

/-! ### Meaning -/

mutual

/-- The expression that a sum means. -/
def Sum.tree : Sum → Tree
  | .one p => p.tree
  | .more s op p => .binary op.toDyad s.tree p.tree

/-- The expression that a product means. -/
def Product.tree : Product → Tree
  | .one p => p.tree
  | .more p op q => .binary op.toDyad p.tree q.tree

/-- The expression that a power means. -/
def Power.tree : Power → Tree
  | .one f => f.tree
  | .raised f p => .binary .power f.tree p.tree

/-- The expression that a factor means: the signs belong to the atom, and the factorials are
    taken of both. -/
def Factor.tree : Factor → Tree
  | .mk signs a factorials => (a.tree.negated signs).factorials factorials

/-- The expression that an atom means. -/
def Atom.tree : Atom → Tree
  | .number text => .number text
  | .constant name => .constant name
  | .group s => s.tree
  | .call name args => .call name args.trees

/-- The expressions that the arguments mean. -/
def Arguments.trees : Arguments → Trees
  | .one s => .one s.tree
  | .more s rest => .more s.tree rest.trees

end

mutual

/-- No atom of a sum has more than one sign. -/
def Sum.SignedOnce : Sum → Prop
  | .one p => p.SignedOnce
  | .more s _ p => s.SignedOnce ∧ p.SignedOnce

/-- No atom of a product has more than one sign. -/
def Product.SignedOnce : Product → Prop
  | .one p => p.SignedOnce
  | .more p _ q => p.SignedOnce ∧ q.SignedOnce

/-- No atom of a power has more than one sign. -/
def Power.SignedOnce : Power → Prop
  | .one f => f.SignedOnce
  | .raised f p => f.SignedOnce ∧ p.SignedOnce

/-- The atom has at most one sign, and so have those in it. -/
def Factor.SignedOnce : Factor → Prop
  | .mk signs a _ => signs ≤ 1 ∧ a.SignedOnce

/-- No atom inside an atom has more than one sign. -/
def Atom.SignedOnce : Atom → Prop
  | .number _ => True
  | .constant _ => True
  | .group s => s.SignedOnce
  | .call _ args => args.SignedOnce

/-- No atom of the arguments has more than one sign. -/
def Arguments.SignedOnce : Arguments → Prop
  | .one s => s.SignedOnce
  | .more s rest => s.SignedOnce ∧ rest.SignedOnce

end

/-! ### Reading -/

mutual

/-- The signs at the left edge of a sum that find no operand in it. -/
def Sum.surplus : Sum → Nat
  | .one p => p.surplus
  | .more s _ _ => s.surplus

/-- The signs at the left edge of a product that find no operand in it. -/
def Product.surplus : Product → Nat
  | .one p => p.surplus
  | .more p _ _ => p.surplus

/-- The signs at the left edge of a power that find no operand in it. -/
def Power.surplus : Power → Nat
  | .one f => f.surplus
  | .raised f _ => f.surplus

/-- All signs of a factor but one, and those that its atom has left over. -/
def Factor.surplus : Factor → Nat
  | .mk signs a _ => signs - 1 + a.surplus

/-- The signs at the left edge of an atom that find no operand in it, brackets or not. -/
def Atom.surplus : Atom → Nat
  | .number _ => 0
  | .constant _ => 0
  | .group s => s.surplus
  | .call _ args => args.surplus

/-- The signs at the left edge of the first argument. -/
def Arguments.surplus : Arguments → Nat
  | .one s => s.surplus
  | .more s _ => s.surplus

end

mutual

/-- The expression that a sum is taken for. What its last product has left over is applied to
    the sum before it. -/
def Sum.reading : Sum → Tree
  | .one p => p.reading
  | .more s op p => .binary op.toDyad (s.reading.negated p.surplus) p.reading

/-- The expression that a product is taken for. -/
def Product.reading : Product → Tree
  | .one p => p.reading
  | .more p op q => .binary op.toDyad (p.reading.negated q.surplus) q.reading

/-- The expression that a power is taken for. -/
def Power.reading : Power → Tree
  | .one f => f.reading
  | .raised f p => .binary .power (f.reading.negated p.surplus) p.reading

/-- The expression that a factor is taken for, which keeps one sign if there is any. -/
def Factor.reading : Factor → Tree
  | .mk signs a factorials => (a.reading.negated (min signs 1)).factorials factorials

/-- The expression that an atom is taken for. -/
def Atom.reading : Atom → Tree
  | .number text => .number text
  | .constant name => .constant name
  | .group s => s.reading
  | .call name args => .call name args.readings

/-- The expressions that the arguments are taken for. What an argument has left over is applied
    to the argument before it. -/
def Arguments.readings : Arguments → Trees
  | .one s => .one s.reading
  | .more s rest => .more (s.reading.negated rest.surplus) rest.readings

end

/-! ### One sign for each atom -/

mutual

/-- One sign for each atom leaves none over. -/
theorem Sum.surplus_eq_zero (s : Sum) (h : s.SignedOnce) : s.surplus = 0 := by
  match s with
  | .one p => exact p.surplus_eq_zero h
  | .more s _ _ => exact s.surplus_eq_zero h.1

theorem Product.surplus_eq_zero (p : Product) (h : p.SignedOnce) : p.surplus = 0 := by
  match p with
  | .one p => exact p.surplus_eq_zero h
  | .more p _ _ => exact p.surplus_eq_zero h.1

theorem Power.surplus_eq_zero (p : Power) (h : p.SignedOnce) : p.surplus = 0 := by
  match p with
  | .one f => exact f.surplus_eq_zero h
  | .raised f _ => exact f.surplus_eq_zero h.1

theorem Factor.surplus_eq_zero (f : Factor) (h : f.SignedOnce) : f.surplus = 0 := by
  match f with
  | .mk signs a _ =>
      have hatom := a.surplus_eq_zero h.2
      have hsigns : signs ≤ 1 := h.1
      rw [Factor.surplus, hatom]
      omega

theorem Atom.surplus_eq_zero (a : Atom) (h : a.SignedOnce) : a.surplus = 0 := by
  match a with
  | .number _ => rfl
  | .constant _ => rfl
  | .group s => exact s.surplus_eq_zero h
  | .call _ args => exact args.surplus_eq_zero h

theorem Arguments.surplus_eq_zero (args : Arguments) (h : args.SignedOnce) :
    args.surplus = 0 := by
  match args with
  | .one s => exact s.surplus_eq_zero h
  | .more s _ => exact s.surplus_eq_zero h.1

end

mutual

/-- With one sign for each atom, a phrase is taken for what it means. -/
theorem Sum.reading_eq_tree (s : Sum) (h : s.SignedOnce) : s.reading = s.tree := by
  match s with
  | .one p => exact p.reading_eq_tree h
  | .more s op p =>
      -- The right operand has no sign to give to the left one.
      rw [Sum.reading, Sum.tree, p.surplus_eq_zero h.2, Tree.negated, s.reading_eq_tree h.1,
        p.reading_eq_tree h.2]

theorem Product.reading_eq_tree (p : Product) (h : p.SignedOnce) : p.reading = p.tree := by
  match p with
  | .one p => exact p.reading_eq_tree h
  | .more p op q =>
      rw [Product.reading, Product.tree, q.surplus_eq_zero h.2, Tree.negated,
        p.reading_eq_tree h.1, q.reading_eq_tree h.2]

theorem Power.reading_eq_tree (p : Power) (h : p.SignedOnce) : p.reading = p.tree := by
  match p with
  | .one f => exact f.reading_eq_tree h
  | .raised f p =>
      rw [Power.reading, Power.tree, p.surplus_eq_zero h.2, Tree.negated,
        f.reading_eq_tree h.1, p.reading_eq_tree h.2]

theorem Factor.reading_eq_tree (f : Factor) (h : f.SignedOnce) : f.reading = f.tree := by
  match f with
  | .mk signs a _ =>
      have hsigns : signs ≤ 1 := h.1
      rw [Factor.reading, Factor.tree, a.reading_eq_tree h.2, Nat.min_eq_left hsigns]

theorem Atom.reading_eq_tree (a : Atom) (h : a.SignedOnce) : a.reading = a.tree := by
  match a with
  | .number _ => rfl
  | .constant _ => rfl
  | .group s => exact s.reading_eq_tree h
  | .call _ args => rw [Atom.reading, Atom.tree, args.readings_eq_trees h]

theorem Arguments.readings_eq_trees (args : Arguments) (h : args.SignedOnce) :
    args.readings = args.trees := by
  match args with
  | .one s => rw [Arguments.readings, Arguments.trees, s.reading_eq_tree h]
  | .more s rest =>
      rw [Arguments.readings, Arguments.trees, rest.surplus_eq_zero h.2, Tree.negated,
        s.reading_eq_tree h.1, rest.readings_eq_trees h.2]

end

/-- How many arguments there are. -/
def Arguments.length : Arguments → Nat
  | .one _ => 1
  | .more _ rest => rest.length + 1

/-- There is at least one argument. -/
theorem Arguments.length_pos (args : Arguments) : 0 < args.length := by
  match args with
  | .one _ => exact Nat.one_pos
  | .more _ _ => exact Nat.succ_pos _

/-- No argument is lost. -/
theorem Arguments.length_readings (args : Arguments) : args.readings.length = args.length := by
  match args with
  | .one s => rfl
  | .more s rest =>
      rw [Arguments.readings, Trees.length, rest.length_readings, Arguments.length]

end Infix

end DeskCalc
