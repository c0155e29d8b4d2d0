import DeskCalc.Operator.Application
import DeskCalc.Token

/-!
# Expression Trees

An expression without its spelling: what is applied to what. Brackets, precedence and the two
meanings of the minus sign are gone, since the shape of the tree says all that they say.

The tree is what the two halves of the calculator have in common. Conversion is right when its
output is the postorder of the tree that was meant, and the machine is right when its result
on a postorder is the value of the tree. Neither half needs to know about the other.

A call takes at least one argument, which is built into the type of argument lists.

## Main definitions

* `Dyad`: The operators between two operands.
* `Tree`, `Trees`: Expressions, and lists of at least one of them.
* `Tree.postorder`: The operands before their operator, as tokens.
* `Tree.negated`, `Tree.factorials`: One operator applied so many times.
* `Tree.negations`: How many signs a tree holds.

## Theorems

* `Dyad.binary?_toOperator`: An operator between operands has an operation.
* `Tree.postorder_negated`: Signs follow the operand they are applied to.
* `Tree.postorder_factorials`: So do factorials.
* `Tree.negations_negated`: Signs applied are signs held.
-/

namespace DeskCalc

/-- The token of an operator. -/
def Operator.token (op : Operator) : Token := .operator op.symbol

/-- The operators between two operands. -/
inductive Dyad where
  /-- A power. -/
  | power
  /-- A product. -/
  | times
  /-- A quotient. -/
  | divide
  /-- The remainder of a quotient. -/
  | remainder
  /-- A sum. -/
  | plus
  /-- A difference. -/
  | minus
  deriving DecidableEq, Repr

namespace Dyad

/-- The operator among all operators. -/
def toOperator : Dyad → Operator
  | .power => .power
  | .times => .times
  | .divide => .divide
  | .remainder => .remainder
  | .plus => .plus
  | .minus => .minus

/-- The operation of the operator on its left and its right operand. -/
def apply (ar : Arithmetic) : Dyad → Binary64 → Binary64 → Binary64
  | .power => ar.pow
  | .times => ar.mul
  | .divide => ar.div
  | .remainder => ar.rem
  | .plus => ar.add
  | .minus => ar.sub

/-- An operator between operands has an operation. -/
theorem binary?_toOperator (ar : Arithmetic) (op : Dyad) :
    op.toOperator.binary? ar = some (op.apply ar) := by
  cases op <;> rfl

end Dyad

mutual

/-- An expression. -/
inductive Tree where
  /-- A number, as written. -/
  | number (text : String)
  /-- A named number. -/
  | constant (name : String)
  /-- The opposite of an operand. -/
  | negate (operand : Tree)
  /-- The factorial of an operand. -/
  | factorial (operand : Tree)
  /-- An operator between two operands. -/
  | binary (op : Dyad) (left right : Tree)
  /-- A function applied to its arguments. -/
  | call (name : String) (arguments : Trees)

/-- At least one expression. -/
inductive Trees where
  /-- The last of them. -/
  | one (t : Tree)
  /-- One before the rest. -/
  | more (t : Tree) (rest : Trees)

end

/-- How many expressions there are. -/
def Trees.length : Trees → Nat
  | .one _ => 1
  | .more _ rest => rest.length + 1

/-! ### Postorder -/

mutual

/-- The tokens of an expression, operands before their operator. A call is one token, which
    says how many arguments come before it. -/
def Tree.postorder : Tree → List Token
  | .number text => [.number text]
  | .constant name => [.identifier name]
  | .negate t => t.postorder ++ [Operator.negate.token]
  | .factorial t => t.postorder ++ [Operator.factorial.token]
  | .binary op l r => l.postorder ++ r.postorder ++ [op.toOperator.token]
  | .call name ts => ts.postorder ++ [.call name ts.length]

/-- The tokens of several expressions, one after the other. -/
def Trees.postorder : Trees → List Token
  | .one t => t.postorder
  | .more t rest => t.postorder ++ rest.postorder

end

namespace Tree

/-- The expression with so many signs applied to it. -/
def negated : Nat → Tree → Tree
  | 0, t => t
  | n + 1, t => .negate (negated n t)

/-- The expression with so many factorials taken of it. -/
def factorials : Nat → Tree → Tree
  | 0, t => t
  | n + 1, t => .factorial (factorials n t)

/-- Signs follow the operand they are applied to. -/
theorem postorder_negated (n : Nat) (t : Tree) :
    (negated n t).postorder = t.postorder ++ List.replicate n Operator.negate.token := by
  induction n with
  | zero => rw [negated, List.replicate_zero, List.append_nil]
  | succ n ih => rw [negated, postorder, ih, List.append_assoc, ← List.replicate_succ']

/-- Factorials follow the operand they are taken of. -/
theorem postorder_factorials (n : Nat) (t : Tree) :
    (factorials n t).postorder = t.postorder ++ List.replicate n Operator.factorial.token := by
  induction n with
  | zero => rw [factorials, List.replicate_zero, List.append_nil]
  | succ n ih => rw [factorials, postorder, ih, List.append_assoc, ← List.replicate_succ']

end Tree

/-! ### Signs -/

mutual

/-- How many signs an expression holds. -/
def Tree.negations : Tree → Nat
  | .number _ => 0
  | .constant _ => 0
  | .negate t => t.negations + 1
  | .factorial t => t.negations
  | .binary _ l r => l.negations + r.negations
  | .call _ ts => ts.negations

/-- How many signs several expressions hold. -/
def Trees.negations : Trees → Nat
  | .one t => t.negations
  | .more t rest => t.negations + rest.negations

end

namespace Tree

/-- Signs applied are signs held. -/
theorem negations_negated (n : Nat) (t : Tree) : (negated n t).negations = t.negations + n := by
  induction n with
  | zero => rw [negated, Nat.add_zero]
  | succ n ih => rw [negated, negations, ih, Nat.add_assoc]

/-- Factorials hold no signs of their own. -/
theorem negations_factorials (n : Nat) (t : Tree) :
    (factorials n t).negations = t.negations := by
  induction n with
  | zero => rw [factorials]
  | succ n ih => rw [factorials, negations, ih]

end Tree

end DeskCalc
