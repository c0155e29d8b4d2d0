/-!
# Operators

The operators of an expression, how strongly each binds, and to which side operators of equal
strength lean.

A minus sign is two operators under one symbol: between operands it subtracts, before one it
negates. The second is given a symbol of its own, which no typed text can hold.

## Main definitions

* `Operator`: The operators, in the order in which they are listed.
* `Operator.symbol`, `Operator.ofSymbol?`: Their symbols.
* `Operator.halfRank`, `Operator.associativity`: How they bind.
* `Symbol`: The meaning of an operator token: an operator, a bracket or a comma.
* `Symbol.text`, `Symbol.ofText?`: How a symbol is written.

## Theorems

* `Operator.ofSymbol?_eq_some_iff`: Looking up a symbol inverts writing it.
* `Symbol.ofText?_eq_some_iff`: Reading a text inverts writing it.
-/

namespace DeskCalc

/-- The side that operators of equal strength lean to. -/
inductive Associativity where
  /-- The first of them is applied first. -/
  | left
  /-- The last of them is applied first. -/
  | right
  deriving DecidableEq, Repr

/-- The operators. -/
inductive Operator where
  /-- The factorial of the operand before it. -/
  | factorial
  /-- The opposite of the operand after it. -/
  | negate
  /-- A power. -/
  | power
  /-- A product. -/
  | times
  /-- A quotient. -/
  | divide
  /-- The remainder of a quotient. -/
  | remainder
  /-- A sum. -/
  | plus
  /-- A difference. -/
  | minus
  deriving DecidableEq, Repr

namespace Operator

/-- All operators. -/
def all : List Operator :=
  [.factorial, .negate, .power, .times, .divide, .remainder, .plus, .minus]

/-- The symbol of an operator. -/
def symbol : Operator → String
  | .factorial => "!"
  | .negate => "u-"
  | .power => "^"
  | .times => "*"
  | .divide => "/"
  | .remainder => "%"
  | .plus => "+"
  | .minus => "-"

/-- The operator with the given symbol. -/
def ofSymbol? (s : String) : Option Operator := all.find? fun op => op.symbol == s

/-- Twice the precedence of an operator. The sign stands halfway between the power and the
    factorial, and counting in halves keeps all ranks whole. -/
def halfRank : Operator → Nat
  | .factorial => 10
  | .negate => 9
  | .power => 8
  | .times | .divide | .remainder => 6
  | .plus | .minus => 4

/-- The side an operator leans to. -/
def associativity : Operator → Associativity
  | .power => .right
  | _ => .left

/-- Whether an operator that comes first is applied before one that comes later, when no
    bracket stands between them. -/
def precedes (earlier later : Operator) : Bool :=
  match later.associativity with
  | .left => later.halfRank ≤ earlier.halfRank
  | .right => later.halfRank < earlier.halfRank

/-- Every operator is found under its symbol. -/
theorem ofSymbol?_symbol (op : Operator) : ofSymbol? op.symbol = some op := by
  cases op <;> decide

/-- What is found under a symbol has that symbol. -/
theorem eq_symbol_of_ofSymbol? {s : String} {op : Operator} (h : ofSymbol? s = some op) :
    s = op.symbol := by
  have hs := List.find?_some h
  exact (eq_of_beq hs).symm

/-- The symbols tell the operators apart, and there are no others. -/
theorem ofSymbol?_eq_some_iff {s : String} {op : Operator} :
    ofSymbol? s = some op ↔ s = op.symbol :=
  ⟨eq_symbol_of_ofSymbol?, fun h => h ▸ ofSymbol?_symbol op⟩

end Operator

/-- What the text of an operator token means. -/
inductive Symbol where
  /-- The end of an argument. -/
  | comma
  /-- The start of a group, or of a call's arguments. -/
  | opening
  /-- The end of a group, or of a call's arguments. -/
  | closing
  /-- An operator. -/
  | operator (op : Operator)
  deriving DecidableEq, Repr

namespace Symbol

/-- The text of a symbol. -/
def text : Symbol → String
  | .comma => ","
  | .opening => "("
  | .closing => ")"
  | .operator op => op.symbol

/-- The meaning of a text, if it has one. -/
def ofText? (s : String) : Option Symbol :=
  if s = "," then some .comma
  else if s = "(" then some .opening
  else if s = ")" then some .closing
  else (Operator.ofSymbol? s).map .operator

/-- Whether what follows the symbol starts an operand, so that a minus sign there negates. -/
def precedesOperand : Symbol → Bool
  | .comma => true
  | .opening => true
  | .closing => false
  | .operator op => op != .factorial && op != .negate

/-- Every symbol is read off its text. -/
theorem ofText?_text (s : Symbol) : ofText? s.text = some s := by
  cases s with
  | operator op => cases op <;> decide
  | _ => decide

/-- The texts tell the symbols apart, and there are no others. -/
theorem ofText?_eq_some_iff {s : String} {m : Symbol} : ofText? s = some m ↔ s = m.text := by
  constructor
  · intro h
    simp only [ofText?] at h
    split at h
    · cases h; assumption
    split at h
    · cases h; assumption
    split at h
    · cases h; assumption
    obtain ⟨op, hop, rfl⟩ := Option.map_eq_some_iff.mp h
    exact Operator.eq_symbol_of_ofSymbol? hop
  · rintro rfl
    exact ofText?_text m

end Symbol

end DeskCalc
