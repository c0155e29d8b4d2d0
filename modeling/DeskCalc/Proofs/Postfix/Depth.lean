import DeskCalc.Proofs.Postfix.Finiteness

/-!
# How Deep the Stack Is

A token takes a number of values from the stack that can be told from the token alone, and leaves
one. So how many values a run leaves can be told from its tokens, whatever the values are.

## Main definitions

* `Operator.operands`: How many operands an operator takes.
* `Postfix.takes`: How many values a token takes.
* `Postfix.net`: How many values several tokens add.

## Theorems

* `Postfix.length_of_execute`: A step leaves one value in place of those that it takes.
* `Postfix.length_of_executeAll`: A run adds as many values as its tokens do.
* `Postfix.net_of_evaluate`: The tokens of a list that has a value add one.
-/

namespace DeskCalc

/-- How many operands an operator takes. -/
def Operator.operands : Operator → Nat
  | .factorial | .negate => 1
  | .power | .times | .divide | .remainder | .plus | .minus => 2

/-- An operator with an operation takes two operands. -/
theorem Operator.operands_of_binary? {ar : Arithmetic} {op : Operator}
    {f : Binary64 → Binary64 → Binary64} (h : op.binary? ar = some f) : op.operands = 2 := by
  cases op with
  | factorial | negate => exact absurd h (by simp only [binary?, reduceCtorEq, not_false_eq_true])
  | power | times | divide | remainder | plus | minus => rfl

theorem Operator.operands_of_unary {ar : Arithmetic} {op : Operator}
    (h : op.binary? ar = none) : op.operands = 1 := by
  cases op with
  | factorial | negate => rfl
  | power | times | divide | remainder | plus | minus =>
      exact absurd h (by simp only [binary?, reduceCtorEq, not_false_eq_true])

namespace Postfix

variable {ar : Arithmetic} {mode : AngleMode}

/-- How many values a token takes from the stack. A call with no count takes one, and one with a
    negative count none. -/
def takes (t : Token) : Nat :=
  match t.kind with
  | .number | .identifier | .unknown => 0
  | .call => (t.argc.getD 1).toNat
  | .operator => ((Operator.ofSymbol? t.text).map Operator.operands).getD 0

/-- How many values several tokens add, each leaving one in place of those that it takes. -/
def net : List Token → Int
  | [] => 0
  | t :: ts => 1 - (takes t : Int) + net ts

theorem net_append (ts us : List Token) : net (ts ++ us) = net ts + net us := by
  induction ts with
  | nil => exact (Int.zero_add _).symm
  | cons t ts ih => rw [List.cons_append, net, net, ih, Int.add_assoc]

theorem length_of_executeCall {name : String} {argc : Option Int} {stack next : List Binary64}
    (h : executeCall ar mode name argc stack = .ok next) :
    next.length + (argc.getD 1).toNat = stack.length + 1 := by
  rw [executeCall] at h
  dsimp only at h
  by_cases hshort : (stack.length : Int) < argc.getD 1
  · rw [if_pos hshort] at h
    exact absurd h (by simp only [reduceCtorEq, not_false_eq_true])
  · rw [if_neg hshort] at h
    rcases Outcome.bind_eq_ok h with ⟨⟨args, kept⟩, htake, h⟩
    rcases Outcome.bind_eq_ok h with ⟨x, _, h⟩
    simp only [pure, Except.pure, Except.ok.injEq] at h
    rcases takeArguments_eq_ok htake with ⟨taken, hstack, _, hlength, _⟩
    rw [← h, hstack, List.length_cons, List.length_append, hlength]
    omega

theorem length_of_executeOperator {symbol : String} {stack next : List Binary64}
    (h : executeOperator ar symbol stack = .ok next) :
    next.length + ((Operator.ofSymbol? symbol).map Operator.operands).getD 0 =
      stack.length + 1 := by
  rw [executeOperator] at h
  cases hop : Operator.ofSymbol? symbol with
  | none => simp only [hop, reduceCtorEq] at h
  | some op =>
      rw [Option.map_some, Option.getD_some]
      simp only [hop] at h
      cases hbinary : op.binary? ar with
      | none =>
          simp only [hbinary] at h
          rcases Outcome.bind_eq_ok h with ⟨⟨x, kept⟩, htake, h⟩
          rcases Outcome.bind_eq_ok h with ⟨z, _, h⟩
          simp only [pure, Except.pure, Except.ok.injEq] at h
          rw [Operator.operands_of_unary hbinary, ← h, (takeOperand_eq_ok htake).1,
            List.length_cons, List.length_cons]
      | some f =>
          simp only [hbinary] at h
          rcases Outcome.bind_eq_ok h with ⟨⟨y, mid⟩, hright, h⟩
          rcases Outcome.bind_eq_ok h with ⟨⟨x, kept⟩, hleft, h⟩
          simp only [pure, Except.pure, Except.ok.injEq] at h
          have hmid : mid = x :: kept := (takeOperand_eq_ok hleft).1
          rw [Operator.operands_of_binary? hbinary, ← h, (takeOperand_eq_ok hright).1, hmid,
            List.length_cons, List.length_cons, List.length_cons]

/-- A step leaves one value in place of those that its token takes. -/
theorem length_of_execute {t : Token} {stack next : List Binary64}
    (h : execute ar mode t stack = .ok next) : next.length + takes t = stack.length + 1 := by
  cases hkind : t.kind with
  | number =>
      simp only [execute, hkind] at h
      rcases Outcome.map_eq_ok h with ⟨x, _, hnext⟩
      simp only [takes, hkind, ← hnext, List.length_cons, Nat.add_zero]
  | identifier =>
      simp only [execute, hkind] at h
      rcases Outcome.map_eq_ok h with ⟨x, _, hnext⟩
      simp only [takes, hkind, ← hnext, List.length_cons, Nat.add_zero]
  | call =>
      simp only [execute, hkind] at h
      simp only [takes, hkind, length_of_executeCall h]
  | operator =>
      simp only [execute, hkind] at h
      simp only [takes, hkind, length_of_executeOperator h]
  | unknown => simp only [execute, hkind, reduceCtorEq] at h

/-- A run adds as many values as its tokens do. -/
theorem length_of_executeAll {ts : List Token} {stack last : List Binary64}
    (h : executeAll ar mode ts stack = .ok last) : (last.length : Int) = stack.length + net ts := by
  induction ts generalizing stack with
  | nil =>
      rw [executeAll, Except.ok.injEq] at h
      rw [h]
      exact (Int.add_zero _).symm
  | cons t ts ih =>
      rw [executeAll] at h
      rcases Outcome.bind_eq_ok h with ⟨next, hstep, hrest⟩
      have hlength := length_of_execute hstep
      have hmore := ih hrest
      rw [net]
      omega

/-- The tokens of a list that has a value add one. -/
theorem net_of_evaluate {ts : List Token} {x : Binary64} (h : evaluate ar mode ts = .ok x) :
    net ts = 1 := by
  have hlength := length_of_executeAll (evaluate_eq_ok h).1
  simp only [List.length_singleton, List.length_nil] at hlength
  omega

end Postfix

end DeskCalc
