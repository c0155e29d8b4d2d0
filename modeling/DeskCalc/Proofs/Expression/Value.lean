import DeskCalc.Postfix.Machine
import DeskCalc.Proofs.Expression.Tree
import DeskCalc.Proofs.Faults

/-!
# The Value of an Expression Tree

What an expression means, by recursion on its tree, and that the stack machine computes it.

The order in which faults are found is part of the meaning. Operands are computed from left to
right, and the first that fails decides. Only when all are there are they looked at: one that
is not finite is refused, the last of them first, since that is the one on top of a stack. A
name that is not known or takes another number of arguments is noticed after that.

The machine checks an operand when it takes it, which is much later than it was pushed. The
proof that it finds the same fault therefore cannot follow the tokens one by one. It follows
the tree instead: the tokens of a subtree, run on any stack, leave that stack with the value of
the subtree on top, or fail as the subtree does (`Tree.executeAll_postorder`).

Nothing here depends on what the operations compute.

## Main definitions

* `requireFinite`: The check that operands are subjected to.
* `Tree.compute`: What an expression computes, be it finite or not.
* `Tree.value`: The value of an expression.
* `Balanced`: An outcome that does not blame the balance of operands and operators.

## Theorems

* `Postfix.takeArguments_append`: Taking operands from the stack is checking them.
* `Tree.executeAll_postorder`: The machine pushes what an expression computes.
* `Tree.balanced_value`: An expression has all the operands it needs.
* `Tree.evaluate_postorder`: The machine's result is the value of the expression.
-/

namespace DeskCalc

/-- The check that operands are subjected to before they are used. All have to be finite, and
    of several that are not the last is reported. -/
def requireFinite (xs : List Binary64) : Except Fault Unit :=
  match xs.reverse.find? fun x => !x.isFinite with
  | some x => .error (.nonFiniteOperand x)
  | none => .ok ()

mutual

/-- What an expression computes, be it finite or not. -/
def Tree.compute (ar : Arithmetic) (mode : AngleMode) : Tree → Except Fault Binary64
  | .number text => Numeral.read text
  | .constant name => Constant.value name
  | .negate t => do
    let x ← t.compute ar mode
    requireFinite [x]
    return ar.neg x
  | .factorial t => do
    let x ← t.compute ar mode
    requireFinite [x]
    Operator.factorialOf ar x
  | .binary op l r => do
    let x ← l.compute ar mode
    let y ← r.compute ar mode
    requireFinite [x, y]
    return op.apply ar x y
  | .call name ts => do
    let xs ← ts.compute ar mode
    requireFinite xs
    Function.call ar mode name xs

/-- What several expressions compute, up to the first that fails. -/
def Trees.compute (ar : Arithmetic) (mode : AngleMode) : Trees → Except Fault (List Binary64)
  | .one t => do
    let x ← t.compute ar mode
    return [x]
  | .more t rest => do
    let x ← t.compute ar mode
    let xs ← rest.compute ar mode
    return x :: xs

end

/-- The value of an expression, which has to be finite. -/
def Tree.value (ar : Arithmetic) (mode : AngleMode) (t : Tree) : Except Fault Binary64 := do
  let x ← t.compute ar mode
  if x.isFinite then .ok x else .error (.nonFiniteResult x)

variable (ar : Arithmetic) (mode : AngleMode)

/-! ### The check -/

/-- The last operand is looked at before the others. -/
theorem requireFinite_append_singleton (xs : List Binary64) (x : Binary64) :
    requireFinite (xs ++ [x]) =
      if x.isFinite then requireFinite xs else .error (.nonFiniteOperand x) := by
  rw [requireFinite, List.reverse_append, List.reverse_singleton, List.singleton_append]
  by_cases hx : x.isFinite = true
  · rw [if_pos hx, List.find?_cons_of_neg (by simp only [hx, Bool.not_true, Bool.false_eq_true,
      not_false_eq_true]), requireFinite]
  · rw [if_neg hx, List.find?_cons_of_pos (by simp only [hx, Bool.not_false])]

theorem Postfix.takeOperand_cons (x : Binary64) (stack : List Binary64) :
    takeOperand (x :: stack) = (requireFinite [x]).map fun _ => (x, stack) := by
  have hcheck := requireFinite_append_singleton [] x
  rw [List.nil_append] at hcheck
  rw [takeOperand, hcheck]
  by_cases hx : x.isFinite = true
  · rw [if_pos hx, if_pos hx]
    rfl
  · rw [if_neg hx, if_neg hx]
    rfl

/-- Taking several operands, the last of which is on top, is checking them. -/
theorem Postfix.takeArguments_append (ys args stack : List Binary64) :
    takeArguments ys.length args (ys ++ stack) =
      (requireFinite ys.reverse).map fun _ => (ys.reverse ++ args, stack) := by
  induction ys generalizing args with
  | nil => rfl
  | cons y ys ih =>
      -- The top of the stack is the last operand, which both look at first.
      rw [List.length_cons, List.cons_append, takeArguments, takeOperand, List.reverse_cons,
        requireFinite_append_singleton, List.append_assoc, List.singleton_append]
      by_cases hy : y.isFinite = true
      · rw [if_pos hy, if_pos hy]
        exact ih (y :: args)
      · rw [if_neg hy, if_neg hy]
        rfl

/-! ### One step of the machine -/

/-- A sign looks at its operand first. -/
theorem Postfix.executeOperator_negate (x : Binary64) (stack : List Binary64) :
    executeOperator ar Operator.negate.symbol (x :: stack) =
      (requireFinite [x]).map fun _ => ar.neg x :: stack := by
  rw [executeOperator, Operator.ofSymbol?_symbol]
  simp only [Operator.binary?, takeOperand_cons]
  cases requireFinite [x] <;> rfl

/-- A factorial looks at its operand before it is taken. -/
theorem Postfix.executeOperator_factorial (x : Binary64) (stack : List Binary64) :
    executeOperator ar Operator.factorial.symbol (x :: stack) =
      ((requireFinite [x]).bind fun _ => Operator.factorialOf ar x).map (· :: stack) := by
  rw [executeOperator, Operator.ofSymbol?_symbol]
  simp only [Operator.binary?, takeOperand_cons]
  cases requireFinite [x] with
  | error f => rfl
  | ok _ =>
      have hunary : Operator.applyUnary ar Operator.factorial.symbol x
          = Operator.factorialOf ar x := by
        rw [Operator.applyUnary, Operator.ofSymbol?_symbol]
      simp only [Except.map, bind, Except.bind, hunary]
      cases Operator.factorialOf ar x <;> rfl

/-- An operator between operands looks at both, the right one first. -/
theorem Postfix.executeOperator_dyad (op : Dyad) (x y : Binary64) (stack : List Binary64) :
    executeOperator ar op.toOperator.symbol (y :: x :: stack) =
      (requireFinite [x, y]).map fun _ => op.apply ar x y :: stack := by
  -- The right operand is on top, so a value there that is not finite is reported first.
  have hpair := requireFinite_append_singleton [x] y
  rw [List.singleton_append] at hpair
  rw [executeOperator, Operator.ofSymbol?_symbol, hpair]
  simp only [Dyad.binary?_toOperator]
  by_cases hy : y.isFinite = true
  · rw [takeOperand, if_pos hy, if_pos hy]
    simp only [bind, Except.bind, takeOperand_cons]
    cases requireFinite [x] <;> rfl
  · rw [takeOperand, if_neg hy, if_neg hy]
    rfl

/-- A call looks at its operands, then at its name and at how many they are. -/
theorem Postfix.executeCall_eq (name : String) (xs stack : List Binary64) :
    executeCall ar mode name (some xs.length) (xs.reverse ++ stack) =
      ((requireFinite xs).bind fun _ => Function.call ar mode name xs).map (· :: stack) := by
  have htake := takeArguments_append xs.reverse [] stack
  rw [List.length_reverse, List.reverse_reverse, List.append_nil] at htake
  -- The stack holds the operands, so the call is not turned away for want of them.
  have henough : ¬ ((xs.reverse ++ stack).length : Int) < (xs.length : Int) := by
    rw [List.length_append, List.length_reverse]
    omega
  rw [executeCall]
  simp only [Option.getD_some, if_neg henough, Int.toNat_natCast, htake]
  cases requireFinite xs with
  | error f => rfl
  | ok _ =>
      simp only [Except.map, bind, Except.bind]
      cases Function.call ar mode name xs <;> rfl

theorem Postfix.executeAll_singleton (t : Token) (stack : List Binary64) :
    executeAll ar mode [t] stack = execute ar mode t stack := by
  rw [executeAll]
  cases execute ar mode t stack <;> rfl

/-! ### The simulation -/

/-- There is a result for every expression. -/
theorem Trees.length_compute (ts : Trees) {xs : List Binary64}
    (h : ts.compute ar mode = .ok xs) : xs.length = ts.length := by
  match ts with
  | .one t =>
      rw [compute] at h
      cases ht : t.compute ar mode with
      | error f => rw [ht] at h; cases h
      | ok x => rw [ht] at h; cases h; rfl
  | .more t rest =>
      rw [compute] at h
      cases ht : t.compute ar mode with
      | error f => rw [ht] at h; cases h
      | ok x =>
          rw [ht] at h
          cases hrest : rest.compute ar mode with
          | error f => simp only [bind, Except.bind, hrest, reduceCtorEq] at h
          | ok ys =>
              simp only [bind, Except.bind, hrest, pure, Except.pure, Except.ok.injEq] at h
              rw [← h, List.length_cons, rest.length_compute hrest, length]

open Postfix in
mutual

/-- The tokens of an expression, run on any stack, leave what the expression computes on top of
    it, or fail as the expression does. -/
theorem Tree.executeAll_postorder (t : Tree) (stack : List Binary64) :
    executeAll ar mode t.postorder stack = (t.compute ar mode).map (· :: stack) := by
  match t with
  | .number text =>
      rw [Tree.postorder, executeAll_singleton]
      rfl
  | .constant name =>
      rw [Tree.postorder, executeAll_singleton]
      rfl
  | .negate t =>
      rw [Tree.postorder, executeAll_append, t.executeAll_postorder, Tree.compute]
      cases t.compute ar mode with
      | error f => rfl
      | ok x =>
          change executeAll ar mode [Operator.negate.token] (x :: stack) = _
          rw [executeAll_singleton]
          change executeOperator ar Operator.negate.symbol (x :: stack) = _
          rw [executeOperator_negate]
          simp only [bind, Except.bind]
          cases requireFinite [x] <;> rfl
  | .factorial t =>
      rw [Tree.postorder, executeAll_append, t.executeAll_postorder, Tree.compute]
      cases t.compute ar mode with
      | error f => rfl
      | ok x =>
          change executeAll ar mode [Operator.factorial.token] (x :: stack) = _
          rw [executeAll_singleton]
          change executeOperator ar Operator.factorial.symbol (x :: stack) = _
          rw [executeOperator_factorial]
          rfl
  | .binary op l r =>
      rw [Tree.postorder, executeAll_append, executeAll_append, l.executeAll_postorder, Tree.compute]
      cases l.compute ar mode with
      | error f => rfl
      | ok x =>
          -- The left operand is not looked at yet: a fault inside the right one comes first.
          change (executeAll ar mode r.postorder (x :: stack)).bind _ = _
          rw [r.executeAll_postorder]
          simp only [bind, Except.bind]
          cases r.compute ar mode with
          | error f => rfl
          | ok y =>
              change executeAll ar mode [op.toOperator.token] (y :: x :: stack) = _
              rw [executeAll_singleton]
              change executeOperator ar op.toOperator.symbol (y :: x :: stack) = _
              rw [executeOperator_dyad]
              dsimp only
              cases requireFinite [x, y] <;> rfl
  | .call name ts =>
      rw [Tree.postorder, executeAll_append, ts.executeAll_postorder, Tree.compute]
      cases hts : ts.compute ar mode with
      | error f => rfl
      | ok xs =>
          -- The count that the token carries is the number of results on the stack.
          change executeAll ar mode [.call name ts.length] (xs.reverse ++ stack) = _
          rw [executeAll_singleton, ← ts.length_compute ar mode hts]
          change executeCall ar mode name (some xs.length) (xs.reverse ++ stack) = _
          rw [executeCall_eq]
          rfl

/-- The tokens of several expressions leave what these compute, the last on top. -/
theorem Trees.executeAll_postorder (ts : Trees) (stack : List Binary64) :
    executeAll ar mode ts.postorder stack =
      (ts.compute ar mode).map fun xs => xs.reverse ++ stack := by
  match ts with
  | .one t =>
      rw [Trees.postorder, t.executeAll_postorder, Trees.compute]
      cases t.compute ar mode <;> rfl
  | .more t rest =>
      rw [Trees.postorder, executeAll_append, t.executeAll_postorder, Trees.compute]
      cases t.compute ar mode with
      | error f => rfl
      | ok x =>
          change executeAll ar mode rest.postorder (x :: stack) = _
          rw [rest.executeAll_postorder]
          simp only [bind, Except.bind]
          cases rest.compute ar mode with
          | error f => rfl
          | ok xs =>
              simp only [Except.map, pure, Except.pure, List.reverse_cons, List.append_assoc,
                List.singleton_append]

end

/-! ### The balance of operands and operators -/

/-- An outcome that does not blame the balance of operands and operators. -/
def Balanced {α : Type} (r : Except Fault α) : Prop :=
  ∀ f, r = .error f → f.kind.category ≠ .structural

namespace Balanced

variable {α β : Type}

theorem ok (x : α) : Balanced (.ok x : Except Fault α) :=
  Outcome.FailsOnly.ok x

theorem error {f : Fault} (hf : f.kind.category ≠ .structural) :
    Balanced (.error f : Except Fault α) :=
  Outcome.FailsOnly.error hf

/-- Of two steps, neither may blame the balance. -/
theorem bind {r : Except Fault α} {k : α → Except Fault β} (hr : Balanced r)
    (hk : ∀ x, Balanced (k x)) : Balanced (r >>= k) :=
  Outcome.FailsOnly.bind hr fun x _ => hk x

end Balanced

theorem balanced_requireFinite (xs : List Binary64) : Balanced (requireFinite xs) := by
  rw [requireFinite]
  cases xs.reverse.find? fun x => !x.isFinite with
  | none => exact Balanced.ok ()
  | some x => exact Balanced.error nofun

theorem balanced_read (text : String) : Balanced (Numeral.read text) := by
  refine (Numeral.failsOnly_read text).mono ?_
  rintro f rfl
  exact nofun

theorem balanced_constant (name : String) : Balanced (Constant.value name) := by
  refine (Constant.failsOnly_value name).mono ?_
  rintro f rfl
  exact nofun

/-- A factorial that cannot be taken blames the operand's value. -/
theorem balanced_factorialOf (x : Binary64) : Balanced (Operator.factorialOf ar x) := by
  refine (Operator.failsOnly_factorialOf ar x).mono ?_
  rintro f (⟨rfl, _⟩ | rfl | rfl | ⟨n, rfl⟩)
  · exact nofun
  · exact nofun
  · exact nofun
  · exact nofun

/-- A call that fails blames its name or its arguments. -/
theorem balanced_call (name : String) (xs : List Binary64) :
    Balanced (Function.call ar mode name xs) := by
  refine (Function.failsOnly_call ar mode name xs).mono ?_
  rintro f (rfl | ⟨expected, rfl⟩)
  · exact nofun
  · exact nofun

mutual

/-- An expression has all the operands it needs. -/
theorem Tree.balanced_compute (t : Tree) : Balanced (t.compute ar mode) := by
  match t with
  | .number text => exact balanced_read text
  | .constant name => exact balanced_constant name
  | .negate t =>
      rw [Tree.compute]
      refine (t.balanced_compute).bind fun x => ?_
      exact (balanced_requireFinite [x]).bind fun _ => Balanced.ok _
  | .factorial t =>
      rw [Tree.compute]
      refine (t.balanced_compute).bind fun x => ?_
      exact (balanced_requireFinite [x]).bind fun _ => balanced_factorialOf ar x
  | .binary op l r =>
      rw [Tree.compute]
      refine (l.balanced_compute).bind fun x => (r.balanced_compute).bind fun y => ?_
      exact (balanced_requireFinite [x, y]).bind fun _ => Balanced.ok _
  | .call name ts =>
      rw [Tree.compute]
      refine (ts.balanced_compute).bind fun xs => ?_
      exact (balanced_requireFinite xs).bind fun _ => balanced_call ar mode name xs

theorem Trees.balanced_compute (ts : Trees) : Balanced (ts.compute ar mode) := by
  match ts with
  | .one t =>
      rw [Trees.compute]
      exact (t.balanced_compute).bind fun x => Balanced.ok _
  | .more t rest =>
      rw [Trees.compute]
      refine (t.balanced_compute).bind fun x => ?_
      exact (rest.balanced_compute).bind fun xs => Balanced.ok _

end

/-- The value of an expression is not wanting for lack of an operand. -/
theorem Tree.balanced_value (t : Tree) : Balanced (t.value ar mode) := by
  rw [value]
  refine (t.balanced_compute ar mode).bind fun x => ?_
  split
  · exact Balanced.ok x
  · exact Balanced.error nofun

/-! ### The result -/

/-- The machine's result on the postorder of an expression is the value of the expression, or
    the fault that the expression has, and never a fault of balance. -/
theorem Tree.evaluate_postorder (t : Tree) :
    Postfix.evaluate ar mode t.postorder = t.value ar mode ∧
      ∀ f : Fault, f.kind = .stackUnderflow ∨ f.kind = .invalidExpression →
        Postfix.evaluate ar mode t.postorder ≠ .error f := by
  -- The machine starts on an empty stack, so one value is left, or none and a fault.
  have hvalue : Postfix.evaluate ar mode t.postorder = t.value ar mode := by
    rw [Postfix.evaluate, t.executeAll_postorder, value]
    cases t.compute ar mode <;> rfl
  refine ⟨hvalue, fun f hf herror => ?_⟩
  -- Both kinds of fault are of the category that a value never blames.
  rw [hvalue] at herror
  refine t.balanced_value ar mode f herror ?_
  rcases hf with hf | hf
  · rw [hf]; rfl
  · rw [hf]; rfl

end DeskCalc
