import DeskCalc.Postfix.Machine
import DeskCalc.Proofs.Display.Characters
import DeskCalc.Proofs.Outcome

/-!
# Only Finite Numbers Are Computed With

An infinity or NaN that comes up anywhere in a run makes the whole run fail. The tokens are any at
all, and what the operations compute does not matter.

When a number is pushed nothing is asked of it, so the run goes on for a while with an infinity on
the stack. But a step takes away what it has looked at and nothing else. A number on the stack is
therefore either looked at by a later step or still there at the end, and then it has to be the
only one and is looked at as the result. So the induction is from the end of the run backwards:
if the last stack is finite, each one before it is.

## Main definitions

* `Postfix.Replaces`: What a step does to the stack.
* `Postfix.visited`: The stacks that a run goes through.

## Theorems

* `Postfix.replaces_of_execute`: A step takes finite operands, and one result takes their place.
* `Postfix.finite_of_executeAll`: A run that ends with finite numbers only has had no others.
* `Postfix.evaluate_finite`: No infinity and no NaN is on the stack in a run that has a value.
-/

namespace DeskCalc

namespace Postfix

variable {ar : Arithmetic} {mode : AngleMode}

/-! ### What a step takes -/

/-- An operand is taken from the top, and it is finite. -/
theorem takeOperand_eq_ok {stack rest : List Binary64} {x : Binary64}
    (h : takeOperand stack = .ok (x, rest)) : stack = x :: rest ∧ x.isFinite = true := by
  match stack with
  | [] => exact absurd h (by simp only [takeOperand, reduceCtorEq, not_false_eq_true])
  | y :: stack =>
      rw [takeOperand] at h
      by_cases hy : y.isFinite = true
      · rw [if_pos hy, Except.ok.injEq, Prod.mk.injEq] at h
        rw [← h.1, ← h.2]
        exact ⟨rfl, hy⟩
      · rw [if_neg hy] at h
        exact absurd h (by simp only [reduceCtorEq, not_false_eq_true])

/-- Arguments are taken from the top, the last of them first, and all are finite. -/
theorem takeArguments_eq_ok {n : Nat} {args all stack rest : List Binary64}
    (h : takeArguments n args stack = .ok (all, rest)) :
    ∃ taken, stack = taken ++ rest ∧ all = taken.reverse ++ args ∧ taken.length = n ∧
      ∀ x ∈ taken, x.isFinite = true := by
  -- Each argument goes before those that were above it, so they end up reversed.
  induction n generalizing args stack with
  | zero =>
      rw [takeArguments, Except.ok.injEq, Prod.mk.injEq] at h
      exact ⟨[], h.2, h.1.symm, rfl, fun x hx => absurd hx List.not_mem_nil⟩
  | succ n ih =>
      rw [takeArguments] at h
      rcases Outcome.bind_eq_ok h with ⟨⟨x, mid⟩, hx, hmore⟩
      rcases takeOperand_eq_ok hx with ⟨rfl, hfinite⟩
      rcases ih hmore with ⟨taken, rfl, hall, hlength, htaken⟩
      refine ⟨x :: taken, rfl, ?_, ?_, List.forall_mem_cons.mpr ⟨hfinite, htaken⟩⟩
      · rw [hall, List.reverse_cons, List.append_assoc, List.singleton_append]
      · rw [List.length_cons, hlength]

/-- What a step does to the stack: it takes finite operands from the top, if any, and one result
    takes their place. -/
def Replaces (stack next : List Binary64) : Prop :=
  ∃ x taken kept, stack = taken ++ kept ∧ next = x :: kept ∧ ∀ y ∈ taken, y.isFinite = true

/-- An operand that is pushed takes no others. -/
theorem Replaces.push (x : Binary64) (stack : List Binary64) : Replaces stack (x :: stack) :=
  ⟨x, [], stack, rfl, rfl, fun _ hy => absurd hy List.not_mem_nil⟩

theorem replaces_of_executeCall {name : String} {argc : Option Int} {stack next : List Binary64}
    (h : executeCall ar mode name argc stack = .ok next) : Replaces stack next := by
  rw [executeCall] at h
  dsimp only at h
  by_cases hshort : (stack.length : Int) < argc.getD 1
  · rw [if_pos hshort] at h
    exact absurd h (by simp only [reduceCtorEq, not_false_eq_true])
  · rw [if_neg hshort] at h
    rcases Outcome.bind_eq_ok h with ⟨⟨args, kept⟩, htake, h⟩
    rcases Outcome.bind_eq_ok h with ⟨x, _, h⟩
    simp only [pure, Except.pure, Except.ok.injEq] at h
    rcases takeArguments_eq_ok htake with ⟨taken, hstack, _, _, htaken⟩
    exact ⟨x, taken, kept, hstack, h.symm, htaken⟩

theorem replaces_of_executeOperator {symbol : String} {stack next : List Binary64}
    (h : executeOperator ar symbol stack = .ok next) : Replaces stack next := by
  rw [executeOperator] at h
  cases hop : Operator.ofSymbol? symbol with
  | none => simp only [hop, reduceCtorEq] at h
  | some op =>
      simp only [hop] at h
      cases hbinary : op.binary? ar with
      | none =>
          simp only [hbinary] at h
          rcases Outcome.bind_eq_ok h with ⟨⟨x, kept⟩, htake, h⟩
          rcases Outcome.bind_eq_ok h with ⟨z, _, h⟩
          simp only [pure, Except.pure, Except.ok.injEq] at h
          rcases takeOperand_eq_ok htake with ⟨hstack, hx⟩
          exact ⟨z, [x], kept, hstack, h.symm, List.forall_mem_singleton.mpr hx⟩
      | some f =>
          -- The right operand is on top of the left one.
          simp only [hbinary] at h
          rcases Outcome.bind_eq_ok h with ⟨⟨y, mid⟩, hright, h⟩
          rcases Outcome.bind_eq_ok h with ⟨⟨x, kept⟩, hleft, h⟩
          simp only [pure, Except.pure, Except.ok.injEq] at h
          rcases takeOperand_eq_ok hright with ⟨hstack, hy⟩
          rcases takeOperand_eq_ok hleft with ⟨hmid, hx⟩
          refine ⟨f x y, [y, x], kept, ?_, h.symm, ?_⟩
          · rw [hstack]
            exact congrArg (y :: ·) hmid
          · exact List.forall_mem_cons.mpr ⟨hy, List.forall_mem_singleton.mpr hx⟩

/-- A step takes finite operands, and one result takes their place. -/
theorem replaces_of_execute {t : Token} {stack next : List Binary64}
    (h : execute ar mode t stack = .ok next) : Replaces stack next := by
  cases hkind : t.kind with
  | number =>
      simp only [execute, hkind] at h
      rcases Outcome.map_eq_ok h with ⟨x, _, hnext⟩
      rw [← hnext]
      exact .push x stack
  | identifier =>
      simp only [execute, hkind] at h
      rcases Outcome.map_eq_ok h with ⟨x, _, hnext⟩
      rw [← hnext]
      exact .push x stack
  | call =>
      simp only [execute, hkind] at h
      exact replaces_of_executeCall h
  | operator =>
      simp only [execute, hkind] at h
      exact replaces_of_executeOperator h
  | unknown => simp only [execute, hkind, reduceCtorEq] at h

/-- If the stack after a step is finite, so is the one before it: what was taken was looked at,
    and the rest is still there. -/
theorem Replaces.finite {stack next : List Binary64} (h : Replaces stack next)
    (hnext : ∀ x ∈ next, x.isFinite = true) : ∀ x ∈ stack, x.isFinite = true := by
  rcases h with ⟨x, taken, kept, rfl, rfl, htaken⟩
  rcases List.forall_mem_cons.mp hnext with ⟨_, hkept⟩
  exact List.forall_mem_append.mpr ⟨htaken, hkept⟩

/-! ### Whole runs -/

/-- The stacks that a run goes through, one after each token up to the first that fails. -/
def visited (ar : Arithmetic) (mode : AngleMode) : List Token → List Binary64 →
    List (List Binary64)
  | [], _ => []
  | t :: rest, stack =>
    match execute ar mode t stack with
    | .ok next => next :: visited ar mode rest next
    | .error _ => []

/-- A run that ends with finite numbers only starts with finite numbers only and has no others on
    the way, where every token leaves a number. -/
theorem finite_of_executeAll {ts : List Token} {stack last : List Binary64}
    (h : executeAll ar mode ts stack = .ok last) (hlast : ∀ x ∈ last, x.isFinite = true) :
    (∀ x ∈ stack, x.isFinite = true) ∧ (visited ar mode ts stack).length = ts.length ∧
      ∀ s ∈ visited ar mode ts stack, s ≠ [] ∧ ∀ x ∈ s, x.isFinite = true := by
  -- The stack after a token is finite because it starts a shorter run to the same end.
  induction ts generalizing stack with
  | nil =>
      rw [executeAll, Except.ok.injEq] at h
      rw [h]
      exact ⟨hlast, rfl, fun s hs => absurd hs List.not_mem_nil⟩
  | cons t ts ih =>
      rw [executeAll] at h
      rcases Outcome.bind_eq_ok h with ⟨next, hstep, hrest⟩
      rcases ih hrest with ⟨hnext, hlength, hall⟩
      have hreplaces := replaces_of_execute hstep
      have hsome : next ≠ [] := by
        rcases hreplaces with ⟨x, taken, kept, _, hcons, _⟩
        rw [hcons]
        exact List.cons_ne_nil x kept
      rw [visited, hstep]
      refine ⟨hreplaces.finite hnext, ?_, List.forall_mem_cons.mpr ⟨⟨hsome, hnext⟩, hall⟩⟩
      rw [List.length_cons, hlength, List.length_cons]

theorem result_eq_ok {stack : List Binary64} {x : Binary64} (h : result stack = .ok x) :
    stack = [x] ∧ x.isFinite = true := by
  match stack with
  | [] => exact absurd h (by simp only [result, reduceCtorEq, not_false_eq_true])
  | _ :: _ :: _ => exact absurd h (by simp only [result, reduceCtorEq, not_false_eq_true])
  | [y] =>
      rw [result] at h
      by_cases hy : y.isFinite = true
      · rw [if_pos hy, Except.ok.injEq] at h
        rw [← h]
        exact ⟨rfl, hy⟩
      · rw [if_neg hy] at h
        exact absurd h (by simp only [reduceCtorEq, not_false_eq_true])

/-- Tokens that have a value leave it alone on the stack. -/
theorem evaluate_eq_ok {ts : List Token} {x : Binary64} (h : evaluate ar mode ts = .ok x) :
    executeAll ar mode ts [] = .ok [x] ∧ x.isFinite = true := by
  rcases Outcome.bind_eq_ok h with ⟨last, hrun, hresult⟩
  rcases result_eq_ok hresult with ⟨rfl, hfinite⟩
  exact ⟨hrun, hfinite⟩

/-- If the tokens have a value, it is finite and is shown as a number, and so was everything on
    the stack after each of the tokens. If anything on the stack after any token is not finite,
    they have no value. -/
theorem evaluate_finite (ar : Arithmetic) (mode : AngleMode) (ts : List Token) :
    (∀ x, evaluate ar mode ts = .ok x →
        x.isFinite = true ∧ Display.text x ∉ ["NaN", "Infinity", "-Infinity"] ∧
          (visited ar mode ts []).length = ts.length ∧
          ∀ s ∈ visited ar mode ts [], s ≠ [] ∧ ∀ y ∈ s, y.isFinite = true) ∧
      ∀ s ∈ visited ar mode ts [], ∀ y ∈ s, y.isFinite = false →
        ∃ f, evaluate ar mode ts = .error f := by
  have hvalue : ∀ x, evaluate ar mode ts = .ok x → x.isFinite = true ∧
      (visited ar mode ts []).length = ts.length ∧
      ∀ s ∈ visited ar mode ts [], s ≠ [] ∧ ∀ y ∈ s, y.isFinite = true := by
    intro x hx
    rcases evaluate_eq_ok hx with ⟨hrun, hfinite⟩
    exact ⟨hfinite, (finite_of_executeAll hrun (List.forall_mem_singleton.mpr hfinite)).2⟩
  refine ⟨fun x hx => ?_, fun s hs y hy hinfinite => ?_⟩
  · rcases hvalue x hx with ⟨hfinite, hall⟩
    exact ⟨hfinite, Display.text_notMem_words hfinite, hall⟩
  · -- With a value there would be nothing like it on any of the stacks.
    cases hout : evaluate ar mode ts with
    | error f => exact ⟨f, rfl⟩
    | ok x =>
        have hfinite := ((hvalue x hout).2.2 s hs).2 y hy
        rw [hinfinite] at hfinite
        exact Bool.noConfusion hfinite

/-- The tokens of `1/2`. -/
def halfTokens : List Token := [.number "1", .number "2", .operator "/"]

/-- The tokens of `1/(1/0)`. -/
def infiniteDivisor : List Token :=
  [.number "1", .number "1", .number "0", .operator "/", .operator "/"]

/-- The quotient of one and two is computed from finite numbers. That of one and zero is on the
    stack for a moment, so nothing can be divided by it. -/
theorem evaluate_finite_infiniteDivisor :
    (evaluate .standard .degrees halfTokens = .ok .half ∧
        ∀ s ∈ visited .standard .degrees halfTokens [], s ≠ [] ∧ ∀ y ∈ s, y.isFinite = true) ∧
      [.inf false, .one] ∈ visited .standard .degrees infiniteDivisor [] ∧
      ∃ f, evaluate .standard .degrees infiniteDivisor = .error f := by
  have hhalf : evaluate .standard .degrees halfTokens = .ok .half :=
    Outcome.toOption_eq_some_iff.mp (by decide +kernel)
  have hmem : [.inf false, .one] ∈ visited .standard .degrees infiniteDivisor [] := by
    decide +kernel
  refine ⟨⟨hhalf, ((evaluate_finite _ _ _).1 _ hhalf).2.2.2⟩, hmem, ?_⟩
  exact (evaluate_finite _ _ _).2 _ hmem (.inf false) List.mem_cons_self rfl

end Postfix

end DeskCalc
