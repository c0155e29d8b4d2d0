import DeskCalc.Proofs.Postfix.Finiteness

/-!
# What Lies Below

A run does the same over values that are there already as it does on an empty stack. It takes only
what it has pushed itself, so the values below are neither looked at nor moved, and what comes of
the run goes on top of them.

The exception is a run that takes more than it has pushed. On an empty stack it runs short, and
over other values it would go on with those. A run that fails in any other way fails in the same
way over any values, because what it refused was its own.

So a step over further values is not simply the step with its outcome translated, and `Framed`
leaves the one case open. It is still kept by sequences, since a sequence whose first part runs
short has run short.

## Main definitions

* `Postfix.Framed`: The outcome of a step over values that it does not reach.

## Theorems

* `Postfix.Framed.bind`: Sequences of framed steps are framed.
* `Postfix.framed_execute`, `Postfix.framed_executeAll`: A step and a run over further values.
* `Postfix.framed_visited`: The stacks on the way.
* `Postfix.executeAll_framed`: What a run on the empty stack says of any other.
-/

namespace DeskCalc

namespace Postfix

open Outcome

variable {α β α' β' : Type}

/-- That a step over further values comes to what it comes to without them, translated, unless it
    runs short without them. -/
def Framed (g : α → β) (alone : Except Fault α) (upon : Except Fault β) : Prop :=
  (∃ f, alone = .error f ∧ f.kind = .stackUnderflow) ∨ upon = carry id g alone

namespace Framed

variable {g : α → β} {g' : α' → β'}

theorem ok (x : α) : Framed g (.ok x) (.ok (g x)) := .inr rfl

theorem error (g : α → β) (f : Fault) : Framed g (.error f) (.error f) := .inr rfl

theorem short (upon : Except Fault β) {f : Fault} (hf : f.kind = .stackUnderflow) :
    Framed g (.error f) upon :=
  .inl ⟨f, rfl, hf⟩

/-- Sequences of framed steps are framed. -/
theorem bind {r : Except Fault α} {r' : Except Fault β} {k : α → Except Fault α'}
    {k' : β → Except Fault β'} (hr : Framed g r r') (hk : ∀ x, Framed g' (k x) (k' (g x))) :
    Framed g' (r >>= k) (r' >>= k') := by
  rcases hr with ⟨f, rfl, hf⟩ | rfl
  · exact short _ hf
  · cases r with
    | error f => exact error g' f
    | ok x => exact hk x

/-- What does not touch the stack is the same over any. -/
theorem bind_same (r : Except Fault α) {k : α → Except Fault α'} {k' : α → Except Fault β'}
    (hk : ∀ x, Framed g' (k x) (k' x)) : Framed g' (r >>= k) (r >>= k') := by
  cases r with
  | error f => exact error g' f
  | ok x => exact hk x

end Framed

/-! ### One step -/

variable (ar : Arithmetic) (mode : AngleMode) (base : List Binary64)

/-- What has been taken, and what is left of the stack over further values. -/
def aboveBase (p : α × List Binary64) : α × List Binary64 := (p.1, p.2 ++ base)

theorem framed_takeOperand (stack : List Binary64) :
    Framed (aboveBase base) (takeOperand stack) (takeOperand (stack ++ base)) := by
  match stack with
  | [] => exact .short _ rfl
  | x :: stack =>
      -- The operand that is looked at is on top either way.
      rw [List.cons_append, takeOperand, takeOperand]
      split
      · exact .ok _
      · exact .error _ _

theorem framed_takeArguments (n : Nat) (args stack : List Binary64) :
    Framed (aboveBase base) (takeArguments n args stack)
      (takeArguments n args (stack ++ base)) := by
  induction n generalizing args stack with
  | zero => exact .ok _
  | succ n ih =>
      rw [takeArguments, takeArguments]
      exact (framed_takeOperand base stack).bind fun p => ih (p.1 :: args) p.2

theorem framed_executeCall (name : String) (argc : Option Int) (stack : List Binary64) :
    Framed (· ++ base) (executeCall ar mode name argc stack)
      (executeCall ar mode name argc (stack ++ base)) := by
  unfold executeCall
  dsimp only
  by_cases hshort : (stack.length : Int) < argc.getD 1
  · rw [if_pos hshort]
    exact .short _ rfl
  · -- What is enough for the call is enough with more below it.
    have henough : ¬ ((stack ++ base).length : Int) < argc.getD 1 := by
      rw [List.length_append]
      omega
    rw [if_neg hshort, if_neg henough]
    refine (framed_takeArguments base _ [] stack).bind fun p => ?_
    exact .bind_same _ fun x => .ok (x :: p.2)

theorem framed_executeOperator (symbol : String) (stack : List Binary64) :
    Framed (· ++ base) (executeOperator ar symbol stack)
      (executeOperator ar symbol (stack ++ base)) := by
  unfold executeOperator
  cases Operator.ofSymbol? symbol with
  | none => exact .error _ _
  | some op =>
      dsimp only
      cases op.binary? ar with
      | none =>
          refine (framed_takeOperand base stack).bind fun p => ?_
          exact .bind_same _ fun z => .ok (z :: p.2)
      | some f =>
          refine (framed_takeOperand base stack).bind fun p => ?_
          exact (framed_takeOperand base p.2).bind fun q => .ok (f q.1 p.1 :: q.2)

/-- A step over further values. -/
theorem framed_execute (t : Token) (stack : List Binary64) :
    Framed (· ++ base) (execute ar mode t stack) (execute ar mode t (stack ++ base)) := by
  unfold execute
  cases t.kind with
  | number =>
      dsimp only
      cases Numeral.read t.text with
      | error f => exact .error _ f
      | ok x => exact .ok (x :: stack)
  | identifier =>
      dsimp only
      cases Constant.value t.text with
      | error f => exact .error _ f
      | ok x => exact .ok (x :: stack)
  | call => exact framed_executeCall ar mode base t.text t.argc stack
  | operator => exact framed_executeOperator ar base t.text stack
  | unknown => exact .error _ _

/-! ### Runs -/

/-- A run over further values. -/
theorem framed_executeAll (ts : List Token) (stack : List Binary64) :
    Framed (· ++ base) (executeAll ar mode ts stack) (executeAll ar mode ts (stack ++ base)) := by
  induction ts generalizing stack with
  | nil => exact .ok stack
  | cons t ts ih =>
      rw [executeAll, executeAll]
      exact (framed_execute ar mode base t stack).bind ih

/-- The values below stay where they are all the way, also if the run fails in the end. -/
theorem framed_visited (ts : List Token) (stack : List Binary64) :
    (∃ f, executeAll ar mode ts stack = .error f ∧ f.kind = .stackUnderflow) ∨
      visited ar mode ts (stack ++ base) = (visited ar mode ts stack).map (· ++ base) := by
  induction ts generalizing stack with
  | nil => exact .inr rfl
  | cons t ts ih =>
      rw [executeAll, visited, visited]
      rcases framed_execute ar mode base t stack with ⟨f, hstep, hf⟩ | hover
      · rw [hstep]
        exact .inl ⟨f, rfl, hf⟩
      · rw [hover]
        cases execute ar mode t stack with
        | error f => exact .inr rfl
        | ok next => exact (ih next).imp_right (congrArg fun rest => (next ++ base) :: rest)

/-- A run that goes through on the empty stack goes through over any values, with what it leaves on
    top of them and with all of them below at every moment. If it fails there, and not for want of
    values, it fails in the same way over any values. -/
theorem executeAll_framed (ar : Arithmetic) (mode : AngleMode) (ts : List Token)
    (base : List Binary64) :
    (∀ last, executeAll ar mode ts [] = .ok last →
        executeAll ar mode ts base = .ok (last ++ base) ∧
          visited ar mode ts base = (visited ar mode ts []).map (· ++ base)) ∧
      ∀ f, executeAll ar mode ts [] = .error f → f.kind ≠ .stackUnderflow →
        executeAll ar mode ts base = .error f := by
  have hrun := framed_executeAll ar mode base ts []
  have hway := framed_visited ar mode base ts []
  rw [List.nil_append] at hrun hway
  refine ⟨fun last hlast => ?_, fun f hfail hf => ?_⟩
  · rw [hlast] at hrun hway
    have hsound : ¬ ∃ f, (.ok last : Except Fault (List Binary64)) = .error f ∧
        f.kind = .stackUnderflow := by
      rintro ⟨f, hne, _⟩
      simp only [reduceCtorEq] at hne
    exact ⟨hrun.resolve_left hsound, hway.resolve_left hsound⟩
  · rw [hfail] at hrun
    refine hrun.resolve_left ?_
    rintro ⟨g, hsame, hg⟩
    rw [Except.error.injEq] at hsame
    rw [hsame] at hf
    exact hf hg

-- An infinity below does no harm to a quotient of finite numbers, and a quotient by zero is refused
-- as an operand whatever is below.
theorem executeAll_framed_infinity :
    (executeAll .standard .degrees halfTokens [] = .ok [.half] ∧
        executeAll .standard .degrees halfTokens [.inf true] = .ok [.half, .inf true]) ∧
      Fault.kind (.nonFiniteOperand (.inf false)) ≠ .stackUnderflow ∧
      executeAll .standard .degrees infiniteDivisor [] = .error (.nonFiniteOperand (.inf false)) ∧
      executeAll .standard .degrees infiniteDivisor [.one] =
        .error (.nonFiniteOperand (.inf false)) := by
  have hhalf : executeAll .standard .degrees halfTokens [] = .ok [.half] :=
    Outcome.toOption_eq_some_iff.mp (by decide +kernel)
  have hinfinite : executeAll .standard .degrees infiniteDivisor [] =
      .error (.nonFiniteOperand (.inf false)) := rfl
  have hother : Fault.kind (.nonFiniteOperand (.inf false)) ≠ .stackUnderflow := by decide
  refine ⟨⟨hhalf, ?_⟩, hother, hinfinite, ?_⟩
  · exact ((executeAll_framed .standard .degrees halfTokens [.inf true]).1 _ hhalf).1
  · exact (executeAll_framed .standard .degrees infiniteDivisor [.one]).2 _ hinfinite hother

end Postfix

end DeskCalc
