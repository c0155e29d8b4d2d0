import DeskCalc.Proofs.Faults
import DeskCalc.Proofs.Postfix.Depth

/-!
# Structural Faults Are a Matter of Counting

Whether values run short and whether too many are left over can be told by counting, without the
values. A counter that knows of each token only how many values it needs falls short wherever a
run blames the stack, and where a run blames the number of values left, the counter ends at that
number.

The two are not in step everywhere. A run that takes an infinity off the stack stops there, and
the counter goes on. An operator takes its right operand before it finds out that there is no left
one, and if that operand is infinite it is blamed instead. So a counter that falls short foretells
a failure, but not which one.

Faults other than those of the stack are of other kinds, and this is all that has to be known of
them. `Blames` says of a fault that it is not about values left over, and that it blames the stack
only with cause.

## Main definitions

* `Postfix.needs?`: How many values a token needs.
* `Postfix.tallyAfter?`, `Postfix.tally?`: The counter after a token, and after several.
* `Postfix.Blames`: What a fault may say about the structure.

## Theorems

* `Postfix.tallyAfter?_of_execute`: A step that succeeds keeps the counter in step.
* `Postfix.blames_execute`: A step blames the stack only where the counter falls short.
* `Postfix.blames_executeAll`: So does a run.
* `Postfix.evaluate_counted`: Structural faults are decided by counting.
-/

namespace DeskCalc

namespace Postfix

open Outcome

variable {ar : Arithmetic} {mode : AngleMode}

/-! ### The counter -/

/-- How many values a token needs before it leaves one in their place, if it touches the count at
    all. A call without a count needs one, and one with a negative count none. -/
def needs? (t : Token) : Option Nat :=
  match t.kind with
  | .number | .identifier => some 0
  | .call => some (t.argc.getD 1).toNat
  | .operator => (Operator.ofSymbol? t.text).map Operator.operands
  | .unknown => none

/-- The counter after a token, unless it falls short. -/
def tallyAfter? (n : Nat) (t : Token) : Option Nat :=
  match needs? t with
  | none => some n
  | some k => if n < k then none else some (n - k + 1)

/-- The counter after several tokens, unless it falls short at one of them. -/
def tally? : Nat → List Token → Option Nat
  | n, [] => some n
  | n, t :: ts => (tallyAfter? n t).bind fun m => tally? m ts

theorem tally?_append (n : Nat) (ts us : List Token) :
    tally? n (ts ++ us) = (tally? n ts).bind fun m => tally? m us := by
  induction ts generalizing n with
  | nil => rfl
  | cons t ts ih =>
      rw [List.cons_append, tally?, tally?, Option.bind_assoc]
      exact Option.bind_congr fun m _ => ih m

theorem takes_eq (t : Token) : takes t = (needs? t).getD 0 := by
  unfold takes needs?
  cases t.kind <;> rfl

theorem tallyAfter?_eq_none {t : Token} {n k : Nat} (hk : needs? t = some k) (hn : n < k) :
    tallyAfter? n t = none := by
  simp only [tallyAfter?, hk, if_pos hn]

/-! ### Steps that succeed -/

/-- A step that succeeds keeps the counter in step with the stack. -/
theorem tallyAfter?_of_execute {t : Token} {stack next : List Binary64}
    (h : execute ar mode t stack = .ok next) : tallyAfter? stack.length t = some next.length := by
  have hlength := length_of_execute h
  -- The result is on the new stack, so the values that were needed were on the old one.
  have hsome : 0 < next.length := by
    rcases replaces_of_execute h with ⟨x, _, kept, _, hnext, _⟩
    rw [hnext]
    exact Nat.zero_lt_succ kept.length
  rw [takes_eq] at hlength
  cases hneeds : needs? t with
  | some k =>
      rw [hneeds, Option.getD_some] at hlength
      simp only [tallyAfter?, hneeds, if_neg (by omega : ¬ stack.length < k)]
      exact congrArg some (by omega)
  | none =>
      -- What does not touch the count is no token of a run.
      cases hkind : t.kind with
      | number | identifier | call => simp only [needs?, hkind, reduceCtorEq] at hneeds
      | unknown => simp only [execute, hkind, reduceCtorEq] at h
      | operator =>
          simp only [needs?, hkind, Option.map_eq_none_iff] at hneeds
          simp only [execute, executeOperator, hkind, hneeds, reduceCtorEq] at h

theorem tally?_of_executeAll {ts : List Token} {stack last : List Binary64}
    (h : executeAll ar mode ts stack = .ok last) : tally? stack.length ts = some last.length := by
  induction ts generalizing stack with
  | nil =>
      rw [executeAll, Except.ok.injEq] at h
      rw [tally?, h]
  | cons t ts ih =>
      rw [executeAll] at h
      rcases Outcome.bind_eq_ok h with ⟨next, hstep, hrest⟩
      rw [tally?, tallyAfter?_of_execute hstep, Option.bind_some]
      exact ih hrest

/-! ### Steps that fail -/

/-- What a fault may say about the structure: nothing about values left over, and that values run
    short only where they do. -/
def Blames (short : Prop) (f : Fault) : Prop :=
  f.kind ≠ .invalidExpression ∧ (f.kind = .stackUnderflow → short)

theorem Blames.mono {short shorter : Prop} {f : Fault} (h : Blames short f)
    (himp : short → shorter) : Blames shorter f :=
  ⟨h.1, fun hkind => himp (h.2 hkind)⟩

/-- A fault that is not of the structure may be found anywhere. -/
theorem Blames.other {short : Prop} {f : Fault} (h : f.kind.category ≠ .structural) :
    Blames short f := by
  constructor
  · intro hkind
    exact h (by rw [hkind, FaultKind.category])
  · intro hkind
    exact absurd (by rw [hkind, FaultKind.category]) h

theorem blames_takeOperand (stack : List Binary64) :
    FailsOnly (Blames (stack.length < 1)) (takeOperand stack) := by
  unfold takeOperand
  split
  · exact .error ⟨by decide, fun _ => Nat.zero_lt_one⟩
  · split
    · exact .ok _
    · exact .error (Blames.other nofun)

theorem blames_takeArguments (n : Nat) (args stack : List Binary64) :
    FailsOnly (Blames (stack.length < n)) (takeArguments n args stack) := by
  induction n generalizing args stack with
  | zero => exact .ok _
  | succ n ih =>
      rw [takeArguments]
      refine .bind ((blames_takeOperand stack).mono fun f hf => hf.mono (by omega)) ?_
      rintro ⟨x, rest⟩ htake
      rcases takeOperand_eq_ok htake with ⟨rfl, _⟩
      -- The rest of the arguments runs short of one less.
      refine (ih _ _).mono fun f hf => hf.mono ?_
      intro hrest
      rw [List.length_cons]
      omega

-- Operations on values that have been taken blame the values.
theorem blames_call (short : Prop) (name : String) (args : List Binary64) :
    FailsOnly (Blames short) (Function.call ar mode name args) := by
  refine (Function.failsOnly_call ar mode name args).mono ?_
  rintro f (rfl | ⟨expected, rfl⟩)
  · exact Blames.other nofun
  · exact Blames.other nofun

theorem blames_applyUnary (short : Prop) (symbol : String) (x : Binary64) :
    FailsOnly (Blames short) (Operator.applyUnary ar symbol x) := by
  unfold Operator.applyUnary
  split
  · exact .ok _
  · refine (Operator.failsOnly_factorialOf ar x).mono ?_
    rintro f (⟨rfl, _⟩ | rfl | rfl | ⟨n, rfl⟩)
    · exact Blames.other nofun
    · exact Blames.other nofun
    · exact Blames.other nofun
    · exact Blames.other nofun
  · exact .error (Blames.other nofun)

theorem blames_executeCall (name : String) (argc : Option Int) (stack : List Binary64) :
    FailsOnly (Blames (stack.length < (argc.getD 1).toNat))
      (executeCall ar mode name argc stack) := by
  unfold executeCall
  dsimp only
  split
  · exact .error ⟨nofun, fun _ => by omega⟩
  · refine .bind (blames_takeArguments _ _ _) ?_
    rintro ⟨args, rest⟩ _
    exact (blames_call _ name args).bind fun x _ => .ok _

theorem blames_executeOperator (symbol : String) (stack : List Binary64) :
    FailsOnly (Blames (∃ op, Operator.ofSymbol? symbol = some op ∧ stack.length < op.operands))
      (executeOperator ar symbol stack) := by
  unfold executeOperator
  split
  · exact .error (Blames.other nofun)
  · next op hop =>
      split
      · next hunary =>
          refine .bind ((blames_takeOperand stack).mono fun f hf => hf.mono fun hshort =>
            ⟨op, hop, ?_⟩) ?_
          · rwa [Operator.operands_of_unary hunary]
          · rintro ⟨x, rest⟩ _
            exact (blames_applyUnary _ symbol x).bind fun z _ => .ok _
      · next f hbinary =>
          have hoperands := Operator.operands_of_binary? hbinary
          refine .bind ((blames_takeOperand stack).mono fun f hf => hf.mono fun hshort =>
            ⟨op, hop, by omega⟩) ?_
          rintro ⟨y, rest⟩ htake
          -- The right operand has been taken, so one value more is needed than are left now.
          rcases takeOperand_eq_ok htake with ⟨rfl, _⟩
          refine .bind ((blames_takeOperand rest).mono fun f hf => hf.mono fun hshort =>
            ⟨op, hop, ?_⟩) fun _ _ => .ok _
          rw [List.length_cons]
          omega

/-- A step blames the stack only where the counter falls short. -/
theorem blames_execute (t : Token) (stack : List Binary64) :
    FailsOnly (Blames (tallyAfter? stack.length t = none)) (execute ar mode t stack) := by
  unfold execute
  split
  · refine ((Numeral.failsOnly_read t.text).mono ?_).map _
    rintro f rfl
    exact Blames.other nofun
  · refine ((Constant.failsOnly_value t.text).mono ?_).map _
    rintro f rfl
    exact Blames.other nofun
  · next hkind =>
      refine (blames_executeCall _ _ _).mono fun f hf => hf.mono fun hshort => ?_
      exact tallyAfter?_eq_none (by rw [needs?, hkind]) hshort
  · next hkind =>
      refine (blames_executeOperator _ _).mono fun f hf => hf.mono ?_
      rintro ⟨op, hop, hshort⟩
      exact tallyAfter?_eq_none (by rw [needs?, hkind, hop, Option.map_some]) hshort
  · exact .error (Blames.other nofun)

/-- A run blames the stack only where the counter falls short, which it does at one of its tokens
    and not before. -/
theorem blames_executeAll (ts : List Token) (stack : List Binary64) :
    FailsOnly (Blames (∃ pre t post n, ts = pre ++ t :: post ∧
        tally? stack.length pre = some n ∧ tallyAfter? n t = none))
      (executeAll ar mode ts stack) := by
  induction ts generalizing stack with
  | nil => exact .ok _
  | cons t ts ih =>
      refine .bind ((blames_execute t stack).mono fun f hf => hf.mono fun hshort => ?_) ?_
      · exact ⟨[], t, ts, stack.length, rfl, rfl, hshort⟩
      · intro next hstep
        refine (ih next).mono fun f hf => hf.mono ?_
        rintro ⟨pre, u, post, n, rfl, hpre, hu⟩
        refine ⟨t :: pre, u, post, n, rfl, ?_, hu⟩
        rw [tally?, tallyAfter?_of_execute hstep, Option.bind_some, hpre]

/-! ### Whole lists -/

theorem eq_leftoverValues {stack : List Binary64} {f : Fault} (h : result stack = .error f)
    (hf : f.kind.category = .structural) : f = .leftoverValues stack.length ∧ stack.length ≠ 1 := by
  unfold result at h
  split at h
  · split at h
    · simp only [reduceCtorEq] at h
    · rw [Except.error.injEq] at h
      subst h
      simp only [Fault.kind, FaultKind.category, reduceCtorEq] at hf
  · next hone =>
      rw [Except.error.injEq] at h
      refine ⟨h.symm, ?_⟩
      intro hlength
      rcases List.length_eq_one_iff.mp hlength with ⟨x, rfl⟩
      exact hone x rfl

theorem evaluate_eq_error {ts : List Token} {f : Fault} (h : evaluate ar mode ts = .error f) :
    executeAll ar mode ts [] = .error f ∨
      ∃ last, executeAll ar mode ts [] = .ok last ∧ result last = .error f := by
  unfold evaluate at h
  cases hrun : executeAll ar mode ts [] with
  | error g =>
      simp only [hrun, bind, Except.bind, Except.error.injEq] at h
      rw [h]
      exact .inl rfl
  | ok last =>
      simp only [hrun, bind, Except.bind] at h
      exact .inr ⟨last, rfl, h⟩

/-- Structural faults are decided by counting. A value needs a count of one; what a list leaves
    over is what the counter ends at; values run short only where the counter falls short; and
    where it does, no list that goes on from there has a value. -/
theorem evaluate_counted (ar : Arithmetic) (mode : AngleMode) (ts : List Token) :
    (∀ x, evaluate ar mode ts = .ok x → tally? 0 ts = some 1) ∧
      (∀ f, evaluate ar mode ts = .error f → f.kind = .invalidExpression →
        ∃ n, f = .leftoverValues n ∧ tally? 0 ts = some n ∧ n ≠ 1) ∧
      (∀ f, evaluate ar mode ts = .error f → f.kind = .stackUnderflow →
        ∃ pre t post n, ts = pre ++ t :: post ∧ tally? 0 pre = some n ∧
          tallyAfter? n t = none) ∧
      ∀ pre t n rest, ts = pre ++ t :: rest → tally? 0 pre = some n → tallyAfter? n t = none →
        ∀ post, ∃ f, evaluate ar mode (pre ++ t :: post) = .error f := by
  have hvalue : ∀ {us x}, evaluate ar mode us = .ok x → tally? 0 us = some 1 := by
    intro us x hx
    exact tally?_of_executeAll (evaluate_eq_ok hx).1
  refine ⟨fun x => hvalue, ?_, ?_, ?_⟩
  · intro f h hf
    rcases evaluate_eq_error h with hrun | ⟨last, hrun, hresult⟩
    · exact absurd hf (blames_executeAll ts [] f hrun).1
    · rcases eq_leftoverValues hresult (by rw [hf, FaultKind.category]) with ⟨hleft, hone⟩
      exact ⟨last.length, hleft, tally?_of_executeAll hrun, hone⟩
  · intro f h hf
    rcases evaluate_eq_error h with hrun | ⟨last, hrun, hresult⟩
    · exact (blames_executeAll ts [] f hrun).2 hf
    · -- Once all tokens have been executed, the stack has not run short.
      rcases eq_leftoverValues hresult (by rw [hf, FaultKind.category]) with ⟨rfl, _⟩
      simp only [Fault.kind, reduceCtorEq] at hf
  · intro pre t n rest _ hpre hshort post
    -- A value would need a count of one, whatever follows.
    cases hout : evaluate ar mode (pre ++ t :: post) with
    | error f => exact ⟨f, rfl⟩
    | ok x =>
        have hcount := hvalue hout
        rw [tally?_append, hpre, Option.bind_some, tally?, hshort] at hcount
        simp only [Option.bind_none, reduceCtorEq] at hcount

-- A quotient leaves one value. Two numbers leave one over, and an operator with one operand runs
-- short whatever follows it.
theorem evaluate_counted_leftover :
    tally? 0 halfTokens = some 1 ∧
      (∃ n, Fault.leftoverValues 2 = .leftoverValues n ∧
        tally? 0 [.number "2", .number "3"] = some n ∧ n ≠ 1) ∧
      (∃ pre t post n, [.number "2", .operator "+"] = pre ++ t :: post ∧
        tally? 0 pre = some n ∧ tallyAfter? n t = none) ∧
      ∀ post, ∃ f, evaluate .standard .degrees (.number "2" :: .operator "+" :: post) =
        .error f := by
  have hhalf : evaluate .standard .degrees halfTokens = .ok .half :=
    Outcome.toOption_eq_some_iff.mp (by decide +kernel)
  have htwo : evaluate .standard .degrees [.number "2", .number "3"] =
      .error (.leftoverValues 2) := rfl
  have hplus : evaluate .standard .degrees [.number "2", .operator "+"] =
      .error .missingOperand := rfl
  refine ⟨?_, ?_, ?_, ?_⟩
  · exact (evaluate_counted .standard .degrees halfTokens).1 _ hhalf
  · exact (evaluate_counted .standard .degrees _).2.1 _ htwo rfl
  · exact (evaluate_counted .standard .degrees _).2.2.1 _ hplus rfl
  · exact (evaluate_counted .standard .degrees [.number "2", .operator "+"]).2.2.2
      [.number "2"] (.operator "+") 1 [] rfl rfl rfl

end Postfix

end DeskCalc
