import DeskCalc.Evaluation
import DeskCalc.Proofs.Faults
import DeskCalc.Proofs.Postfix.Effect
import DeskCalc.Proofs.Postfix.Finiteness

/-!
# What Can Be Wrong With a Typed Text

Conversion and evaluation take any list of tokens, and have faults for lists that no text leads
to. Here it is shown which faults are left when a text is typed.

The faults are excluded one after the other. Scanning makes no call tokens, and what it calls an
operator is one; conversion of such tokens does not complain of them. What conversion puts out can
be applied, whatever it was given: an operator token holds the symbol of an operator, and a call
has an argument. The machine, on such tokens, does not find a symbol that it does not know or a
function without arguments, and it has looked at an operand before it takes the factorial of it.

So each step has its own small list of what can go wrong, and the steps together have no more
than these (`Outcome.FailsOnly`).

## Main definitions

* `Fault.OfText`, `Failure.OfText`: The faults of typed texts.
* `Token.IsTyped`: The tokens of typed texts.
* `Postfix.Applicable`: The tokens that conversion puts out.

## Theorems

* `Scan.isTyped_of_mem_tokens`: Scanning makes typed tokens.
* `Postfix.failsOnly_ofTokens`: How conversion of these fails.
* `Postfix.applicable_of_ofTokens`: What conversion puts out can be applied.
* `Postfix.failsOnly_execute`: How a step of the machine fails.
* `Evaluator.evaluate_closed`: A typed text has a finite value or one of the faults.
-/

namespace DeskCalc

open Outcome

/-! ### The faults of typed texts -/

/-- The faults that a typed text can have. -/
def Fault.OfText (f : Fault) : Prop :=
  f.kind ∉ [.unexpectedToken, .unclosedFunctionCall, .unsupportedOperator, .invalidFactorial] ∧
    ∀ expected, f ≠ .arityMismatch expected 0

/-- A symbol without a precedence is not among them. -/
def Failure.OfText (e : Failure) : Prop := ∃ f : Fault, e = .fault f ∧ f.OfText

/-- The kinds of which a typed text can have every fault. -/
def FaultKind.isOfText : FaultKind → Bool
  | .unexpectedToken | .unclosedFunctionCall | .unsupportedOperator | .invalidFactorial => false
  | .arityMismatch => false
  | _ => true

/-- For these the kind says enough. -/
theorem Fault.OfText.of_kind {f : Fault} (h : f.kind.isOfText = true) : f.OfText := by
  refine ⟨fun hkind => ?_, fun expected hf => ?_⟩
  · simp only [List.mem_cons, List.not_mem_nil, or_false] at hkind
    rcases hkind with hkind | hkind | hkind | hkind <;> rw [hkind] at h <;> exact Bool.noConfusion h
  · rw [hf] at h
    exact Bool.noConfusion h

/-- A count of arguments is blamed only if there are some. -/
theorem Fault.OfText.arityMismatch (expected : Arity) {got : Nat} (hgot : 0 < got) :
    (Fault.arityMismatch expected got).OfText := by
  have hkind : FaultKind.arityMismatch ∉ [FaultKind.unexpectedToken, .unclosedFunctionCall,
      .unsupportedOperator, .invalidFactorial] := by
    decide
  refine ⟨hkind, fun other h => ?_⟩
  rw [Fault.arityMismatch.injEq] at h
  omega

/-! ### Scanning -/

/-- The tokens that a typed text has: none is a call, and what is an operator has a meaning. -/
def Token.IsTyped (t : Token) : Prop :=
  t.kind ≠ .call ∧ (t.kind = .operator → ∃ s, Symbol.ofText? t.text = some s)

/-- The characters that scanning takes for operators have a meaning. -/
theorem Scan.isTyped_of_isSymbol {c : Char} (hc : Scan.isSymbol c = true) :
    Token.IsTyped (.operator (String.singleton c)) := by
  refine ⟨TokenKind.noConfusion, fun _ => ?_⟩
  rw [← Option.isSome_iff_exists]
  change (Symbol.ofText? (String.singleton c)).isSome = true
  rw [Scan.isSymbol, List.contains_iff_mem] at hc
  simp only [List.mem_cons, List.not_mem_nil, or_false] at hc
  rcases hc with rfl | rfl | rfl | rfl | rfl | rfl | rfl | rfl | rfl | rfl <;> decide

/-- Scanning makes typed tokens. -/
theorem Scan.isTyped_of_mem_tokens (cs : List Char) : ∀ t ∈ Scan.tokens cs, t.IsTyped := by
  -- Numbers, names and characters without a meaning are of other kinds than those in question.
  fun_induction Scan.tokens cs with
  | case1 => exact fun t ht => absurd ht List.not_mem_nil
  | case2 c rest _ ih => exact ih
  | case3 c rest _ _ ih =>
      exact List.forall_mem_cons.mpr ⟨⟨TokenKind.noConfusion, TokenKind.noConfusion⟩, ih⟩
  | case4 c rest _ _ _ ih =>
      exact List.forall_mem_cons.mpr ⟨⟨TokenKind.noConfusion, TokenKind.noConfusion⟩, ih⟩
  | case5 c rest _ _ _ hsymbol ih =>
      exact List.forall_mem_cons.mpr ⟨Scan.isTyped_of_isSymbol hsymbol, ih⟩
  | case6 c rest _ _ _ _ ih =>
      exact List.forall_mem_cons.mpr ⟨⟨TokenKind.noConfusion, TokenKind.noConfusion⟩, ih⟩

namespace Postfix

variable {ar : Arithmetic} {mode : AngleMode}

/-! ### Conversion -/

/-- What is wrong with a typed token is not its kind, and an operator is not without a meaning. -/
theorem ofText_of_offence {earlier before : Option Token} {depth : Nat} {t : Token}
    {failure : Failure} (ht : t.IsTyped) (h : offence? earlier before depth t = some failure) :
    failure.OfText := by
  rcases offence?_eq_some h with ⟨_, rfl⟩ | ⟨hkind, _⟩ | ⟨hkind, hnone, _⟩ | rfl | rfl | ⟨name, rfl⟩
  · exact ⟨_, rfl, .of_kind rfl⟩
  · exact absurd hkind ht.1
  · rcases ht.2 hkind with ⟨s, hs⟩
    rw [hnone] at hs
    simp only [reduceCtorEq] at hs
  · exact ⟨_, rfl, .of_kind rfl⟩
  · exact ⟨_, rfl, .of_kind rfl⟩
  · exact ⟨_, rfl, .of_kind rfl⟩

/-- Conversion of typed tokens fails as typed texts do. -/
theorem failsOnly_ofTokens {ts : List Token} (hts : ∀ t ∈ ts, t.IsTyped) :
    FailsOnly Failure.OfText (ofTokens ts) := by
  -- What conversion fails with is what the count of brackets holds against one of the tokens.
  have hagrees := ofTokens_agrees ts
  cases hverdict : verdict? ts with
  | none =>
      rw [hverdict] at hagrees
      rcases hagrees with ⟨out, hout⟩
      rw [hout]
      exact .ok out
  | some failure =>
      rw [hverdict] at hagrees
      change ofTokens ts = .error failure at hagrees
      rw [hagrees]
      refine .error ?_
      rcases verdict?_eq_some hverdict with ⟨t, ht, _, _, _, hoffence⟩ | hlast
      · exact ofText_of_offence (hts t ht) hoffence
      · rw [hlast]
        exact ⟨_, rfl, .of_kind rfl⟩

/-- The tokens that conversion puts out: an operator is one, and not a bracket, and a call has an
    argument. -/
def Applicable (t : Token) : Prop :=
  match t.kind with
  | .number => True
  | .identifier => True
  | .operator => ∃ op, Operator.ofSymbol? t.text = some op
  | .call => ∃ argc : Nat, 0 < argc ∧ t.argc = some (argc : Int)
  | .unknown => False

theorem applicable_operator (op : Operator) (argc : Option Int) :
    Applicable ⟨.operator, op.symbol, argc⟩ :=
  ⟨op, Operator.ofSymbol?_symbol op⟩

theorem applicable_released (pending : List Entry) :
    ∀ t ∈ pending.filterMap Entry.released?, Applicable t :=
  forall_released applicable_operator pending

/-- What a step puts out can be applied. -/
theorem Effect.applicable {before next : Option Token} {t : Token} {stack rest : List Entry}
    {out : List Token} (h : Effect before next t stack out rest) : ∀ u ∈ out, Applicable u := by
  cases h with
  | operand hkind =>
      rw [List.forall_mem_singleton, Applicable]
      rcases hkind with hkind | ⟨hkind, _⟩ <;> rw [hkind] <;> trivial
  | name _ _ => exact fun u hu => absurd hu List.not_mem_nil
  | opening _ => exact fun u hu => absurd hu List.not_mem_nil
  | @comma pending below _ _ => exact applicable_released pending
  | @group pending below _ _ _ => exact applicable_released pending
  | @sign pending below _ _ _ _ => exact applicable_released pending
  | @operator pending below op _ _ _ _ _ => exact applicable_released pending
  | @call pending below name argc _ _ hargc =>
      refine List.forall_mem_append.mpr ⟨applicable_released pending, ?_⟩
      rw [List.forall_mem_singleton]
      exact ⟨argc, hargc, rfl⟩
  | @factorial pending below ht _ _ =>
      refine List.forall_mem_append.mpr ⟨applicable_released pending, ?_⟩
      rw [List.forall_mem_singleton, ← token_eq ht]
      exact applicable_operator .factorial t.argc

theorem applicable_of_run {before after : Option Token} {ts out : List Token}
    {stack rest : List Entry} (h : run before after ts stack = .ok (out, rest)) :
    ∀ u ∈ out, Applicable u := by
  induction ts generalizing before stack out with
  | nil =>
      rw [run, Except.ok.injEq, Prod.mk.injEq] at h
      rw [← h.1]
      exact fun u hu => absurd hu List.not_mem_nil
  | cons t ts ih =>
      rcases run_cons_eq_ok h with ⟨first, mid, more, hstep, hmore, rfl⟩
      exact List.forall_mem_append.mpr ⟨(effect_of_step hstep).applicable, ih hmore⟩

/-- What conversion puts out can be applied. -/
theorem applicable_of_ofTokens {ts out : List Token} (h : ofTokens ts = .ok out) :
    ∀ u ∈ out, Applicable u := by
  rcases ofTokens_eq_ok h with ⟨first, stack, hrun, _, rfl⟩
  exact List.forall_mem_append.mpr ⟨applicable_of_run hrun, applicable_released stack⟩

/-! ### The machine -/

theorem failsOnly_takeOperand (stack : List Binary64) :
    FailsOnly Fault.OfText (takeOperand stack) := by
  match stack with
  | [] => exact .error (.of_kind rfl)
  | x :: stack =>
      rw [takeOperand]
      split
      · exact .ok _
      · exact .error (.of_kind rfl)

theorem failsOnly_takeArguments (n : Nat) (args stack : List Binary64) :
    FailsOnly Fault.OfText (takeArguments n args stack) := by
  induction n generalizing args stack with
  | zero => exact .ok _
  | succ n ih =>
      rw [takeArguments]
      exact (failsOnly_takeOperand stack).bind fun p _ => ih _ p.2

/-- A function that has an argument can only have the wrong number of them. -/
theorem failsOnly_functionCall (name : String) {args : List Binary64} (hargs : 0 < args.length) :
    FailsOnly Fault.OfText (Function.call ar mode name args) := by
  refine (Function.failsOnly_call ar mode name args).mono ?_
  rintro f (rfl | ⟨expected, rfl⟩)
  · exact .of_kind rfl
  · exact .arityMismatch expected hargs

theorem failsOnly_executeCall (name : String) {argc : Nat} (hargc : 0 < argc)
    (stack : List Binary64) :
    FailsOnly Fault.OfText (executeCall ar mode name (some (argc : Int)) stack) := by
  rw [executeCall]
  simp only [Option.getD_some, Int.toNat_natCast]
  split
  · exact .error (.of_kind rfl)
  · refine (failsOnly_takeArguments argc [] stack).bind fun p hp => ?_
    -- The function is given as many arguments as the token says.
    rcases takeArguments_eq_ok hp with ⟨taken, _, hall, hlength, _⟩
    have hargs : 0 < p.1.length := by
      rw [hall, List.append_nil, List.length_reverse, hlength]
      exact hargc
    exact (failsOnly_functionCall name hargs).bind fun x _ => .ok _

/-- The factorial of a finite number may be undefined or too large, but it is not refused for an
    infinity. -/
theorem failsOnly_factorialOf {x : Binary64} (hx : x.isFinite = true) :
    FailsOnly Fault.OfText (Operator.factorialOf ar x) := by
  refine (Operator.failsOnly_factorialOf ar x).mono ?_
  rintro f (⟨_, hinfinite⟩ | rfl | rfl | ⟨n, rfl⟩)
  · rw [hx] at hinfinite
    exact Bool.noConfusion hinfinite
  · exact .of_kind rfl
  · exact .of_kind rfl
  · exact .of_kind rfl

/-- An operator without a binary operation has a unary one. -/
theorem failsOnly_applyUnary {op : Operator} (hop : op.binary? ar = none) {x : Binary64}
    (hx : x.isFinite = true) : FailsOnly Fault.OfText (Operator.applyUnary ar op.symbol x) := by
  rw [Operator.applyUnary, Operator.ofSymbol?_symbol]
  cases op with
  | negate => exact .ok _
  | factorial => exact failsOnly_factorialOf hx
  | power | times | divide | remainder | plus | minus =>
      simp only [Operator.binary?, reduceCtorEq] at hop

theorem failsOnly_executeOperator (op : Operator) (stack : List Binary64) :
    FailsOnly Fault.OfText (executeOperator ar op.symbol stack) := by
  rw [executeOperator, Operator.ofSymbol?_symbol]
  dsimp only
  cases hbinary : op.binary? ar with
  | none =>
      refine (failsOnly_takeOperand stack).bind fun p hp => ?_
      have hfinite := (takeOperand_eq_ok hp).2
      exact (failsOnly_applyUnary hbinary hfinite).bind fun z _ => .ok _
  | some f =>
      refine (failsOnly_takeOperand stack).bind fun p _ => ?_
      exact (failsOnly_takeOperand p.2).bind fun q _ => .ok _

/-- A step on a token that can be applied fails as typed texts do. -/
theorem failsOnly_execute {t : Token} (ht : Applicable t) (stack : List Binary64) :
    FailsOnly Fault.OfText (execute ar mode t stack) := by
  rw [Applicable] at ht
  cases hkind : t.kind with
  | number =>
      simp only [execute, hkind]
      refine .map _ ((Numeral.failsOnly_read t.text).mono ?_)
      rintro f rfl
      exact .of_kind rfl
  | identifier =>
      simp only [execute, hkind]
      refine .map _ ((Constant.failsOnly_value t.text).mono ?_)
      rintro f rfl
      exact .of_kind rfl
  | call =>
      simp only [hkind] at ht
      rcases ht with ⟨argc, hargc, hcount⟩
      simp only [execute, hkind, hcount]
      exact failsOnly_executeCall t.text hargc stack
  | operator =>
      simp only [hkind] at ht
      rcases ht with ⟨op, hop⟩
      simp only [execute, hkind, Operator.eq_symbol_of_ofSymbol? hop]
      exact failsOnly_executeOperator op stack
  | unknown => simp only [hkind] at ht

theorem failsOnly_executeAll {ts : List Token} (hts : ∀ t ∈ ts, Applicable t)
    (stack : List Binary64) : FailsOnly Fault.OfText (executeAll ar mode ts stack) := by
  induction ts generalizing stack with
  | nil => exact .ok stack
  | cons t ts ih =>
      rcases List.forall_mem_cons.mp hts with ⟨ht, hrest⟩
      rw [executeAll]
      exact (failsOnly_execute ht stack).bind fun next _ => ih hrest next

theorem failsOnly_result (stack : List Binary64) : FailsOnly Fault.OfText (result stack) := by
  rw [result.eq_def]
  split
  · split
    · exact .ok _
    · exact .error (.of_kind rfl)
  · exact .error (.of_kind rfl)

theorem failsOnly_evaluate {ts : List Token} (hts : ∀ t ∈ ts, Applicable t) :
    FailsOnly Fault.OfText (evaluate ar mode ts) :=
  (failsOnly_executeAll hts []).bind fun stack _ => failsOnly_result stack

end Postfix

/-! ### The whole way -/

namespace Expression

theorem failsOnly_value (ar : Arithmetic) (mode : AngleMode) (text : String) :
    FailsOnly Failure.OfText (value ar mode text) := by
  have htyped := Scan.isTyped_of_mem_tokens text.toList
  -- The machine is only started on what conversion has put out.
  refine (Postfix.failsOnly_ofTokens htyped).bind fun ts hts => .mapError ?_
  intro f hf
  exact ⟨f, rfl, Postfix.failsOnly_evaluate (Postfix.applicable_of_ofTokens hts) f hf⟩

theorem isFinite_of_value {ar : Arithmetic} {mode : AngleMode} {text : String} {x : Binary64}
    (h : value ar mode text = .ok x) : x.isFinite = true := by
  rcases bind_eq_ok h with ⟨ts, _, hx⟩
  exact (Postfix.evaluate_eq_ok (mapError_eq_ok_iff.mp hx)).2

end Expression

/-- A text has a finite value, or one of the faults that a typed text can have, in each angle
    mode and whatever the arithmetic. Its evaluation keeps the text and the mode, and reports the
    value and no fault, or the fault's kind and no value. -/
theorem Evaluator.evaluate_closed (ar : Arithmetic) (e : Evaluator) (text : String)
    (mode : Option AngleMode) :
    (e.evaluate ar text mode).expression = text ∧
      (e.evaluate ar text mode).mode = mode.getD e.mode ∧
      ((∃ x, Expression.value ar (mode.getD e.mode) text = .ok x ∧ x.isFinite = true ∧
          (e.evaluate ar text mode).value? = some x ∧ (e.evaluate ar text mode).kind? = none) ∨
        ∃ f, Expression.value ar (mode.getD e.mode) text = .error (.fault f) ∧
          f.kind ∉ [.unexpectedToken, .unclosedFunctionCall, .unsupportedOperator,
            .invalidFactorial] ∧
          (∀ expected, f ≠ .arityMismatch expected 0) ∧
          (e.evaluate ar text mode).value? = none ∧
          (e.evaluate ar text mode).kind? = some f.kind) := by
  refine ⟨rfl, rfl, ?_⟩
  -- What is reported is all read off the one outcome.
  simp only [Evaluator.evaluate, Evaluation.value?, Evaluation.kind?, Evaluation.failure?]
  cases hvalue : Expression.value ar (mode.getD e.mode) text with
  | ok x => exact .inl ⟨x, rfl, Expression.isFinite_of_value hvalue, rfl, rfl⟩
  | error failure =>
      rcases Expression.failsOnly_value _ _ _ _ hvalue with ⟨f, rfl, hkind, hcount⟩
      exact .inr ⟨f, rfl, hkind, hcount, rfl, rfl⟩

end DeskCalc
