import DeskCalc.Proofs.Outcome
import DeskCalc.Proofs.Postfix.Brackets
import DeskCalc.Proofs.Postfix.Release
import Mathlib.Data.List.TakeWhile

/-!
# What One Token Does

Everything that a successful step of conversion can be, case by case, so that what a step
preserves can be proved without looking at its definition.

The cases are those of the token, with the stack cut where the release stops. What is released
is given as a list of entries on top of the rest, and of these it is known that they satisfy the
predicate they were released by, and of the rest that it starts with one that does not.

A comma and a closing bracket release everything down to a bracket, and calls wait on the stack
too. A released call would be lost, since only operators have a token to become. That this never
happens is a property of the stacks that conversion meets, not of the step
(`Tracks.operators_above_opening`).

## Main definitions

* `Postfix.Entry.isOperator`: The entries that have a token to become.
* `Postfix.Effect`: What a token does to the output and to the stack.

## Theorems

* `Postfix.effect_of_step`: A successful step is one of the cases.
* `Postfix.run_cons_eq_ok`, `Postfix.run_append_eq_ok`, `Postfix.ofTokens_eq_ok`: Successful runs,
  taken apart.
* `Postfix.Tracks.of_step`: A successful step keeps what is known between two tokens.
* `Postfix.Tracks.operators_above_opening`: No call waits above the innermost bracket.
-/

namespace DeskCalc

namespace Postfix

namespace Entry

/-- Whether the entry is an operator. -/
def isOperator : Entry → Bool
  | .operator .. => true
  | _ => false

theorem isOperator_of_yieldsTo {e : Entry} {op : Operator} (h : e.yieldsTo op = true) :
    e.isOperator = true := by
  match e with
  | .operator .. => rfl

theorem isOperator_of_isSign {e : Entry} (h : e.isSign = true) : e.isOperator = true := by
  rw [eq_of_beq h]
  rfl

theorem eq_opening_of_isOpening {e : Entry} (h : e.isOpening = true) : e = .opening := by
  match e with
  | .opening => rfl

end Entry

theorem kind_of_isSymbol {t : Token} {s : Symbol} (h : isSymbol t s = true) :
    t.kind = .operator := by
  rw [isSymbol, Bool.and_eq_true, beq_iff_eq] at h
  exact h.1

theorem text_of_isSymbol {t : Token} {s : Symbol} (h : isSymbol t s = true) : t.text = s.text := by
  rw [isSymbol, Bool.and_eq_true, beq_iff_eq, beq_iff_eq, Symbol.ofText?_eq_some_iff] at h
  exact h.2

/-- A token of one symbol is of no other. -/
theorem isSymbol_other {t : Token} {s : Symbol} (h : isSymbol t s = true) (m : Symbol) :
    isSymbol t m = (s == m) := by
  refine isSymbol_eq (kind_of_isSymbol h) ?_ m
  rw [text_of_isSymbol h, Symbol.ofText?_text]

/-- An operator's token is made of its symbol and of the count that it carries. -/
theorem token_eq {t : Token} {op : Operator} (ht : isSymbol t (.operator op) = true) :
    (⟨.operator, op.symbol, t.argc⟩ : Token) = t := by
  rcases t with ⟨kind, text, argc⟩
  rw [Token.mk.injEq]
  exact ⟨(kind_of_isSymbol ht).symm, (text_of_isSymbol ht).symm, rfl⟩

/-- A step on a token of a symbol is the symbol's effect. -/
theorem step_of_isSymbol (before next : Option Token) {t : Token} {s : Symbol}
    (ht : isSymbol t s = true) (stack : List Entry) :
    step before next t stack = stepSymbol before next t stack s := by
  rw [step]
  simp only [kind_of_isSymbol ht, text_of_isSymbol ht, Symbol.ofText?_text]

/-- Only operators are released. -/
theorem forall_released {P : Token → Prop}
    (hP : ∀ (op : Operator) (argc : Option Int), P ⟨.operator, op.symbol, argc⟩)
    (pending : List Entry) : ∀ t ∈ pending.filterMap Entry.released?, P t := by
  intro t ht
  rcases List.mem_filterMap.mp ht with ⟨e, _, he⟩
  match e with
  | .operator op argc =>
      rw [Entry.released?, Option.some.injEq] at he
      rw [← he]
      exact hP op argc

theorem filter_released {p : Token → Bool}
    (hp : ∀ (op : Operator) (argc : Option Int), p ⟨.operator, op.symbol, argc⟩ = false)
    (pending : List Entry) : (pending.filterMap Entry.released?).filter p = [] := by
  rw [List.filter_eq_nil_iff]
  refine forall_released (fun op argc => ?_) pending
  rw [hp]
  exact Bool.false_ne_true

/-- What a token does between its neighbours: the stack before it, the tokens that it puts out,
    and the stack after it. -/
inductive Effect (before next : Option Token) (t : Token) :
    List Entry → List Token → List Entry → Prop
  /-- A number goes to the output, and so does a name that no bracket follows. -/
  | operand {stack : List Entry}
      (hkind : t.kind = .number ∨ t.kind = .identifier ∧ isNext .opening next = false) :
      Effect before next t stack [t] stack
  /-- A name that a bracket follows waits for its arguments. -/
  | name {stack : List Entry} (hkind : t.kind = .identifier)
      (hnext : isNext .opening next = true) :
      Effect before next t stack [] (.call t.text 0 :: stack)
  /-- A comma releases what its argument has left. -/
  | comma {pending below : List Entry} (ht : isSymbol t .comma = true)
      (hpending : ∀ e ∈ pending, e.isOpening = false) :
      Effect before next t (pending ++ .opening :: below) (pending.filterMap Entry.released?)
        (.opening :: countComma below)
  /-- An opening bracket waits, on top of its call if it has one. -/
  | opening {stack : List Entry} (ht : isSymbol t .opening = true) :
      Effect before next t stack [] (.opening :: openCall next stack)
  /-- A closing bracket of a group takes the opening one away. -/
  | group {pending below : List Entry} (ht : isSymbol t .closing = true)
      (hpending : ∀ e ∈ pending, e.isOpening = false)
      (hbelow : ∀ e ∈ below.head?, e.isCall = false) :
      Effect before next t (pending ++ .opening :: below) (pending.filterMap Entry.released?) below
  /-- A closing bracket of a call completes it. -/
  | call {pending below : List Entry} (name : String) {argc : Nat} (ht : isSymbol t .closing = true)
      (hpending : ∀ e ∈ pending, e.isOpening = false) (hargc : 0 < argc) :
      Effect before next t (pending ++ .opening :: .call name argc :: below)
        (pending.filterMap Entry.released? ++ [.call name argc]) below
  /-- A minus sign where an operand has to start waits as a sign. -/
  | sign {pending below : List Entry} (ht : isSymbol t (.operator .minus) = true)
      (hbefore : startsOperand before = true) (hpending : ∀ e ∈ pending, e.yieldsTo .negate = true)
      (hbelow : ∀ e ∈ below.head?, e.yieldsTo .negate = false) :
      Effect before next t (pending ++ below) (pending.filterMap Entry.released?)
        (.operator .negate none :: below)
  /-- Any other operator waits as what it is. -/
  | operator {pending below : List Entry} (op : Operator) (ht : isSymbol t (.operator op) = true)
      (hop : op ≠ .factorial) (hbefore : op = .minus → startsOperand before = false)
      (hpending : ∀ e ∈ pending, e.yieldsTo op = true)
      (hbelow : ∀ e ∈ below.head?, e.yieldsTo op = false) :
      Effect before next t (pending ++ below) (pending.filterMap Entry.released?)
        (.operator op t.argc :: below)
  /-- A factorial follows its operand, and the signs that belong to it, to the output. -/
  | factorial {pending below : List Entry} (ht : isSymbol t (.operator .factorial) = true)
      (hpending : ∀ e ∈ pending, e.isSign = true) (hbelow : ∀ e ∈ below.head?, e.isSign = false) :
      Effect before next t (pending ++ below) (pending.filterMap Entry.released? ++ [t]) below

/-! ### Steps, taken apart -/

/-- A release cuts the stack where the predicate first fails. -/
theorem release_eq (p : Entry → Bool) (stack : List Entry) :
    ∃ pending below, stack = pending ++ below ∧
      release p stack = (pending.filterMap Entry.released?, below) ∧
      (∀ e ∈ pending, p e = true) ∧ ∀ e ∈ below.head?, p e = false := by
  refine ⟨stack.takeWhile p, stack.dropWhile p, List.takeWhile_append_dropWhile.symm, rfl,
    fun e he => List.mem_takeWhile_imp he, ?_⟩
  intro e he
  have hhead := List.head?_dropWhile_not p stack
  rw [Option.mem_def] at he
  rw [he] at hhead
  exact hhead

/-- Down to the innermost bracket, if there is one. -/
theorem release_to_bracket (stack : List Entry) :
    (∃ out, release (fun e => !e.isOpening) stack = (out, [])) ∨
      ∃ pending below, stack = pending ++ .opening :: below ∧
        release (fun e => !e.isOpening) stack =
          (pending.filterMap Entry.released?, .opening :: below) ∧
        ∀ e ∈ pending, e.isOpening = false := by
  rcases release_eq (fun e => !e.isOpening) stack with ⟨pending, below, hstack, hrel, hpend, hhead⟩
  match below with
  | [] => exact .inl ⟨_, hrel⟩
  | e :: below =>
      have he : e = .opening := by
        have hnot := hhead e rfl
        rw [Bool.not_eq_false'] at hnot
        exact Entry.eq_opening_of_isOpening hnot
      subst he
      refine .inr ⟨pending, below, hstack, hrel, fun e he => ?_⟩
      have hnot := hpend e he
      rwa [Bool.not_eq_true'] at hnot

theorem pushOperator_eq (op : Operator) (argc : Option Int) (stack : List Entry) :
    ∃ pending below, stack = pending ++ below ∧
      pushOperator op argc stack =
        (pending.filterMap Entry.released?, .operator op argc :: below) ∧
      (∀ e ∈ pending, e.yieldsTo op = true) ∧ ∀ e ∈ below.head?, e.yieldsTo op = false := by
  rcases release_eq (Entry.yieldsTo op) stack with ⟨pending, below, hstack, hrel, hpend, hhead⟩
  refine ⟨pending, below, hstack, ?_, hpend, hhead⟩
  rw [pushOperator, hrel]

/-- An operator that waits as what it is. -/
theorem effect_of_pushOperator (before next : Option Token) {t : Token} {op : Operator}
    {stack rest : List Entry} {out : List Token} (ht : isSymbol t (.operator op) = true)
    (hop : op ≠ .factorial) (hbefore : op = .minus → startsOperand before = false)
    (h : pushOperator op t.argc stack = (out, rest)) : Effect before next t stack out rest := by
  rcases pushOperator_eq op t.argc stack with ⟨pending, below, rfl, hpush, hpend, hhead⟩
  rw [hpush, Prod.mk.injEq] at h
  rw [← h.1, ← h.2]
  exact .operator op ht hop hbefore hpend hhead

theorem effect_of_stepOperator {before next : Option Token} {t : Token} {stack rest : List Entry}
    {out : List Token} {op : Operator} (ht : isSymbol t (.operator op) = true)
    (h : stepSymbol before next t stack (.operator op) = .ok (out, rest)) :
    Effect before next t stack out rest := by
  -- The factorial does not wait, and a minus may wait as a sign. All others wait as they are.
  cases op with
  | factorial =>
      rcases release_eq Entry.isSign stack with ⟨pending, below, rfl, hrel, hpend, hhead⟩
      rw [stepSymbol, hrel, Except.ok.injEq, Prod.mk.injEq] at h
      rw [← h.1, ← h.2]
      exact .factorial ht hpend hhead
  | minus =>
      by_cases hbefore : startsOperand before = true
      · rcases pushOperator_eq .negate none stack with ⟨pending, below, rfl, hpush, hpend, hhead⟩
        rw [stepSymbol, if_pos hbefore, hpush, Except.ok.injEq, Prod.mk.injEq] at h
        rw [← h.1, ← h.2]
        exact .sign ht hbefore hpend hhead
      · rw [stepSymbol, if_neg hbefore, Except.ok.injEq] at h
        have hafter : startsOperand before = false := Bool.eq_false_iff.mpr hbefore
        exact effect_of_pushOperator before next ht Operator.noConfusion (fun _ => hafter) h
  | negate | power | times | divide | remainder | plus =>
      rw [stepSymbol.eq_def, Except.ok.injEq] at h
      exact effect_of_pushOperator before next ht Operator.noConfusion Operator.noConfusion h

theorem closeBracket_eq_ok {below rest : List Entry} {out : List Token}
    (h : closeBracket below = .ok (out, rest)) :
    (out = [] ∧ rest = below ∧ ∀ e ∈ below.head?, e.isCall = false) ∨
      ∃ name argc, below = .call name argc :: rest ∧ out = [.call name argc] ∧ 0 < argc := by
  match below with
  | .call name argc :: below =>
      -- Only a call with an argument is completed.
      rw [closeBracket] at h
      by_cases hargc : argc < 1
      · rw [if_pos hargc] at h
        exact absurd h (by simp only [reduceCtorEq, not_false_eq_true])
      · rw [if_neg hargc, Except.ok.injEq, Prod.mk.injEq] at h
        refine .inr ⟨name, argc, ?_, h.1.symm, by omega⟩
        rw [h.2]
  | [] | .operator _ _ :: _ | .opening :: _ =>
      rw [closeBracket.eq_def, Except.ok.injEq, Prod.mk.injEq] at h
      refine .inl ⟨h.1.symm, h.2.symm, ?_⟩
      rintro e ⟨⟩ <;> rfl

theorem effect_of_closing {before next : Option Token} {t : Token} {stack rest : List Entry}
    {out : List Token} (ht : isSymbol t .closing = true)
    (h : stepSymbol before next t stack .closing = .ok (out, rest)) :
    Effect before next t stack out rest := by
  rcases release_to_bracket stack with ⟨all, hrel⟩ | ⟨pending, below, rfl, hrel, hpend⟩
  · -- No bracket was open, so the step would have failed.
    rw [stepSymbol, hrel] at h
    exact absurd h (by simp only [reduceCtorEq, not_false_eq_true])
  · rw [stepSymbol, hrel] at h
    simp only at h
    rcases Outcome.map_eq_ok h with ⟨⟨call, last⟩, hclose, h⟩
    rw [Prod.mk.injEq] at h
    rw [← h.1, ← h.2]
    rcases closeBracket_eq_ok hclose with ⟨hcall, hlast, hhead⟩ | ⟨name, argc, hbelow, hcall, hargc⟩
    · rw [hcall, hlast, List.append_nil]
      exact .group ht hpend hhead
    · rw [hcall, hbelow]
      exact .call name ht hpend hargc

theorem effect_of_stepSymbol {before next : Option Token} {t : Token} {stack rest : List Entry}
    {out : List Token} {s : Symbol} (ht : isSymbol t s = true)
    (h : stepSymbol before next t stack s = .ok (out, rest)) :
    Effect before next t stack out rest := by
  cases s with
  | comma =>
      rcases release_to_bracket stack with ⟨all, hrel⟩ | ⟨pending, below, rfl, hrel, hpend⟩
      · rw [stepSymbol, hrel] at h
        exact absurd h (by simp only [reduceCtorEq, not_false_eq_true])
      · rw [stepSymbol, hrel] at h
        simp only [Except.ok.injEq, Prod.mk.injEq] at h
        rw [← h.1, ← h.2]
        exact .comma ht hpend
  | opening =>
      rw [stepSymbol, Except.ok.injEq, Prod.mk.injEq] at h
      rw [← h.1, ← h.2]
      exact .opening ht
  | closing => exact effect_of_closing ht h
  | operator op => exact effect_of_stepOperator ht h

/-- A successful step is one of the cases. -/
theorem effect_of_step {before next : Option Token} {t : Token} {stack rest : List Entry}
    {out : List Token} (h : step before next t stack = .ok (out, rest)) :
    Effect before next t stack out rest := by
  -- The kind of the token decides, and for an operator the meaning of its text.
  cases hkind : t.kind with
  | unknown => simp only [step, hkind, reduceCtorEq] at h
  | call => simp only [step, hkind, reduceCtorEq] at h
  | number =>
      simp only [step, hkind, Except.ok.injEq, Prod.mk.injEq] at h
      rw [← h.1, ← h.2]
      exact .operand (.inl hkind)
  | identifier =>
      simp only [step, hkind] at h
      by_cases hnext : isNext .opening next = true
      · rw [if_pos hnext, Except.ok.injEq, Prod.mk.injEq] at h
        rw [← h.1, ← h.2]
        exact .name hkind hnext
      · rw [if_neg hnext, Except.ok.injEq, Prod.mk.injEq] at h
        rw [← h.1, ← h.2]
        exact .operand (.inr ⟨hkind, Bool.eq_false_iff.mpr hnext⟩)
  | operator =>
      simp only [step, hkind] at h
      cases hs : Symbol.ofText? t.text with
      | none => simp only [hs, reduceCtorEq] at h
      | some s =>
          simp only [hs] at h
          have ht : isSymbol t s = true := by
            rw [isSymbol_eq hkind hs, beq_self_eq_true]
          exact effect_of_stepSymbol ht h

/-! ### Runs, taken apart -/

theorem run_cons_eq_ok {before after : Option Token} {t : Token} {ts out : List Token}
    {stack last : List Entry} (h : run before after (t :: ts) stack = .ok (out, last)) :
    ∃ first mid more, step before (ts.head?.or after) t stack = .ok (first, mid) ∧
      run (some t) after ts mid = .ok (more, last) ∧ out = first ++ more := by
  rw [run] at h
  rcases Outcome.bind_eq_ok h with ⟨⟨first, mid⟩, hstep, h⟩
  rcases Outcome.bind_eq_ok h with ⟨⟨more, rest⟩, hrun, h⟩
  simp only [pure, Except.pure, Except.ok.injEq, Prod.mk.injEq] at h
  rw [h.2] at hrun
  exact ⟨first, mid, more, hstep, hrun, h.1.symm⟩

theorem run_append_eq_ok {before after : Option Token} {ts us out : List Token}
    {stack last : List Entry} (h : run before after (ts ++ us) stack = .ok (out, last)) :
    ∃ first mid more, run before (us.head?.or after) ts stack = .ok (first, mid) ∧
      run (ts.getLast?.or before) after us mid = .ok (more, last) ∧ out = first ++ more := by
  rw [run_append] at h
  rcases Outcome.bind_eq_ok h with ⟨⟨first, mid⟩, hts, h⟩
  rcases Outcome.bind_eq_ok h with ⟨⟨more, rest⟩, hus, h⟩
  simp only [pure, Except.pure, Except.ok.injEq, Prod.mk.injEq] at h
  rw [h.2] at hus
  exact ⟨first, mid, more, hts, hus, h.1.symm⟩

/-- At the end only operators may wait, and all of them are put out. -/
theorem flush_eq_ok {stack : List Entry} {out : List Token} (h : flush stack = .ok out) :
    (∀ e ∈ stack, e.isOperator = true) ∧ out = stack.filterMap Entry.released? := by
  induction stack generalizing out with
  | nil =>
      rw [flush, Except.ok.injEq] at h
      exact ⟨fun e he => absurd he List.not_mem_nil, h.symm⟩
  | cons e stack ih =>
      cases e with
      | opening => exact absurd h (by simp only [flush, reduceCtorEq, not_false_eq_true])
      | call name argc => exact absurd h (by simp only [flush, reduceCtorEq, not_false_eq_true])
      | operator op argc =>
          rw [flush] at h
          rcases Outcome.map_eq_ok h with ⟨more, hrest, hout⟩
          rcases ih hrest with ⟨hops, hmore⟩
          refine ⟨List.forall_mem_cons.mpr ⟨rfl, hops⟩, ?_⟩
          rw [← hout, hmore]
          rfl

/-- Conversion is a run and the release of the operators that it leaves. -/
theorem ofTokens_eq_ok {ts out : List Token} (h : ofTokens ts = .ok out) :
    ∃ first stack, run none none ts [] = .ok (first, stack) ∧
      (∀ e ∈ stack, e.isOperator = true) ∧ out = first ++ stack.filterMap Entry.released? := by
  rw [ofTokens] at h
  rcases Outcome.bind_eq_ok h with ⟨⟨first, stack⟩, hrun, h⟩
  rcases Outcome.bind_eq_ok h with ⟨more, hflush, h⟩
  simp only [pure, Except.pure, Except.ok.injEq] at h
  rcases flush_eq_ok hflush with ⟨hops, hmore⟩
  rw [hmore] at h
  exact ⟨first, stack, hrun, hops, h.symm⟩

/-! ### Where calls wait -/

/-- Above the innermost bracket of a settled stack only operators wait. -/
theorem Settled.operators_above_opening {pending below : List Entry}
    (h : Settled (pending ++ .opening :: below)) (hpending : ∀ e ∈ pending, e.isOpening = false) :
    ∀ e ∈ pending, e.isOperator = true := by
  induction pending with
  | nil => exact fun e he => absurd he List.not_mem_nil
  | cons e pending ih =>
      rcases List.forall_mem_cons.mp hpending with ⟨he, hrest⟩
      -- A settled stack starts with an operator or a bracket, and this is no bracket.
      match e, h, he with
      | .operator op argc, .operator _ _ h, _ =>
          exact List.forall_mem_cons.mpr ⟨rfl, ih h hrest⟩

/-- Releasing operators leaves a settled stack. -/
theorem Settled.of_append {pending below : List Entry} (h : Settled (pending ++ below))
    (hpending : ∀ e ∈ pending, e.isOperator = true) : Settled below := by
  induction pending with
  | nil => exact h
  | cons e pending ih =>
      rcases List.forall_mem_cons.mp hpending with ⟨he, hrest⟩
      match e, h, he with
      | .operator op argc, .operator _ _ h, _ => exact ih h hrest

namespace Tracks

/-- A successful step keeps what is known between two tokens. -/
theorem of_step {earlier before next : Option Token} {t : Token} {stack rest : List Entry}
    {out : List Token} (h : Tracks earlier before (some t) stack)
    (hstep : step before next t stack = .ok (out, rest)) : Tracks before (some t) next rest := by
  have hagrees := h.agrees_step next
  rw [hstep] at hagrees
  cases hoffence : offence? earlier before (openings stack) t with
  | some failure =>
      rw [hoffence] at hagrees
      exact absurd hagrees (by simp only [Agrees, reduceCtorEq, not_false_eq_true])
  | none =>
      rw [hoffence] at hagrees
      rcases hagrees with ⟨_, _, heq, hrest, _⟩
      rw [Except.ok.injEq, Prod.mk.injEq] at heq
      rw [heq.2]
      exact hrest

/-- No call waits above the innermost bracket when a comma or a closing bracket arrives. -/
theorem operators_above_opening {earlier before : Option Token} {t : Token}
    {pending below : List Entry}
    (h : Tracks earlier before (some t) (pending ++ .opening :: below))
    (ht : isSymbol t .opening = false) (hpending : ∀ e ∈ pending, e.isOpening = false) :
    ∀ e ∈ pending, e.isOperator = true := by
  generalize hstack : pending ++ .opening :: below = stack at h
  cases h with
  | settled h _ _ =>
      rw [← hstack] at h
      exact h.operators_above_opening hpending
  | named _ _ _ hnext _ =>
      change isSymbol t .opening = true at hnext
      rw [ht] at hnext
      exact Bool.noConfusion hnext
  | hollow _ _ _ _ =>
      -- The bracket of the empty call is on top, so nothing is above it.
      match pending with
      | [] => exact fun e he => absurd he List.not_mem_nil
      | e :: pending =>
          rw [List.cons_append, List.cons.injEq] at hstack
          have hnot := hpending e List.mem_cons_self
          rw [hstack.1] at hnot
          exact Bool.noConfusion hnot

end Tracks

end Postfix

end DeskCalc
