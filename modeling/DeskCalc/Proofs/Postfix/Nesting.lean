import DeskCalc.Proofs.Postfix.Effect
import Mathlib.Logic.Function.Iterate

/-!
# Nested Calls and Their Arguments

How many arguments a call has is said by the commas between its brackets. A comma inside plain
brackets inside the call is one of them, a comma inside another call is not. Conversion keeps the
counts of all calls that are open in the entries of its stack, among operators and plain brackets,
and finds the one that a comma belongs to by searching down from the top.

What the calls of a list of tokens are does not depend on any of this. The brackets of the tokens
match in one way, and `Nesting` is the tokens with their brackets matched: a row of pieces, each a
single token, a group, or a call. The commas and calls of a nesting are read off by recursion on
it. The operators on the stack have no part in it, so the proof forgets them: the stack without
them (`skeleton`) holds just the brackets and calls that are open, and the tokens of a nesting
leave it as it was but for the commas that belong to a call outside.

## Main definitions

* `Nesting`: Tokens with their brackets matched.
* `Nesting.commas`: The commas that are in no call of the nesting.
* `Nesting.calls`: The calls, in the order of their closing brackets.
* `Nesting.Matched`: That the pieces are what they are taken for.
* `Postfix.skeleton`: The brackets and calls on a stack.
* `Postfix.Completes`: What tokens come to on any stack.
* `Nesting.Closes`: Tokens that close the brackets that are open before them.

## Theorems

* `Postfix.Effect.leaf`, `Postfix.Effect.closing`: What a token does to the skeleton.
* `Nesting.Matched.completes`: The calls that conversion completes in a nesting are its calls.
* `Nesting.Closes.of_scan`: Tokens with balanced brackets can be matched.
* `Postfix.ofTokens_calls`: The calls in the output.
-/

namespace DeskCalc

open Postfix

/-- Whether a token is a call. -/
def Token.isCall (t : Token) : Bool := t.kind == .call

/-- Tokens with their brackets matched, as a row of pieces. -/
inductive Nesting where
  /-- No more pieces. -/
  | nil
  /-- A token by itself. -/
  | token (t : Token) (rest : Nesting)
  /-- What stands between two brackets. -/
  | group (opening : Token) (inner : Nesting) (closing : Token) (rest : Nesting)
  /-- A name with its arguments between brackets. -/
  | call (name opening : Token) (inner : Nesting) (closing : Token) (rest : Nesting)

namespace Nesting

/-- The tokens. -/
def spell : Nesting → List Token
  | .nil => []
  | .token t rest => t :: rest.spell
  | .group o inner c rest => o :: (inner.spell ++ c :: rest.spell)
  | .call name o inner c rest => name :: o :: (inner.spell ++ c :: rest.spell)

/-- How many commas belong to a call around the nesting, if there is one: those in plain brackets
    do, and those in a call do not. -/
def commas : Nesting → Nat
  | .nil => 0
  | .token t rest => (if isSymbol t .comma then 1 else 0) + rest.commas
  | .group _ inner _ rest => inner.commas + rest.commas
  | .call _ _ _ _ rest => rest.commas

/-- The calls, each where its closing bracket stands, with one argument more than it has commas. -/
def calls : Nesting → List Token
  | .nil => []
  | .token _ rest => rest.calls
  | .group _ inner _ rest => inner.calls ++ rest.calls
  | .call name _ inner _ rest => inner.calls ++ .call name.text (1 + inner.commas) :: rest.calls

/-- Brackets are brackets and other tokens are not, and a name is taken for that of a call exactly
    if a bracket opens directly after it. -/
def Matched : Nesting → Prop
  | .nil => True
  | .token t rest => isSymbol t .opening = false ∧ isSymbol t .closing = false ∧
      (t.kind = .identifier → isNext .opening rest.spell.head? = false) ∧ rest.Matched
  | .group o inner c rest => isSymbol o .opening = true ∧ inner.Matched ∧
      isSymbol c .closing = true ∧ rest.Matched
  | .call name o inner c rest => name.kind = .identifier ∧ isSymbol o .opening = true ∧
      inner.Matched ∧ isSymbol c .closing = true ∧ rest.Matched

/-- A nesting does not start with a closing bracket. -/
theorem Matched.first {n : Nesting} (h : n.Matched) : isNext .closing n.spell.head? = false := by
  match n, h with
  | .nil, _ => rfl
  | .token t rest, h => exact h.2.1
  | .group o inner c rest, h => exact isSymbol_other h.1 .closing
  | .call name o inner c rest, h =>
      have hkind : name.kind ≠ .operator := by
        rw [h.1]
        exact TokenKind.noConfusion
      exact isSymbol_eq_false hkind .closing

end Nesting

namespace Postfix

/-! ### The stack without its operators -/

/-- The brackets and calls on a stack. -/
def skeleton (stack : List Entry) : List Entry := stack.filter fun e => !e.isOperator

theorem skeleton_append {pending : List Entry} (below : List Entry)
    (h : ∀ e ∈ pending, e.isOperator = true) : skeleton (pending ++ below) = skeleton below := by
  have hnone : pending.filter (fun e => !e.isOperator) = [] := by
    rw [List.filter_eq_nil_iff]
    intro e he
    rw [h e he]
    exact Bool.false_ne_true
  rw [skeleton, List.filter_append, hnone, List.nil_append, skeleton]

theorem skeleton_countComma (stack : List Entry) :
    skeleton (countComma stack) = countComma (skeleton stack) := by
  induction stack with
  | nil => rfl
  | cons e stack ih =>
      match e with
      | .operator op argc => exact ih
      | .opening => exact congrArg (Entry.opening :: ·) ih
      | .call name argc => rfl

theorem iterate_countComma_opening (k : Nat) (stack : List Entry) :
    countComma^[k] (.opening :: stack) = .opening :: countComma^[k] stack := by
  induction k generalizing stack with
  | zero => rfl
  | succ k ih => exact ih (countComma stack)

theorem iterate_countComma_call (k : Nat) (name : String) (argc : Nat) (stack : List Entry) :
    countComma^[k] (.call name argc :: stack) = .call name (argc + k) :: stack := by
  induction k generalizing argc with
  | zero => rfl
  | succ k ih =>
      rw [Function.iterate_succ_apply, countComma, ih, Nat.add_right_comm]
      rfl

namespace Settled

theorem toSkeleton {stack : List Entry} (h : Settled stack) : Settled (skeleton stack) := by
  induction h with
  | empty => exact .empty
  | operator op argc _ ih => exact ih
  | group _ ih => exact .group ih
  | call name hargc _ ih => exact .call name hargc ih

theorem iterate_counted {stack : List Entry} (k : Nat) (h : Settled stack) :
    Settled (countComma^[k] stack) := by
  induction k with
  | zero => exact h
  | succ k ih =>
      rw [Function.iterate_succ_apply']
      exact ih.counted.1

/-- A call is never on top. -/
theorem not_call {name : String} {argc : Nat} {stack : List Entry} :
    ¬ Settled (.call name argc :: stack) := by
  intro h
  cases h

end Settled

/-! ### What one token does -/

theorem filter_isCall_released (pending : List Entry) :
    (pending.filterMap Entry.released?).filter Token.isCall = [] :=
  filter_released (fun _ _ => rfl) pending

/-- A token that is no bracket, and no name of a call, completes no call, and changes the brackets
    and calls that are open only if it is a comma. -/
theorem Effect.leaf {before next : Option Token} {t : Token} {stack rest : List Entry}
    {out : List Token} (h : Effect before next t stack out rest) (hstack : Settled stack)
    (hopen : isSymbol t .opening = false) (hclose : isSymbol t .closing = false)
    (hname : t.kind = .identifier → isNext .opening next = false) :
    Settled rest ∧ out.filter Token.isCall = [] ∧
      skeleton rest = countComma^[if isSymbol t .comma then 1 else 0] (skeleton stack) := by
  cases h with
  | operand hkind =>
      have hother : t.kind ≠ .operator := by
        rcases hkind with hkind | ⟨hkind, _⟩ <;> rw [hkind] <;> exact TokenKind.noConfusion
      refine ⟨hstack, ?_, ?_⟩
      · rw [List.filter_eq_nil_iff]
        intro u hu
        rw [List.mem_singleton.mp hu, Token.isCall]
        rcases hkind with hkind | ⟨hkind, _⟩ <;> rw [hkind] <;> exact Bool.false_ne_true
      · rw [isSymbol_eq_false hother, if_neg Bool.false_ne_true]
        rfl
  | name hkind hnext =>
      rw [hname hkind] at hnext
      exact Bool.noConfusion hnext
  | @comma pending below ht hpending =>
      -- The operators that it releases are not in the skeleton, so all that is left is the count.
      have hops := hstack.operators_above_opening hpending
      refine ⟨(hstack.of_append hops).counted.1, filter_isCall_released pending, ?_⟩
      rw [if_pos ht, skeleton_append _ hops]
      exact congrArg (Entry.opening :: ·) (skeleton_countComma below)
  | opening ht =>
      rw [ht] at hopen
      exact Bool.noConfusion hopen
  | group ht _ _ =>
      rw [ht] at hclose
      exact Bool.noConfusion hclose
  | call name ht _ _ =>
      rw [ht] at hclose
      exact Bool.noConfusion hclose
  | @sign pending below ht _ hpending _ =>
      have hops := fun e he => Entry.isOperator_of_yieldsTo (hpending e he)
      refine ⟨.operator .negate none (hstack.of_append hops), filter_isCall_released pending, ?_⟩
      rw [isSymbol_other ht, skeleton_append _ hops]
      rfl
  | @operator pending below op ht _ _ hpending _ =>
      have hops := fun e he => Entry.isOperator_of_yieldsTo (hpending e he)
      refine ⟨.operator op t.argc (hstack.of_append hops), filter_isCall_released pending, ?_⟩
      rw [isSymbol_other ht, skeleton_append _ hops]
      rfl
  | @factorial pending below ht hpending _ =>
      have hops := fun e he => Entry.isOperator_of_isSign (hpending e he)
      refine ⟨hstack.of_append hops, ?_, ?_⟩
      · rw [List.filter_append, filter_isCall_released, ← token_eq ht]
        rfl
      · rw [isSymbol_other ht, skeleton_append _ hops]
        rfl

/-- A closing bracket takes away the innermost opening one, and completes the call right below it
    if there is one. -/
theorem Effect.closing {before next : Option Token} {t : Token} {stack rest : List Entry}
    {out : List Token} (h : Effect before next t stack out rest) (hstack : Settled stack)
    (ht : isSymbol t .closing = true) :
    Settled rest ∧
      ((skeleton stack = .opening :: skeleton rest ∧ out.filter Token.isCall = []) ∨
        ∃ name argc, skeleton stack = .opening :: .call name argc :: skeleton rest ∧
          out.filter Token.isCall = [.call name argc]) := by
  have hother : ∀ s, s ≠ .closing → isSymbol t s = true → False := by
    intro s hs hts
    rw [isSymbol_other ht, beq_iff_eq] at hts
    exact hs hts.symm
  cases h with
  | operand hkind =>
      rw [kind_of_isSymbol ht] at hkind
      rcases hkind with hkind | ⟨hkind, _⟩ <;> exact TokenKind.noConfusion hkind
  | name hkind _ =>
      rw [kind_of_isSymbol ht] at hkind
      exact TokenKind.noConfusion hkind
  | comma hts _ => exact (hother _ Symbol.noConfusion hts).elim
  | opening hts => exact (hother _ Symbol.noConfusion hts).elim
  | sign hts _ _ _ => exact (hother _ Symbol.noConfusion hts).elim
  | operator op hts _ _ _ _ => exact (hother _ Symbol.noConfusion hts).elim
  | factorial hts _ _ => exact (hother _ Symbol.noConfusion hts).elim
  | @group pending below _ hpending hhead =>
      have hops := hstack.operators_above_opening hpending
      refine ⟨?_, .inl ⟨skeleton_append _ hops, filter_isCall_released pending⟩⟩
      cases hstack.of_append hops with
      | group hbelow => exact hbelow
      | call name _ _ => exact Bool.noConfusion (hhead (.call name _) rfl)
  | @call pending below name argc _ hpending _ =>
      have hops := hstack.operators_above_opening hpending
      refine ⟨?_, .inr ⟨name, argc, skeleton_append _ hops, ?_⟩⟩
      · cases hstack.of_append hops with
        | group hbelow => exact absurd hbelow Settled.not_call
        | call _ _ hbelow => exact hbelow
      · rw [List.filter_append, filter_isCall_released]
        rfl

/-- A call that closes empty is refused. -/
theorem step_closing_hollow (before next : Option Token) {t : Token}
    (ht : isSymbol t .closing = true) (name : String) (stack : List Entry) :
    step before next t (.opening :: .call name 0 :: stack) =
      .error (.fault (.zeroArgumentCall name)) := by
  rw [step_of_isSymbol _ _ ht]
  rfl

/-! ### What several tokens do -/

/-- A run up to a token, the step on it, and the run after it. -/
theorem run_append_cons_eq_ok {before after : Option Token} {ts us out : List Token} {t : Token}
    {stack last : List Entry} (h : run before after (ts ++ t :: us) stack = .ok (out, last)) :
    ∃ first mid second next third, run before (some t) ts stack = .ok (first, mid) ∧
      step (ts.getLast?.or before) (us.head?.or after) t mid = .ok (second, next) ∧
      run (some t) after us next = .ok (third, last) ∧ out = first ++ (second ++ third) := by
  rcases run_append_eq_ok h with ⟨first, mid, more, hfirst, hmore, rfl⟩
  rcases run_cons_eq_ok hmore with ⟨second, next, third, hsecond, hthird, rfl⟩
  exact ⟨first, mid, second, next, third, hfirst, hsecond, hthird, rfl⟩

/-- That tokens, on any settled stack and with no opening bracket after them, complete the given
    calls, leave the brackets and calls that were open, and have so many commas for a call among
    these. -/
def Completes (ts calls : List Token) (commas : Nat) : Prop :=
  ∀ (before after : Option Token) (stack last : List Entry) (out : List Token),
    Settled stack → isNext .opening after = false →
      run before after ts stack = .ok (out, last) →
        Settled last ∧ out.filter Token.isCall = calls ∧
          skeleton last = countComma^[commas] (skeleton stack)

namespace Completes

theorem nil : Completes [] [] 0 := by
  intro before after stack last out hstack _ hrun
  rw [run, Except.ok.injEq, Prod.mk.injEq] at hrun
  rw [← hrun.1, ← hrun.2]
  exact ⟨hstack, rfl, rfl⟩

variable {t o c : Token} {ts us calls more : List Token} {k l : Nat}

/-- A token that is no bracket and no name of a call completes nothing. -/
theorem token (hopen : isSymbol t .opening = false) (hclose : isSymbol t .closing = false)
    (hname : t.kind = .identifier → isNext .opening ts.head? = false) (h : Completes ts calls k) :
    Completes (t :: ts) calls ((if isSymbol t .comma then 1 else 0) + k) := by
  intro before after stack last out hstack hafter hrun
  rcases run_cons_eq_ok hrun with ⟨first, mid, rest, hstep, hrest, rfl⟩
  have hnext : t.kind = .identifier → isNext .opening (ts.head?.or after) = false := by
    intro hkind
    match ts, hname hkind with
    | [], _ => exact hafter
    | u :: _, hu => exact hu
  rcases (effect_of_step hstep).leaf hstack hopen hclose hnext with ⟨hmid, hfirst, hskel⟩
  rcases h _ _ _ _ _ hmid hafter hrest with ⟨hlast, hcalls, hend⟩
  refine ⟨hlast, ?_, ?_⟩
  · rw [List.filter_append, hfirst, hcalls, List.nil_append]
  · rw [hend, hskel, ← Function.iterate_add_apply, Nat.add_comm]

/-- Between an opening bracket and its closing one, tokens complete their calls. What the closing
    bracket takes away is what has been right below since the opening one, with the commas counted
    in the meantime. -/
theorem closed {before after : Option Token} {stack last : List Entry} {out : List Token}
    (hclose : isSymbol c .closing = true) (hinner : Completes ts calls k)
    (hstack : Settled (.opening :: stack))
    (hrun : run before after (ts ++ c :: us) (.opening :: stack) = .ok (out, last)) :
    ∃ first second third next, out = first ++ (second ++ third) ∧ Settled next ∧
      run (some c) after us next = .ok (third, last) ∧ first.filter Token.isCall = calls ∧
      ((countComma^[k] (skeleton stack) = skeleton next ∧ second.filter Token.isCall = []) ∨
        ∃ name argc, countComma^[k] (skeleton stack) = .call name argc :: skeleton next ∧
          second.filter Token.isCall = [.call name argc]) := by
  rcases run_append_cons_eq_ok hrun with
    ⟨first, mid, second, next, third, hrunInner, hstep, hrunRest, hout⟩
  have hnot : isNext .opening (some c) = false := isSymbol_other hclose .opening
  rcases hinner _ _ _ _ _ hstack hnot hrunInner with ⟨hmid, hcalls, hskel⟩
  rcases (effect_of_step hstep).closing hmid hclose with ⟨hnext, hcases⟩
  -- The opening bracket is still there: no comma changes it.
  change skeleton mid = countComma^[k] (.opening :: skeleton stack) at hskel
  rw [iterate_countComma_opening] at hskel
  simp only [hskel, List.cons.injEq, true_and] at hcases
  exact ⟨first, second, third, next, hout, hnext, hrunRest, hcalls, hcases⟩

/-- A group completes what is in it, and its commas are for a call outside. -/
theorem group (hopen : isSymbol o .opening = true) (hclose : isSymbol c .closing = true)
    (hinner : Completes ts calls k) (hrest : Completes us more l) :
    Completes (o :: (ts ++ c :: us)) (calls ++ more) (k + l) := by
  intro before after stack last out hstack hafter hrun
  -- On a settled stack no call waits for the bracket.
  rcases run_cons_eq_ok hrun with ⟨_, _, _, hstep, hrun, rfl⟩
  rw [step_of_isSymbol _ _ hopen, stepSymbol, hstack.openCall_eq, Except.ok.injEq,
    Prod.mk.injEq] at hstep
  rcases hstep with ⟨rfl, rfl⟩
  rcases hinner.closed hclose (.group hstack) hrun with
    ⟨first, second, third, next, rfl, hnext, hrunRest, hcalls, hcases⟩
  rcases hrest _ _ _ _ _ hnext hafter hrunRest with ⟨hlast, hmore, hend⟩
  rcases hcases with ⟨hbelow, hout⟩ | ⟨name, argc, hbelow, _⟩
  · refine ⟨hlast, ?_, ?_⟩
    · rw [List.nil_append, List.filter_append, List.filter_append, hcalls, hout, hmore,
        List.nil_append]
    · rw [hend, ← hbelow, ← Function.iterate_add_apply, Nat.add_comm]
  · -- No call was on top of the skeleton before, and counting commas puts none there.
    have hsettled := hstack.toSkeleton.iterate_counted k
    rw [hbelow] at hsettled
    exact absurd hsettled Settled.not_call

/-- A call completes what is in it and then itself, and its commas are its own. -/
theorem call (hkind : t.kind = .identifier) (hopen : isSymbol o .opening = true)
    (hclose : isSymbol c .closing = true) (hfirst : isNext .closing ts.head? = false)
    (hinner : Completes ts calls k) (hrest : Completes us more l) :
    Completes (t :: o :: (ts ++ c :: us)) (calls ++ .call t.text (1 + k) :: more) l := by
  intro before after stack last out hstack hafter hrun
  rcases run_cons_eq_ok hrun with ⟨_, _, _, hstep, hrun, rfl⟩
  have hname : step before ((o :: (ts ++ c :: us)).head?.or after) t stack =
      .ok ([], .call t.text 0 :: stack) := by
    have hnext : isNext .opening ((o :: (ts ++ c :: us)).head?.or after) = true := hopen
    simp only [step, hkind, hnext, if_true]
  rw [hname, Except.ok.injEq, Prod.mk.injEq] at hstep
  rcases hstep with ⟨rfl, rfl⟩
  -- The bracket gives the call its first argument, unless the call is about to close.
  rcases run_cons_eq_ok hrun with ⟨_, _, _, hstep, hrun, rfl⟩
  rw [step_of_isSymbol _ _ hopen, stepSymbol, openCall, Except.ok.injEq, Prod.mk.injEq] at hstep
  rcases hstep with ⟨rfl, rfl⟩
  -- Were there nothing between the brackets, the closing one would be refused.
  have hone : isNext .closing ((ts ++ c :: us).head?.or after) = false := by
    cases ts with
    | nil =>
        have hnext : isNext .closing (([] ++ c :: us).head?.or after) = true := hclose
        rw [if_pos hnext] at hrun
        rcases run_cons_eq_ok hrun with ⟨_, _, _, hstep, _, _⟩
        rw [step_closing_hollow _ _ hclose] at hstep
        exact absurd hstep (by simp only [reduceCtorEq, not_false_eq_true])
    | cons u _ => exact hfirst
  rw [hone, if_neg Bool.false_ne_true] at hrun
  rcases hinner.closed hclose (.call t.text Nat.one_pos hstack) hrun with
    ⟨first, second, third, next, rfl, hnext, hrunRest, hcalls, hcases⟩
  rcases hrest _ _ _ _ _ hnext hafter hrunRest with ⟨hlast, hmore, hend⟩
  have hskel : skeleton (.call t.text 1 :: stack) = .call t.text 1 :: skeleton stack := rfl
  rw [hskel, iterate_countComma_call] at hcases
  rcases hcases with ⟨hbelow, _⟩ | ⟨name, argc, hbelow, hout⟩
  · -- The call is still on top of the skeleton, so the bracket was not that of a group.
    have hsettled := hnext.toSkeleton
    rw [← hbelow] at hsettled
    exact absurd hsettled Settled.not_call
  · rw [List.cons.injEq, Entry.call.injEq] at hbelow
    rcases hbelow with ⟨⟨rfl, rfl⟩, hbelow⟩
    refine ⟨hlast, ?_, ?_⟩
    · rw [List.nil_append, List.nil_append, List.filter_append, List.filter_append, hcalls, hout,
        hmore, List.singleton_append]
    · rw [hend, hbelow]

end Completes

/-! ### What is converted is balanced -/

/-- A closing bracket that passes the count closes something. -/
theorem depth_ne_zero_of_closing {earlier before : Option Token} {depth : Nat} {t : Token}
    (ht : isSymbol t .closing = true) (h : offence? earlier before depth t = none) : depth ≠ 0 := by
  intro hzero
  rw [offence?] at h
  simp only [kind_of_isSymbol ht, text_of_isSymbol ht, Symbol.ofText?_text, offenceOfSymbol?, hzero,
    if_true, reduceCtorEq] at h

/-- Tokens that can be converted pass the count of brackets. -/
theorem scan_eq_zero {ts out : List Token} (h : ofTokens ts = .ok out) :
    scan none none 0 ts = .ok 0 := by
  have hagrees := ofTokens_agrees ts
  rw [h, verdict?] at hagrees
  cases hscan : scan none none 0 ts with
  | error failure =>
      simp only [hscan, reduceCtorEq] at hagrees
  | ok depth =>
      by_cases hzero : depth = 0
      · rw [hzero]
      · simp only [hscan, if_neg hzero, reduceCtorEq] at hagrees

end Postfix

namespace Nesting

/-- Conversion of a nesting completes its calls. -/
theorem Matched.completes {n : Nesting} (hn : n.Matched) : Completes n.spell n.calls n.commas := by
  induction n with
  | nil => exact .nil
  | token t rest ih =>
      rcases hn with ⟨hopen, hclose, hname, hrest⟩
      exact .token hopen hclose hname (ih hrest)
  | group o inner c rest ihInner ihRest =>
      rcases hn with ⟨hopen, hinner, hclose, hrest⟩
      exact .group hopen hclose (ihInner hinner) (ihRest hrest)
  | call name o inner c rest ihInner ihRest =>
      rcases hn with ⟨hkind, hopen, hinner, hclose, hrest⟩
      exact .call hkind hopen hclose hinner.first (ihInner hinner) (ihRest hrest)

/-! ### Matching the brackets -/

/-- Tokens that close as many brackets as are open before them, and are matched between these. -/
inductive Closes : Nat → List Token → Prop
  /-- No bracket is open. -/
  | done {n : Nesting} (hn : n.Matched) : Closes 0 n.spell
  /-- The innermost of the open brackets closes first. -/
  | more {n : Nesting} {c : Token} {ts : List Token} {depth : Nat} (hn : n.Matched)
      (hc : isSymbol c .closing = true) (h : Closes depth ts) :
      Closes (depth + 1) (n.spell ++ c :: ts)

/-- A token that is no bracket can be put before a nesting. Where it is a name before a group, it
    makes a call of the group. -/
theorem Matched.cons {t : Token} {n : Nesting} (hopen : isSymbol t .opening = false)
    (hclose : isSymbol t .closing = false) (hn : n.Matched) :
    ∃ m : Nesting, m.Matched ∧ m.spell = t :: n.spell := by
  by_cases hcall : t.kind = .identifier ∧ isNext .opening n.spell.head? = true
  · -- Of the pieces that a nesting may start with only a group has the bracket.
    rcases hcall with ⟨hkind, hnext⟩
    cases n with
    | nil => exact Bool.noConfusion hnext
    | token u rest =>
        change isSymbol u .opening = true at hnext
        rw [hn.1] at hnext
        exact Bool.noConfusion hnext
    | group o inner c rest => exact ⟨.call t o inner c rest, ⟨hkind, hn⟩, rfl⟩
    | call name o inner c rest =>
        change isSymbol name .opening = true at hnext
        have hname := kind_of_isSymbol hnext
        rw [hn.1] at hname
        exact TokenKind.noConfusion hname
  · refine ⟨.token t n, ⟨hopen, hclose, fun hkind => ?_, hn⟩, rfl⟩
    rw [← Bool.not_eq_true]
    exact fun hnext => hcall ⟨hkind, hnext⟩

namespace Closes

theorem token {t : Token} {ts : List Token} {depth : Nat} (hopen : isSymbol t .opening = false)
    (hclose : isSymbol t .closing = false) (h : Closes depth ts) : Closes depth (t :: ts) := by
  cases h with
  | done hn =>
      rcases hn.cons hopen hclose with ⟨m, hm, hspell⟩
      rw [← hspell]
      exact .done hm
  | more hn hc h =>
      rcases hn.cons hopen hclose with ⟨m, hm, hspell⟩
      rw [← List.cons_append, ← hspell]
      exact .more hm hc h

/-- An opening bracket makes a group of what stands before the first bracket that is left to
    close. -/
theorem opening {o : Token} {ts : List Token} {depth : Nat} (ho : isSymbol o .opening = true)
    (h : Closes (depth + 1) ts) : Closes depth (o :: ts) := by
  cases h with
  | @more n c _ _ hn hc h =>
      cases h with
      | @done m hm => exact .done (n := .group o n c m) ⟨ho, hn, hc, hm⟩
      | @more m d ts _ hm hd h =>
          have hgroup := Closes.more (n := .group o n c m) ⟨ho, hn, hc, hm⟩ hd h
          rwa [spell, List.cons_append, List.append_assoc, List.cons_append] at hgroup

/-- Tokens that pass the count of brackets close all that are open. -/
theorem of_scan {earlier before : Option Token} {depth : Nat} {ts : List Token}
    (h : scan earlier before depth ts = .ok 0) : Closes depth ts := by
  -- The induction is over any depth, since the tokens after a bracket start at another one.
  induction ts generalizing earlier before depth with
  | nil =>
      rw [scan, Except.ok.injEq] at h
      rw [h]
      exact .done (n := .nil) trivial
  | cons t ts ih =>
      rw [scan] at h
      cases hoffence : offence? earlier before depth t with
      | some failure =>
          rw [hoffence] at h
          exact absurd h (by simp only [reduceCtorEq, not_false_eq_true])
      | none =>
          rw [hoffence] at h
          have hts := ih h
          by_cases hopen : isSymbol t .opening = true
          · rw [depthAfter, if_pos hopen] at hts
            exact hts.opening hopen
          · rw [depthAfter, if_neg hopen] at hts
            by_cases hclose : isSymbol t .closing = true
            · rw [if_pos hclose] at hts
              have hdepth : depth ≠ 0 := depth_ne_zero_of_closing hclose hoffence
              rw [← Nat.sub_one_add_one hdepth]
              exact .more (n := .nil) trivial hclose hts
            · rw [if_neg hclose] at hts
              exact hts.token (Bool.eq_false_iff.mpr hopen) (Bool.eq_false_iff.mpr hclose)

end Closes

/-- If tokens are converted, their brackets can be matched. -/
theorem exists_of_ofTokens {ts out : List Token} (h : ofTokens ts = .ok out) :
    ∃ n : Nesting, n.Matched ∧ n.spell = ts := by
  have hcloses : Closes 0 ts := Closes.of_scan (scan_eq_zero h)
  cases hcloses with
  | @done n hn => exact ⟨n, hn, rfl⟩

/-- Every call of a nesting has an argument. -/
theorem argc_of_mem_calls {n : Nesting} {t : Token} (ht : t ∈ n.calls) :
    ∃ argc : Nat, 1 ≤ argc ∧ t.argc = some (argc : Int) := by
  induction n with
  | nil => exact absurd ht List.not_mem_nil
  | token _ rest ih => exact ih ht
  | group o inner c rest ihInner ihRest =>
      rw [calls, List.mem_append] at ht
      exact ht.elim ihInner ihRest
  | call name o inner c rest ihInner ihRest =>
      rw [calls, List.mem_append, List.mem_cons] at ht
      rcases ht with ht | ht | ht
      · exact ihInner ht
      · refine ⟨1 + inner.commas, Nat.le_add_right 1 _, ?_⟩
        rw [ht, Token.call]
      · exact ihRest ht

end Nesting

/-- The calls in the output are those of the input, in the order of their closing brackets, and
    each has one argument more than it has commas of its own: the brackets of the input can be
    matched, and however they are, this is what the calls come to. -/
theorem Postfix.ofTokens_calls {ts out : List Token} (h : ofTokens ts = .ok out) :
    (∃ n : Nesting, n.Matched ∧ n.spell = ts) ∧
      (∀ n : Nesting, n.Matched → n.spell = ts → out.filter Token.isCall = n.calls) ∧
      ∀ t ∈ out, t.kind = .call → ∃ argc : Nat, 1 ≤ argc ∧ t.argc = some (argc : Int) := by
  have hcalls : ∀ n : Nesting, n.Matched → n.spell = ts → out.filter Token.isCall = n.calls := by
    rintro n hn rfl
    -- What is released after the last token are operators.
    rcases ofTokens_eq_ok h with ⟨first, stack, hrun, _, rfl⟩
    rcases hn.completes _ _ _ _ _ .empty rfl hrun with ⟨_, hfirst, _⟩
    rw [List.filter_append, hfirst, filter_isCall_released, List.append_nil]
  rcases Nesting.exists_of_ofTokens h with ⟨n, hn, hspell⟩
  refine ⟨⟨n, hn, hspell⟩, hcalls, ?_⟩
  intro t ht hkind
  refine Nesting.argc_of_mem_calls (n := n) ?_
  rw [← hcalls n hn hspell, List.mem_filter, Token.isCall, hkind]
  exact ⟨ht, rfl⟩

/-- The brackets of `max(1,(2,min(3,4)),5)`, where the comma after the `2` is in plain brackets
    inside the outer call, and the one after the `3` is in the inner call. -/
def Nesting.nestedCalls : Nesting :=
  .call (.identifier "max") (.operator "(")
    (.token (.number "1") (.token (.operator ",")
      (.group (.operator "(")
        (.token (.number "2") (.token (.operator ",")
          (.call (.identifier "min") (.operator "(")
            (.token (.number "3") (.token (.operator ",") (.token (.number "4") .nil)))
            (.operator ")") .nil)))
        (.operator ")")
        (.token (.operator ",") (.token (.number "5") .nil)))))
    (.operator ")") .nil

/-- The inner call of `max(1,(2,min(3,4)),5)` comes first and has two arguments, and the outer
    one has four. -/
theorem Postfix.ofTokens_calls_nestedCalls :
    ofTokens Nesting.nestedCalls.spell = .ok [.number "1", .number "2", .number "3", .number "4",
        .call "min" 2, .number "5", .call "max" 4] ∧
      Nesting.nestedCalls.calls = [.call "min" 2, .call "max" 4] ∧
      ([.number "1", .number "2", .number "3", .number "4", .call "min" 2, .number "5",
        .call "max" 4] : List Token).filter Token.isCall = Nesting.nestedCalls.calls := by
  have hmatched : Nesting.nestedCalls.Matched := by
    simp only [Nesting.nestedCalls, Nesting.Matched]
    decide
  have hok : ofTokens Nesting.nestedCalls.spell = .ok [.number "1", .number "2", .number "3",
      .number "4", .call "min" 2, .number "5", .call "max" 4] := rfl
  exact ⟨hok, rfl, (ofTokens_calls hok).2.1 _ hmatched rfl⟩

end DeskCalc
