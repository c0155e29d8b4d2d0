import DeskCalc.Postfix.Conversion
import DeskCalc.Proofs.Expression.Grammar

/-!
# Releasing What Waits

What one token does to the stack, stated for the stacks that conversion actually meets: some
operators that have arrived since the current operand began, on top of everything that was
there before.

Each kind of token releases the entries on top that satisfy some predicate, and the question
is always where that stops. `Ready` says that it stops at once. A stack is then cut in two, the
pending operators that all go and the rest that is ready and stays (`release_append`), and
every step lemma here is that cut applied to one kind of token.

Tokens are those of a spelling, with no argument count on an operator. What happens to tokens
put together by hand is another matter.

## Main definitions

* `Postfix.Ready`: A stack whose top is neither released nor a call.

## Theorems

* `Postfix.release_append`: All of what is pending is released, and no more.
* `Postfix.run_cons_ok`, `Postfix.run_append_ok`: Successful runs, put together.
* `Postfix.step_dyad`, `Postfix.step_sign`, `Postfix.step_factorial`: Operators.
* `Postfix.step_opening`, `Postfix.step_closing`, `Postfix.step_comma`: Brackets and commas.
-/

namespace DeskCalc

namespace Postfix

/-! ### Tokens of a spelling -/

/-- The text of a symbol's token is the symbol. -/
theorem isSymbol_token (s m : Symbol) : isSymbol s.token m = (s == m) := by
  simp only [isSymbol, Symbol.token, Token.operator, Symbol.ofText?_text, beq_self_eq_true,
    Bool.true_and, Option.some_beq_some]

/-- A minus sign after a symbol negates if an operand has to start there. -/
theorem startsOperand_token (s : Symbol) : startsOperand (some s.token) = s.precedesOperand := by
  simp only [startsOperand, Symbol.token, Token.operator, Symbol.ofText?_text, beq_self_eq_true,
    Bool.true_and, Option.any_some]

/-- A step on a symbol's token is the symbol's effect. -/
theorem step_token (before next : Option Token) (s : Symbol) (stack : List Entry) :
    step before next s.token stack = stepSymbol before next s.token stack s := by
  rw [step]
  simp only [Symbol.token, Token.operator, Symbol.ofText?_text]

/-! ### Entries -/

namespace Entry

/-- Whether the entry is a call. -/
def isCall : Entry → Bool
  | .call .. => true
  | _ => false

/-- A sign is applied before any operator that follows. -/
theorem yieldsTo_power_of_isSign (e : Entry) (h : e.isSign = true) :
    e.yieldsTo .power = true := by
  rw [eq_of_beq h]
  rfl

/-- What a sign releases, a power releases too. -/
theorem yieldsTo_power_of_negate (e : Entry) (h : e.yieldsTo .negate = true) :
    e.yieldsTo .power = true := by
  match e with
  | .operator op _ =>
      change op.precedes .negate = true at h
      change op.precedes .power = true
      revert h
      cases op <;> decide

/-- What a power releases, a product releases too. -/
theorem yieldsTo_times_of_power (e : Entry) (h : e.yieldsTo .power = true) :
    e.yieldsTo .times = true := by
  match e with
  | .operator op _ =>
      change op.precedes .power = true at h
      change op.precedes .times = true
      revert h
      cases op <;> decide

/-- What a product releases, a sum releases too. -/
theorem yieldsTo_plus_of_times (e : Entry) (h : e.yieldsTo .times = true) :
    e.yieldsTo .plus = true := by
  match e with
  | .operator op _ =>
      change op.precedes .times = true at h
      change op.precedes .plus = true
      revert h
      cases op <;> decide

end Entry

/-! ### Where a release stops -/

/-- A stack whose top is neither released by the predicate nor a call that waits for its
    opening bracket. -/
def Ready (p : Entry → Bool) (stack : List Entry) : Prop :=
  ∀ e ∈ stack.head?, p e = false ∧ e.isCall = false

/-- A stack that is ready for the release of more is ready for the release of less. -/
theorem Ready.mono {p q : Entry → Bool} {stack : List Entry} (h : Ready p stack)
    (hpq : ∀ e, q e = true → p e = true) : Ready q stack := by
  intro e he
  rcases h e he with ⟨hp, hcall⟩
  refine ⟨?_, hcall⟩
  -- Were the top released by the weaker predicate, the stronger would release it too.
  cases hq : q e with
  | false => rfl
  | true =>
      rw [hpq e hq] at hp
      exact hp

/-- An entry on top decides whether the stack is ready. -/
theorem ready_cons {p : Entry → Bool} {e : Entry} {stack : List Entry} (hp : p e = false)
    (hcall : e.isCall = false) : Ready p (e :: stack) := by
  intro d hd
  rw [List.head?_cons, Option.mem_some_iff] at hd
  rw [← hd]
  exact ⟨hp, hcall⟩

/-- All of what is pending is released, and no more. -/
theorem release_append {p : Entry → Bool} {pending stack : List Entry}
    (hpending : ∀ e ∈ pending, p e = true) (hstack : ∀ e ∈ stack.head?, p e = false) :
    release p (pending ++ stack) = (pending.filterMap Entry.released?, stack) := by
  -- The top of what stays is not released, so the release ends where the pending ones do.
  have hstop : stack.takeWhile p = [] ∧ stack.dropWhile p = stack := by
    match stack with
    | [] => exact ⟨rfl, rfl⟩
    | e :: rest =>
        have he : ¬ p e = true := by
          rw [hstack e rfl]
          decide
        exact ⟨List.takeWhile_cons_of_neg he, List.dropWhile_cons_of_neg he⟩
  rw [release, List.takeWhile_append_of_pos hpending, List.dropWhile_append_of_pos hpending,
    hstop.1, hstop.2, List.append_nil]

/-! ### Runs, put together -/

/-- A step and a run after it. -/
theorem run_cons_ok {before after : Option Token} {t : Token} {rest out more : List Token}
    {stack mid last : List Entry}
    (ht : step before (rest.head?.or after) t stack = .ok (out, mid))
    (hrest : run (some t) after rest mid = .ok (more, last)) :
    run before after (t :: rest) stack = .ok (out ++ more, last) := by
  rw [run, ht]
  simp only [bind, Except.bind, hrest]
  rfl

theorem run_append_ok {before after : Option Token} {ts us out more : List Token}
    {stack mid last : List Entry}
    (hts : run before (us.head?.or after) ts stack = .ok (out, mid))
    (hus : run (ts.getLast?.or before) after us mid = .ok (more, last)) :
    run before after (ts ++ us) stack = .ok (out ++ more, last) := by
  rw [run_append, hts]
  simp only [bind, Except.bind, hus]
  rfl

theorem run_singleton_ok {before after : Option Token} {t : Token} {out : List Token}
    {stack last : List Entry} (ht : step before after t stack = .ok (out, last)) :
    run before after [t] stack = .ok (out, last) := by
  have h : run before after [t] stack = .ok (out ++ [], last) := run_cons_ok ht rfl
  rwa [List.append_nil] at h

/-! ### Operands -/

/-- A number goes to the output. -/
theorem step_number (before next : Option Token) (text : String) (stack : List Entry) :
    step before next (.number text) stack = .ok ([.number text], stack) := rfl

theorem step_constant (before : Option Token) {next : Option Token} (name : String)
    (stack : List Entry) (hnext : isNext .opening next = false) :
    step before next (.identifier name) stack = .ok ([.identifier name], stack) := by
  rw [step]
  simp only [Token.identifier, hnext, Bool.false_eq_true, if_false]

/-- A name that a bracket follows waits for its arguments. -/
theorem step_name (before next : Option Token) (name : String) (stack : List Entry)
    (hnext : isNext .opening next = true) :
    step before next (.identifier name) stack = .ok ([], .call name 0 :: stack) := by
  rw [step]
  simp only [Token.identifier, hnext, if_true]

/-! ### Operators -/

/-- An operator releases what is pending and waits in its place. -/
theorem pushOperator_append {op : Operator} {pending stack : List Entry}
    (hpending : ∀ e ∈ pending, e.yieldsTo op = true) (hstack : Ready (Entry.yieldsTo op) stack) :
    pushOperator op none (pending ++ stack) =
      (pending.filterMap Entry.released?, .operator op none :: stack) := by
  rw [pushOperator, release_append hpending fun e he => (hstack e he).1]

/-- An operator between operands releases what is pending. A minus sign has to follow an
    operand for that. -/
theorem step_dyad {before : Option Token} (next : Option Token) {op : Dyad}
    {pending stack : List Entry} (hbefore : startsOperand before = false)
    (hpending : ∀ e ∈ pending, e.yieldsTo op.toOperator = true)
    (hstack : Ready (Entry.yieldsTo op.toOperator) stack) :
    step before next op.toOperator.token (pending ++ stack) =
      .ok (pending.filterMap Entry.released?, .operator op.toOperator none :: stack) := by
  rw [← pushOperator_append hpending hstack]
  change step before next (Symbol.operator op.toOperator).token (pending ++ stack) = _
  rw [step_token]
  -- Only a minus sign looks at the token before.
  cases op with
  | minus => simp only [Dyad.toOperator, stepSymbol, hbefore, Bool.false_eq_true, if_false]; rfl
  | _ => rfl

/-- A minus sign where an operand has to start waits as a sign. It releases a sign that waits
    already, whose operand has not come yet. -/
theorem step_sign {before : Option Token} (next : Option Token) (pending stack : List Entry)
    (hbefore : startsOperand before = true)
    (hpending : ∀ e ∈ pending, e.yieldsTo .negate = true)
    (hstack : Ready (Entry.yieldsTo .negate) stack) :
    step before next Operator.minus.token (pending ++ stack) =
      .ok (pending.filterMap Entry.released?, .operator .negate none :: stack) := by
  rw [← pushOperator_append hpending hstack]
  change step before next (Symbol.operator .minus).token (pending ++ stack) = _
  rw [step_token]
  simp only [stepSymbol, hbefore, if_true]

/-- A factorial releases the signs that are pending and follows them. -/
theorem step_factorial (before next : Option Token) {pending stack : List Entry}
    (hpending : ∀ e ∈ pending, e.isSign = true) (hstack : Ready Entry.isSign stack) :
    step before next Operator.factorial.token (pending ++ stack) =
      .ok (pending.filterMap Entry.released? ++ [Operator.factorial.token], stack) := by
  change step before next (Symbol.operator .factorial).token (pending ++ stack) = _
  rw [step_token]
  simp only [stepSymbol, release_append hpending fun e he => (hstack e he).1]
  rfl

/-! ### Brackets and commas -/

/-- An opening bracket that no name precedes opens a group. -/
theorem step_opening (before next : Option Token) {p : Entry → Bool} {stack : List Entry}
    (hstack : Ready p stack) :
    step before next Symbol.opening.token stack = .ok ([], .opening :: stack) := by
  -- A call on top would be waiting for this bracket.
  have hopen : openCall next stack = stack := by
    match stack with
    | [] => rfl
    | .operator .. :: _ => rfl
    | .opening :: _ => rfl
    | .call name argc :: _ => exact Bool.noConfusion (hstack (.call name argc) rfl).2
  rw [step_token, stepSymbol, hopen]

/-- An opening bracket after a name opens the call, which has a first argument unless the
    bracket closes at once. -/
theorem step_opening_call (before : Option Token) {next : Option Token} (name : String)
    (stack : List Entry) (hnext : isNext .closing next = false) :
    step before next Symbol.opening.token (.call name 0 :: stack) =
      .ok ([], .opening :: .call name 1 :: stack) := by
  rw [step_token, stepSymbol, openCall]
  simp only [hnext, Bool.false_eq_true, if_false]

/-- What is pending inside a bracket is released by the end of it. -/
theorem release_to_opening {op : Operator} {pending stack : List Entry}
    (hpending : ∀ e ∈ pending, e.yieldsTo op = true) :
    release (fun e => !e.isOpening) (pending ++ .opening :: stack) =
      (pending.filterMap Entry.released?, .opening :: stack) := by
  refine release_append (fun e he => ?_) fun e he => ?_
  · match e, hpending e he with
    | .operator .., _ => rfl
  · rw [List.head?_cons, Option.mem_some_iff] at he
    rw [← he]
    rfl

/-- A comma releases what its argument has left and counts one more argument. -/
theorem step_comma (before next : Option Token) {op : Operator} {pending : List Entry}
    (name : String) (argc : Nat) (stack : List Entry)
    (hpending : ∀ e ∈ pending, e.yieldsTo op = true) :
    step before next Symbol.comma.token (pending ++ .opening :: .call name argc :: stack) =
      .ok (pending.filterMap Entry.released?, .opening :: .call name (argc + 1) :: stack) := by
  rw [step_token, stepSymbol, release_to_opening hpending]
  rfl

/-- A closing bracket of a group releases what the group has left. -/
theorem step_closing (before next : Option Token) {op : Operator} {p : Entry → Bool}
    {pending stack : List Entry} (hpending : ∀ e ∈ pending, e.yieldsTo op = true)
    (hstack : Ready p stack) :
    step before next Symbol.closing.token (pending ++ .opening :: stack) =
      .ok (pending.filterMap Entry.released?, stack) := by
  -- A call below the bracket would be complete now.
  have hclose : closeBracket stack = .ok ([], stack) := by
    match stack with
    | [] => rfl
    | .operator .. :: _ => rfl
    | .opening :: _ => rfl
    | .call name argc :: _ => exact Bool.noConfusion (hstack (.call name argc) rfl).2
  rw [step_token, stepSymbol, release_to_opening hpending]
  simp only [hclose, Except.map, List.append_nil]

/-- A closing bracket of a call that has an argument completes it. -/
theorem step_closing_call (before next : Option Token) {op : Operator} {pending : List Entry}
    (name : String) {argc : Nat} (stack : List Entry) (hargc : 0 < argc)
    (hpending : ∀ e ∈ pending, e.yieldsTo op = true) :
    step before next Symbol.closing.token (pending ++ .opening :: .call name argc :: stack) =
      .ok (pending.filterMap Entry.released? ++ [.call name argc], stack) := by
  have hcount : ¬ argc < 1 := by omega
  rw [step_token, stepSymbol, release_to_opening hpending]
  simp only [closeBracket, if_neg hcount, Except.map]

end Postfix

end DeskCalc
