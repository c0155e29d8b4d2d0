import DeskCalc.Proofs.Postfix.Conservation
import DeskCalc.Proofs.Postfix.Redundancy

/-!
# What Waits on the Stack

The stack of a conversion is in order between any two tokens, whatever the tokens are. Brackets and
calls are barriers on it, and between two barriers there is a row of operators. A row gets stronger
from the bottom up, since an operator that arrives first releases those above which it may not
wait. A power may wait on a power, because it leans to the right, and that is the only way in which
two operators of one strength come to lie in a row. Nothing that waits is stronger than a sign. So
a sign lies on top of its row, and there is only one.

The rows are read off the stack by `rows`. An operator changes the row on top and no other. A comma
and the bracket of a call change calls, which are barriers before and after, and a closing bracket
lays bare the row below. So one step keeps the rows in order without any knowledge of where calls
wait. That is a matter of its own, which `Tracks` settles.

## Main definitions

* `Operator.Outranks`: That an operator may wait on another.
* `Postfix.rows`: The operators between barriers.
* `Postfix.Ranked`: A stack whose rows are in order.
* `Postfix.Capped`: A stack whose calls are right below brackets.
* `Postfix.Orderly`: What is known between two tokens of what has been put out and what waits.

## Theorems

* `Postfix.Ranked.push`: An operator waits in order.
* `Postfix.Effect.ranked`, `Postfix.ranked_run`: Steps and runs keep the rows in order.
* `Postfix.openings_run`: The brackets that are open.
* `Postfix.Settled.capped`, `Postfix.Tracks.opening_above_call`: Calls are below brackets.
* `Postfix.Tracks.of_run`: Where calls wait, after several tokens.
* `Postfix.orderly_of_run`: Everything is in order after any number of tokens.
-/

namespace DeskCalc

namespace Operator

/-- That an operator may wait right on top of another. It binds more strongly, or both are
    powers. -/
def Outranks (upper lower : Operator) : Prop :=
  lower.halfRank < upper.halfRank ∨ upper = .power ∧ lower = .power

instance : DecidableRel Outranks := fun _ _ => inferInstanceAs (Decidable (_ ∨ _ ∧ _))

theorem Outranks.trans {a b c : Operator} (hab : a.Outranks b) (hbc : b.Outranks c) :
    a.Outranks c := by
  rcases hab with hab | ⟨rfl, rfl⟩
  · rcases hbc with hbc | ⟨rfl, rfl⟩
    · exact .inl (hbc.trans hab)
    · exact .inl hab
  · exact hbc

/-- An operator may wait on those that it does not release. -/
theorem outranks_of_not_precedes {earlier later : Operator}
    (h : earlier.precedes later = false) : later.Outranks earlier := by
  cases later <;> cases earlier <;> revert h <;> decide

/-- Only a factorial may wait on a sign. -/
theorem eq_factorial_of_outranks_negate {op : Operator} (h : op.Outranks .negate) :
    op = .factorial := by
  cases op <;> revert h <;> decide

end Operator

namespace Postfix

/-! ### Rows -/

/-- The rows of operators between barriers, each from the top down, that of the top first. -/
def rows : List Entry → List (List Operator)
  | [] => [[]]
  | .operator op _ :: stack => (rows stack).modifyHead (op :: ·)
  | .opening :: stack => [] :: rows stack
  | .call _ _ :: stack => [] :: rows stack

/-- There is always a row on top, which may be empty. -/
theorem exists_rows (stack : List Entry) : ∃ top others, rows stack = top :: others := by
  induction stack with
  | nil => exact ⟨[], [], rfl⟩
  | cons e stack ih =>
      rcases ih with ⟨top, others, hrows⟩
      match e with
      | .operator op argc => exact ⟨op :: top, others, by rw [rows, hrows, List.modifyHead_cons]⟩
      | .opening => exact ⟨[], rows stack, rfl⟩
      | .call name argc => exact ⟨[], rows stack, rfl⟩

theorem rows_countComma (stack : List Entry) : rows (countComma stack) = rows stack := by
  induction stack with
  | nil => rfl
  | cons e stack ih =>
      match e with
      | .operator op argc => exact congrArg (List.modifyHead (op :: ·)) ih
      | .opening => exact congrArg ([] :: ·) ih
      | .call name argc => rfl

theorem rows_openCall (next : Option Token) (stack : List Entry) :
    rows (openCall next stack) = rows stack := by
  match stack with
  | [] => rfl
  | .operator _ _ :: _ => rfl
  | .opening :: _ => rfl
  | .call _ 0 :: _ => rfl
  | .call _ (_ + 1) :: _ => rfl

theorem mem_rows_of_operator {op : Operator} {argc : Option Int} {stack : List Entry}
    (h : .operator op argc ∈ stack) : ∃ row ∈ rows stack, op ∈ row := by
  induction stack with
  | nil => exact absurd h List.not_mem_nil
  | cons e stack ih =>
      rcases exists_rows stack with ⟨top, others, hrows⟩
      rcases List.mem_cons.mp h with rfl | hrest
      · rw [rows, hrows, List.modifyHead_cons]
        exact ⟨_, List.mem_cons_self, List.mem_cons_self⟩
      · rcases ih hrest with ⟨row, hrow, hop⟩
        match e with
        | .opening => exact ⟨row, List.mem_cons_of_mem _ hrow, hop⟩
        | .call _ _ => exact ⟨row, List.mem_cons_of_mem _ hrow, hop⟩
        | .operator above _ =>
            -- The row may be the one that has grown.
            rw [rows, hrows, List.modifyHead_cons]
            rw [hrows] at hrow
            rcases List.mem_cons.mp hrow with rfl | hother
            · exact ⟨_, List.mem_cons_self, List.mem_cons_of_mem _ hop⟩
            · exact ⟨row, List.mem_cons_of_mem _ hother, hop⟩

/-! ### Rows in order -/

/-- A stack whose rows get stronger from the bottom up, and hold no factorial. -/
def Ranked (stack : List Entry) : Prop :=
  ∀ row ∈ rows stack, row.Pairwise Operator.Outranks ∧ .factorial ∉ row

theorem ranked_nil : Ranked [] := List.forall_mem_singleton.mpr ⟨.nil, List.not_mem_nil⟩

namespace Ranked

/-- A barrier starts a row of its own. -/
theorem barrier {e : Entry} {stack : List Entry} (he : e.isOperator = false) (h : Ranked stack) :
    Ranked (e :: stack) := by
  match e with
  | .opening | .call _ _ => exact List.forall_mem_cons.mpr ⟨⟨.nil, List.not_mem_nil⟩, h⟩

/-- What is below an entry is in order if the whole is. -/
theorem tail {e : Entry} {stack : List Entry} (h : Ranked (e :: stack)) : Ranked stack := by
  match e with
  | .opening | .call _ _ => exact (List.forall_mem_cons.mp h).2
  | .operator op argc =>
      rcases exists_rows stack with ⟨top, others, hrows⟩
      rw [Ranked, rows, hrows, List.modifyHead_cons] at h
      rcases List.forall_mem_cons.mp h with ⟨⟨hpairs, hnone⟩, hothers⟩
      rw [Ranked, hrows]
      refine List.forall_mem_cons.mpr ⟨⟨(List.pairwise_cons.mp hpairs).2, ?_⟩, hothers⟩
      exact fun hmem => hnone (List.mem_cons_of_mem _ hmem)

theorem of_append {pending below : List Entry} (h : Ranked (pending ++ below)) : Ranked below := by
  induction pending with
  | nil => exact h
  | cons e pending ih => exact ih h.tail

theorem counted {stack : List Entry} (h : Ranked stack) : Ranked (countComma stack) := by
  rwa [Ranked, rows_countComma]

theorem opened {stack : List Entry} (next : Option Token) (h : Ranked stack) :
    Ranked (openCall next stack) := by
  rwa [Ranked, rows_openCall]

/-- An operator waits in order on what it does not release. -/
theorem push {op : Operator} {below : List Entry} (argc : Option Int) (h : Ranked below)
    (hop : op ≠ .factorial) (hbelow : ∀ e ∈ below.head?, e.yieldsTo op = false) :
    Ranked (.operator op argc :: below) := by
  rcases exists_rows below with ⟨top, others, hrows⟩
  rw [Ranked, hrows] at h
  rcases List.forall_mem_cons.mp h with ⟨⟨hpairs, hnone⟩, hothers⟩
  -- It outranks the top of the row, and so all that the top outranks.
  have hall : ∀ lower ∈ top, op.Outranks lower := by
    match below, hrows with
    | [], hrows | .opening :: _, hrows | .call _ _ :: _, hrows =>
        rw [rows, List.cons.injEq] at hrows
        rw [← hrows.1]
        exact fun lower hlower => absurd hlower List.not_mem_nil
    | .operator upper _ :: rest, hrows =>
        rcases exists_rows rest with ⟨row, more, hrest⟩
        rw [rows, hrest, List.modifyHead_cons, List.cons.injEq] at hrows
        rw [← hrows.1, List.pairwise_cons] at hpairs
        have hupper := Operator.outranks_of_not_precedes (hbelow _ rfl)
        rw [← hrows.1]
        exact List.forall_mem_cons.mpr
          ⟨hupper, fun lower hlower => hupper.trans (hpairs.1 lower hlower)⟩
  rw [Ranked, rows, hrows, List.modifyHead_cons]
  refine List.forall_mem_cons.mpr ⟨⟨List.pairwise_cons.mpr ⟨hall, hpairs⟩, ?_⟩, hothers⟩
  rw [List.mem_cons, not_or]
  exact ⟨hop.symm, hnone⟩

/-- A sign is on top of its row. -/
theorem negate_notMem_tail {stack : List Entry} (h : Ranked stack) {row : List Operator}
    (hrow : row ∈ rows stack) : .negate ∉ row.tail := by
  rcases h row hrow with ⟨hpairs, hnone⟩
  match row with
  | [] => exact List.not_mem_nil
  | upper :: lower =>
      intro hmem
      -- Only a factorial could be above it, and none waits.
      have hupper := (List.pairwise_cons.mp hpairs).1 .negate hmem
      rw [Operator.eq_factorial_of_outranks_negate hupper] at hnone
      exact hnone List.mem_cons_self

theorem factorial_notMem {stack : List Entry} (h : Ranked stack) (argc : Option Int) :
    .operator .factorial argc ∉ stack := by
  intro hmem
  rcases mem_rows_of_operator hmem with ⟨row, hrow, hop⟩
  exact (h row hrow).2 hop

end Ranked

theorem count_le_one {row : List Operator} (h : .negate ∉ row.tail) :
    row.count .negate ≤ 1 := by
  match row with
  | [] => exact Nat.zero_le 1
  | op :: row =>
      rw [List.tail_cons] at h
      rw [List.count_cons, List.count_eq_zero.mpr h, Nat.zero_add]
      split
      · exact Nat.le_refl 1
      · exact Nat.zero_le 1

/-! ### Steps and runs -/

/-- A step keeps the rows in order. -/
theorem Effect.ranked {before next : Option Token} {t : Token} {stack rest : List Entry}
    {out : List Token} (h : Effect before next t stack out rest) (hstack : Ranked stack) :
    Ranked rest := by
  cases h with
  | operand _ => exact hstack
  | name _ _ => exact hstack.barrier rfl
  | comma _ _ => exact hstack.of_append.tail.counted.barrier rfl
  | opening _ => exact (hstack.opened next).barrier rfl
  | group _ _ _ => exact hstack.of_append.tail
  | call _ _ _ _ => exact hstack.of_append.tail.tail
  | sign _ _ _ hbelow => exact hstack.of_append.push none Operator.noConfusion hbelow
  | operator op _ hop _ _ hbelow => exact hstack.of_append.push t.argc hop hbelow
  | factorial _ _ _ => exact hstack.of_append

/-- So does a run. -/
theorem ranked_run {before after : Option Token} {ts out : List Token} {stack rest : List Entry}
    (h : run before after ts stack = .ok (out, rest)) (hstack : Ranked stack) : Ranked rest := by
  induction ts generalizing before stack out with
  | nil =>
      rw [run, Except.ok.injEq, Prod.mk.injEq] at h
      rwa [← h.2]
  | cons t ts ih =>
      rcases run_cons_eq_ok h with ⟨first, mid, more, hstep, hrest, _⟩
      exact ih hrest ((effect_of_step hstep).ranked hstack)

/-- No bracket and no comma is put out. -/
theorem Effect.ungrouped {before next : Option Token} {t : Token} {stack rest : List Entry}
    {out : List Token} (h : Effect before next t stack out rest) :
    ∀ u ∈ out, isGrouping u = false := by
  have hreleased (pending : List Entry) :
      ∀ u ∈ pending.filterMap Entry.released?, isGrouping u = false := by
    refine forall_released (fun op argc => ?_) pending
    have hop := isSymbol_eq (t := ⟨.operator, op.symbol, argc⟩) rfl
      (Symbol.ofText?_text (.operator op)) (.operator op)
    rw [beq_self_eq_true] at hop
    exact isGrouping_operator hop
  cases h with
  | operand hkind =>
      rw [List.forall_mem_singleton]
      refine isGrouping_eq_false ?_
      rcases hkind with hkind | ⟨hkind, _⟩ <;> rw [hkind] <;> exact TokenKind.noConfusion
  | name _ _ => exact fun u hu => absurd hu List.not_mem_nil
  | opening _ => exact fun u hu => absurd hu List.not_mem_nil
  | @comma pending _ _ _ => exact hreleased pending
  | @group pending _ _ _ _ => exact hreleased pending
  | @sign pending _ _ _ _ _ => exact hreleased pending
  | @operator pending _ _ _ _ _ _ _ => exact hreleased pending
  | @call pending _ _ _ _ _ _ =>
      exact List.forall_mem_append.mpr ⟨hreleased pending, List.forall_mem_singleton.mpr rfl⟩
  | @factorial pending _ ht _ _ =>
      exact List.forall_mem_append.mpr
        ⟨hreleased pending, List.forall_mem_singleton.mpr (isGrouping_operator ht)⟩

theorem ungrouped_run {before after : Option Token} {ts out : List Token}
    {stack rest : List Entry} (h : run before after ts stack = .ok (out, rest)) :
    ∀ u ∈ out, isGrouping u = false := by
  induction ts generalizing before stack out with
  | nil =>
      rw [run, Except.ok.injEq, Prod.mk.injEq] at h
      rw [← h.1]
      exact fun u hu => absurd hu List.not_mem_nil
  | cons t ts ih =>
      rcases run_cons_eq_ok h with ⟨first, mid, more, hstep, hmore, rfl⟩
      exact List.forall_mem_append.mpr ⟨(effect_of_step hstep).ungrouped, ih hmore⟩

/-- A step leaves as many brackets open as there were, one more for an opening one, and one less
    for a closing one, which never lacks a partner. -/
theorem openings_step {before next : Option Token} {t : Token} {stack rest : List Entry}
    {out : List Token} (h : step before next t stack = .ok (out, rest)) :
    openings rest + (if isSymbol t .closing then 1 else 0) =
      openings stack + (if isSymbol t .opening then 1 else 0) := by
  rw [openings_of_step h, depthAfter]
  by_cases ho : isSymbol t .opening = true
  · rw [isSymbol_other ho .closing, if_pos ho, if_pos ho]
    rfl
  · rw [if_neg ho, if_neg ho]
    by_cases hc : isSymbol t .closing = true
    · have hsome := openings_ne_zero_of_step h (.inr hc)
      rw [if_pos hc, if_pos hc]
      omega
    · rw [if_neg hc, if_neg hc]

theorem openings_run {before after : Option Token} {ts out : List Token} {stack rest : List Entry}
    (h : run before after ts stack = .ok (out, rest)) :
    openings rest + ts.countP (isSymbol · .closing) =
      openings stack + ts.countP (isSymbol · .opening) := by
  induction ts generalizing before stack out with
  | nil =>
      rw [run, Except.ok.injEq, Prod.mk.injEq] at h
      rw [← h.2, List.countP_nil, List.countP_nil]
  | cons t ts ih =>
      rcases run_cons_eq_ok h with ⟨first, mid, more, hstep, hrest, _⟩
      have hone := openings_step hstep
      have hmore := ih hrest
      rw [List.countP_cons, List.countP_cons]
      omega

/-! ### Where calls wait -/

/-- That every call of a stack lies right below a bracket. -/
def Capped (stack : List Entry) : Prop :=
  ∀ above name argc below, stack = above ++ .call name argc :: below →
    above.getLast? = some .opening

namespace Capped

/-- Anything but a call may come on top. -/
theorem push {e : Entry} {stack : List Entry} (h : Capped stack)
    (he : ∀ name argc, e ≠ .call name argc) : Capped (e :: stack) := by
  intro above name argc below hstack
  match above with
  | [] =>
      rw [List.nil_append, List.cons.injEq] at hstack
      exact absurd hstack.1 (he name argc)
  | d :: above =>
      rw [List.cons_append, List.cons.injEq] at hstack
      rw [List.getLast?_cons, h above name argc below hstack.2, Option.getD_some]

/-- A call comes with its bracket. -/
theorem call {stack : List Entry} (h : Capped stack) (name : String) (argc : Nat) :
    Capped (.opening :: .call name argc :: stack) := by
  intro above other count below hstack
  match above with
  | [] =>
      rw [List.nil_append, List.cons.injEq] at hstack
      exact Entry.noConfusion hstack.1
  | [e] =>
      rw [List.cons_append, List.cons.injEq] at hstack
      rw [← hstack.1, List.getLast?_singleton]
  | e :: d :: above =>
      -- The call is further down.
      rw [List.cons_append, List.cons_append, List.cons.injEq, List.cons.injEq] at hstack
      rw [List.getLast?_cons_cons, List.getLast?_cons, h above other count below hstack.2.2,
        Option.getD_some]

end Capped

/-- On a settled stack every call lies below a bracket. -/
theorem Settled.capped {stack : List Entry} (h : Settled stack) : Capped stack := by
  induction h with
  | empty =>
      intro above name argc below hstack
      exact absurd hstack.symm (List.append_ne_nil_of_right_ne_nil _ (List.cons_ne_nil _ _))
  | operator op argc _ ih => exact ih.push fun _ _ => Entry.noConfusion
  | group _ ih => exact ih.push fun _ _ => Entry.noConfusion
  | call name _ _ ih => exact ih.call name _

/-- Above its innermost bracket only operators wait. -/
theorem Settled.operators_on_top {stack : List Entry} (h : Settled stack) :
    ∀ e ∈ stack.takeWhile (fun e => !e.isOpening), e.isOperator = true := by
  induction h with
  | empty => exact fun e he => absurd he List.not_mem_nil
  | operator op argc _ ih => exact List.forall_mem_cons.mpr ⟨rfl, ih⟩
  | group _ _ => exact fun e he => absurd he List.not_mem_nil
  | call _ _ _ _ => exact fun e he => absurd he List.not_mem_nil

namespace Tracks

/-- What is known between two tokens is known after several. -/
theorem of_run {earlier before after : Option Token} {ts out : List Token}
    {stack rest : List Entry} (h : Tracks earlier before (ts.head?.or after) stack)
    (hrun : run before after ts stack = .ok (out, rest)) :
    ∃ other, Tracks other (ts.getLast?.or before) after rest := by
  induction ts generalizing earlier before stack out with
  | nil =>
      rw [run, Except.ok.injEq, Prod.mk.injEq] at hrun
      rw [← hrun.2]
      exact ⟨earlier, h⟩
  | cons t ts ih =>
      rcases run_cons_eq_ok hrun with ⟨first, mid, more, hstep, hrest, _⟩
      rw [List.getLast?_cons, Option.some_or, ← Option.or_some]
      exact ih (h.of_step hstep) hrest

/-- A call lies below a bracket, unless its own comes next. -/
theorem opening_above_call {earlier before next : Option Token} {above below : List Entry}
    {name : String} {argc : Nat}
    (h : Tracks earlier before next (above ++ .call name argc :: below)) :
    above.getLast? = some .opening ∨ above = [] ∧ isNext .opening next = true ∧
      ∃ t ∈ before, t.kind = .identifier ∧ t.text = name := by
  generalize hstack : above ++ .call name argc :: below = stack at h
  cases h with
  | settled h _ _ => exact .inl (h.capped _ _ _ _ hstack.symm)
  | hollow other _ _ h => exact .inl (h.capped.call other 0 _ _ _ _ hstack.symm)
  | named t hbefore hkind hnext h =>
      match above with
      | [] =>
          rw [List.nil_append, List.cons.injEq, Entry.call.injEq] at hstack
          exact .inr ⟨rfl, hnext, t, hbefore, hkind, hstack.1.1.symm⟩
      | e :: above =>
          rw [List.cons_append, List.cons.injEq] at hstack
          rw [List.getLast?_cons, h.capped _ _ _ _ hstack.2.symm]
          exact .inl rfl

theorem operators_on_top {earlier before next : Option Token} {stack : List Entry}
    (h : Tracks earlier before next stack) (hnext : isNext .opening next = false) :
    ∀ e ∈ stack.takeWhile (fun e => !e.isOpening), e.isOperator = true := by
  cases h with
  | settled h _ _ => exact h.operators_on_top
  | named _ _ _ hopen _ =>
      rw [hnext] at hopen
      exact Bool.noConfusion hopen
  | hollow _ _ _ _ => exact fun e he => absurd he List.not_mem_nil

end Tracks

/-! ### Between two tokens -/

/-- What is known of what has been put out and of the stack, once some tokens have been read and the
    next one is the given one. -/
structure Orderly (read : List Token) (next : Option Token) (out : List Token)
    (stack : List Entry) : Prop where
  /-- The brackets on the stack are those that have been opened and not yet closed. -/
  depth : openings stack + read.countP (isSymbol · .closing) =
    read.countP (isSymbol · .opening)
  /-- A call waits right below a bracket. Only one whose name was read last may be on top of the
      stack, and then its bracket comes next. -/
  calls : ∀ above name argc below, stack = above ++ .call name argc :: below →
    above.getLast? = some .opening ∨ above = [] ∧ isNext .opening next = true ∧
      ∃ t ∈ read.getLast?, t.kind = .identifier ∧ t.text = name
  /-- Between two barriers each operator binds more strongly than those below it, except that a
      power may wait on a power. -/
  ranks : ∀ row ∈ rows stack, row.Pairwise Operator.Outranks
  /-- A sign is on top of its row, so there is one at most. -/
  signs : ∀ row ∈ rows stack, row.count .negate ≤ 1 ∧ .negate ∉ row.tail
  /-- No factorial waits. -/
  factorials : ∀ argc, .operator .factorial argc ∉ stack
  /-- What a comma or a closing bracket would release now are operators, so no call is ever put
      out before it is complete. -/
  releases : isNext .opening next = false →
    ∀ e ∈ stack.takeWhile (fun e => !e.isOpening), e.isOperator = true
  /-- No bracket and no comma has been put out. -/
  output : ∀ t ∈ out, isGrouping t = false

/-- After any tokens that have been read without a failure everything is in order, whatever comes
    after them. -/
theorem orderly_of_run (read rest : List Token) {out : List Token} {stack : List Entry}
    (h : run none rest.head? read [] = .ok (out, stack)) :
    Orderly read rest.head? out stack := by
  have hranked := ranked_run h ranked_nil
  have hdepth := openings_run h
  rcases (Tracks.start _).of_run h with ⟨earlier, htracks⟩
  rw [Option.or_none] at htracks
  refine ⟨?_, ?_, fun row hrow => (hranked row hrow).1, fun row hrow => ?_,
    hranked.factorial_notMem, htracks.operators_on_top, ungrouped_run h⟩
  · rw [hdepth]
    exact Nat.zero_add _
  · rintro above name argc below rfl
    exact htracks.opening_above_call
  · have htop := hranked.negate_notMem_tail hrow
    exact ⟨count_le_one htop, htop⟩

-- In the middle of `(1+2^3^-max(4,5))` a sign waits on two powers and a sum, and the call on all of
-- them, its bracket being next.
theorem orderly_of_run_signedPower :
    run none (some (.operator "(")) [.operator "(", .number "1", .operator "+", .number "2",
        .operator "^", .number "3", .operator "^", .operator "-", .identifier "max"] [] =
      .ok ([.number "1", .number "2", .number "3"], [.call "max" 0, .operator .negate none,
        .operator .power none, .operator .power none, .operator .plus none, .opening]) ∧
    Orderly [.operator "(", .number "1", .operator "+", .number "2", .operator "^", .number "3",
        .operator "^", .operator "-", .identifier "max"] (some (.operator "("))
      [.number "1", .number "2", .number "3"] [.call "max" 0, .operator .negate none,
        .operator .power none, .operator .power none, .operator .plus none, .opening] :=
  ⟨rfl, orderly_of_run _ [.operator "(", .number "4", .operator ",", .number "5", .operator ")",
    .operator ")"] rfl⟩

end Postfix

end DeskCalc
