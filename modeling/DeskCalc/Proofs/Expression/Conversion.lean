import DeskCalc.Proofs.Postfix.Release

/-!
# Converting a Spelled Expression

The output of conversion on the tokens of a phrase is the postorder of the expression that the
phrase is taken for, after the signs that it has left over.

A phrase inside an expression is not converted alone: operators of the phrases around it wait
below, and some of its own are still waiting when its last token has been read. `Delivers`
says what conversion of a phrase comes to under these circumstances. It leaves everything
below as it was, and what it has put out, followed by what of it still waits, is its postorder.
Which operators may still wait depends on the strength of the phrase. That is the one place
where precedence enters: an operator that can follow the phrase releases all of them, and
nothing below them.

Each way of building a phrase keeps this (`Delivers.dyad`, `Delivers.factorials`,
`run_bracketed`, ...), and the induction over phrases only has to put these together. A bracket
starts afresh, so the statement for a sum inside brackets needs no knowledge of what surrounds
the brackets.

## Main definitions

* `Postfix.Operand`: Tokens whose edges are those of an operand.
* `Postfix.Delivers`: What conversion of a phrase comes to.
* `Tree.signedPostorder`: Signs left over, then an expression in postorder.

## Theorems

* `Infix.Sum.operand_spell`: A phrase has the edges of an operand.
* `Infix.Sum.delivers`: A phrase delivers the expression that it is taken for.
* `Infix.Sum.ofTokens_spell`: The output on the tokens of a phrase, however many signs it has.
* `Infix.Sum.ofTokens_spell_of_signedOnce`: With one sign for each atom, the output is the
  postorder of the expression that is meant.
-/

namespace DeskCalc

/-! ### The edges of a phrase -/

namespace Postfix

/-- Tokens whose edges are those of an operand: a call that starts with them is not empty, and
    a minus sign after them subtracts. -/
structure Operand (ts : List Token) : Prop where
  /-- They do not start with a closing bracket. -/
  first : isNext .closing ts.head? = false
  /-- No operand has to start after them, so there is at least one of them. -/
  last : startsOperand ts.getLast? = false

namespace Operand

variable {ts us : List Token}

/-- There is a first token, whatever follows. -/
theorem head?_append (h : Operand ts) (us : List Token) : (ts ++ us).head? = ts.head? := by
  match ts with
  | [] => exact Bool.noConfusion h.last
  | t :: _ => rfl

theorem head?_or (h : Operand ts) (after : Option Token) : ts.head?.or after = ts.head? := by
  match ts with
  | [] => exact Bool.noConfusion h.last
  | t :: _ => rfl

/-- There is a last token, whatever came before. -/
theorem getLast?_append (h : Operand us) (ts : List Token) :
    (ts ++ us).getLast? = us.getLast? := by
  match us with
  | [] => exact Bool.noConfusion h.last
  | u :: us => rw [List.getLast?_append, List.getLast?_cons, Option.some_or]

theorem getLast?_or (h : Operand ts) (before : Option Token) :
    ts.getLast?.or before = ts.getLast? := by
  match ts with
  | [] => exact Bool.noConfusion h.last
  | t :: ts => rw [List.getLast?_cons, Option.some_or]

/-- Tokens between two operands belong to the operand that they make. -/
theorem append (hts : Operand ts) (hus : Operand us) (ms : List Token) :
    Operand (ts ++ (ms ++ us)) := by
  refine ⟨?_, ?_⟩
  · rw [hts.head?_append]
    exact hts.first
  · rw [← List.append_assoc, hus.getLast?_append]
    exact hus.last

/-- A token that ends an operand may follow one. -/
theorem concat (hts : Operand ts) {t : Token} (ht : startsOperand (some t) = false) :
    Operand (ts ++ [t]) := by
  refine ⟨?_, ?_⟩
  · rw [hts.head?_append]
    exact hts.first
  · rw [List.getLast?_concat]
    exact ht

/-- A token that is no closing bracket may precede an operand. -/
theorem cons (hts : Operand ts) {t : Token} (ht : isSymbol t .closing = false) :
    Operand (t :: ts) := by
  refine ⟨ht, ?_⟩
  rw [← List.singleton_append, hts.getLast?_append]
  exact hts.last

end Operand

end Postfix

namespace Infix

open Postfix

theorem isSymbol_operator_closing (op : Operator) :
    isSymbol op.token .closing = false :=
  isSymbol_token (.operator op) .closing

theorem isSymbol_operator_opening (op : Operator) :
    isSymbol op.token .opening = false :=
  isSymbol_token (.operator op) .opening

mutual

/-- The edges of a phrase are those of an operand. -/
theorem Sum.operand_spell (s : Sum) : Operand s.spell := by
  match s with
  | .one p => exact p.operand_spell
  | .more s op p => exact s.operand_spell.append p.operand_spell [op.toDyad.toOperator.token]

theorem Product.operand_spell (p : Product) : Operand p.spell := by
  match p with
  | .one p => exact p.operand_spell
  | .more p op q => exact p.operand_spell.append q.operand_spell [op.toDyad.toOperator.token]

theorem Power.operand_spell (p : Power) : Operand p.spell := by
  match p with
  | .one f => exact f.operand_spell
  | .raised f p => exact f.operand_spell.append p.operand_spell [Operator.power.token]

theorem Factor.operand_spell (f : Factor) : Operand f.spell := by
  match f with
  | .mk signs a factorials =>
      -- Signs go in front of the atom one by one, factorials behind it.
      have hsigned : ∀ n, Operand (List.replicate n Operator.minus.token ++ a.spell) := by
        intro n
        induction n with
        | zero => exact a.operand_spell
        | succ n ih => exact ih.cons (isSymbol_operator_closing .minus)
      rw [Factor.spell]
      induction factorials with
      | zero => rw [List.replicate_zero, List.append_nil]; exact hsigned signs
      | succ n ih =>
          rw [List.replicate_succ', ← List.append_assoc]
          exact ih.concat (startsOperand_token (.operator .factorial))

theorem Atom.operand_spell (a : Atom) : Operand a.spell := by
  match a with
  | .number _ => exact ⟨rfl, rfl⟩
  | .constant _ => exact ⟨rfl, rfl⟩
  | .group s =>
      have hsum := s.operand_spell.cons (isSymbol_token .opening .closing)
      exact hsum.concat (startsOperand_token .closing)
  | .call name args =>
      have hargs := args.operand_spell.cons (isSymbol_token .opening .closing)
      have hname := hargs.cons (t := .identifier name) rfl
      exact hname.concat (startsOperand_token .closing)

theorem Arguments.operand_spell (args : Arguments) : Operand args.spell := by
  match args with
  | .one s => exact s.operand_spell
  | .more s rest => exact s.operand_spell.append rest.operand_spell [Symbol.comma.token]

end

end Infix

/-! ### What a phrase delivers -/

namespace Postfix

/-- What conversion of a phrase comes to, between the given tokens. It turns one stack into
    another, with some operators on top that are still waiting. They all satisfy the predicate,
    and released after the output they complete the phrase's postorder. -/
def Delivers (p : Entry → Bool) (before after : Option Token) (ts : List Token)
    (stack last : List Entry) (post : List Token) : Prop :=
  ∃ out pending, run before after ts stack = .ok (out, pending ++ last) ∧
    (∀ e ∈ pending, p e = true) ∧ out ++ pending.filterMap Entry.released? = post

namespace Delivers

variable {p q r : Entry → Bool} {before after : Option Token} {ts us left right post : List Token}
  {stack last : List Entry}

/-- Nothing waits after a run that has put everything out. -/
theorem of_run (h : run before after ts stack = .ok (post, last)) :
    Delivers p before after ts stack last post := by
  refine ⟨post, [], h, nofun, ?_⟩
  rw [List.filterMap_nil, List.append_nil]

/-- What may wait may be described more generously. -/
theorem mono (h : Delivers p before after ts stack last post)
    (hpq : ∀ e, p e = true → q e = true) : Delivers q before after ts stack last post := by
  rcases h with ⟨out, pending, hrun, hpending, hpost⟩
  exact ⟨out, pending, hrun, fun e he => hpq e (hpending e he), hpost⟩

/-- Two operands and the operator between them. The operator releases what the left operand has
    left, and waits below what the right operand has left. -/
theorem dyad (op : Dyad) (hl : Delivers p before (some op.toOperator.token) ts stack stack left)
    (hr : Delivers q (some op.toOperator.token) after us
      (.operator op.toOperator none :: stack) (.operator op.toOperator none :: stack) right)
    (hts : Operand ts) (hstack : Ready (Entry.yieldsTo op.toOperator) stack)
    (hp : ∀ e, p e = true → e.yieldsTo op.toOperator = true) (hq : ∀ e, q e = true → r e = true)
    (hop : r (.operator op.toOperator none) = true) :
    Delivers r before after (ts ++ op.toOperator.token :: us) stack stack
      (left ++ (right ++ [op.toOperator.token])) := by
  rcases hl with ⟨out, pending, hrun, hpending, hpost⟩
  rcases hr with ⟨out', pending', hrun', hpending', hpost'⟩
  -- The operator follows the last token of an operand, so a minus sign here subtracts.
  have hstep := step_dyad (us.head?.or after) hts.last
    (fun e he => hp e (hpending e he)) hstack
  rw [← hts.getLast?_or before] at hstep
  refine ⟨out ++ (pending.filterMap Entry.released? ++ out'),
    pending' ++ [.operator op.toOperator none], ?_, ?_, ?_⟩
  · rw [List.append_assoc, List.singleton_append]
    exact run_append_ok hrun (run_cons_ok hstep hrun')
  · -- What is pending now is what the right operand has left, and the operator below it.
    intro e he
    rcases List.mem_append.mp he with he | he
    · exact hq e (hpending' e he)
    · rw [List.mem_singleton.mp he]
      exact hop
  · rw [← hpost, ← hpost', List.filterMap_append]
    simp only [List.append_assoc]
    rfl

/-- Factorials release the sign that an operand has left and leave nothing waiting. -/
theorem factorials (n : Nat) (hstack : Ready Entry.isSign stack)
    (h : ∀ after, isNext .opening after = false →
      Delivers Entry.isSign before after ts stack stack post)
    (hafter : isNext .opening after = false) :
    Delivers Entry.isSign before after (ts ++ List.replicate n Operator.factorial.token) stack
      stack (post ++ List.replicate n Operator.factorial.token) := by
  induction n generalizing after with
  | zero =>
      rw [List.replicate_zero, List.append_nil, List.append_nil]
      exact h after hafter
  | succ n ih =>
      -- The last factorial finds what the operand and the factorials before it have left.
      have hbang : isNext .opening (some Operator.factorial.token) = false := rfl
      rcases ih hbang with ⟨out, pending, hrun, hpending, hpost⟩
      refine of_run ?_
      rw [List.replicate_succ', ← List.append_assoc, ← List.append_assoc, ← hpost,
        List.append_assoc out]
      exact run_append_ok hrun (run_singleton_ok (step_factorial _ after hpending hstack))

end Delivers

/-- Each sign after a sign that waits releases it and waits instead. -/
theorem run_signs (n : Nat) (before after : Option Token) {stack : List Entry}
    (hbefore : startsOperand before = true) (hstack : Ready (Entry.yieldsTo .negate) stack) :
    run before after (List.replicate n Operator.minus.token) (.operator .negate none :: stack) =
      .ok (List.replicate n Operator.negate.token, .operator .negate none :: stack) := by
  induction n generalizing before with
  | zero => rfl
  | succ n ih =>
      -- The sign that waits is of the same rank as the one that arrives, and leaves.
      have hpending : ∀ e ∈ [Entry.operator .negate none], e.yieldsTo .negate = true := by
        intro e he
        rw [List.mem_singleton.mp he]
        rfl
      rw [List.replicate_succ, List.replicate_succ]
      exact run_cons_ok (step_sign _ [.operator .negate none] stack hbefore hpending hstack)
        (ih (some Operator.minus.token) rfl)

/-- Signs before an operand. The last of them waits for the operand, and the others have left
    before it comes. -/
theorem Delivers.signs (n : Nat) {before after : Option Token} {ts post : List Token}
    {stack : List Entry} (hbefore : startsOperand before = true)
    (hstack : Ready (Entry.yieldsTo .negate) stack)
    (h : run (some Operator.minus.token) after ts (.operator .negate none :: stack) =
      .ok (post, .operator .negate none :: stack)) :
    Delivers Entry.isSign before after (List.replicate (n + 1) Operator.minus.token ++ ts) stack
      stack (List.replicate n Operator.negate.token ++ (post ++ [Operator.negate.token])) := by
  refine ⟨List.replicate n Operator.negate.token ++ post, [.operator .negate none], ?_, ?_, ?_⟩
  · -- The first sign waits on the stack as it was, and each of the others takes its place.
    have hfirst := step_sign ((List.replicate n Operator.minus.token).head?.or (ts.head?.or after))
      [] stack hbefore nofun hstack
    have hsigns := run_cons_ok hfirst
      (run_signs n (some Operator.minus.token) (ts.head?.or after) rfl hstack)
    have hlast : (List.replicate (n + 1) Operator.minus.token).getLast?.or before
        = some Operator.minus.token := by
      rw [List.replicate_succ', List.getLast?_concat, Option.some_or]
    rw [← hlast] at h
    exact run_append_ok hsigns h
  · intro e he
    rw [List.mem_singleton.mp he]
    rfl
  · rw [List.append_assoc]
    rfl

/-- A phrase in brackets has left nothing waiting. -/
theorem run_group {p q : Entry → Bool} {op : Operator} (before after : Option Token)
    {ts post : List Token} {stack : List Entry} (hstack : Ready q stack)
    (h : Delivers p (some Symbol.opening.token) (some Symbol.closing.token) ts
      (.opening :: stack) (.opening :: stack) post)
    (hp : ∀ e, p e = true → e.yieldsTo op = true) :
    run before after (Symbol.opening.token :: ts ++ [Symbol.closing.token]) stack =
      .ok (post, stack) := by
  rcases h with ⟨out, pending, hrun, hpending, hpost⟩
  have hclose := step_closing (ts.getLast?.or (some Symbol.opening.token)) after
    (fun e he => hp e (hpending e he)) hstack
  -- Inside the brackets the run starts above the opening one, and ends there.
  have hinner := run_append_ok hrun (run_singleton_ok hclose)
  rw [hpost] at hinner
  exact run_cons_ok (step_opening before _ hstack) hinner

/-- Two arguments, or lists of them, and the comma between them, which counts the second. -/
theorem Delivers.comma {p : Entry → Bool} {op : Operator} {before after : Option Token}
    {ts us left right : List Token} {name : String} {argc : Nat} {stack last : List Entry}
    (hl : Delivers (Entry.yieldsTo op) before (some Symbol.comma.token) ts
      (.opening :: .call name argc :: stack) (.opening :: .call name argc :: stack) left)
    (hr : Delivers p (some Symbol.comma.token) after us
      (.opening :: .call name (argc + 1) :: stack) last right) :
    Delivers p before after (ts ++ Symbol.comma.token :: us)
      (.opening :: .call name argc :: stack) last (left ++ right) := by
  rcases hl with ⟨out, pending, hrun, hpending, hpost⟩
  rcases hr with ⟨out', pending', hrun', hpending', hpost'⟩
  have hstep := step_comma (ts.getLast?.or before) (us.head?.or after) name argc stack hpending
  refine ⟨out ++ (pending.filterMap Entry.released? ++ out'), pending', ?_, hpending', ?_⟩
  · exact run_append_ok hrun (run_cons_ok hstep hrun')
  · rw [← hpost, ← hpost']
    simp only [List.append_assoc]

/-- A call in full has become one token after its arguments. -/
theorem run_call {p : Entry → Bool} {op : Operator} (before after : Option Token)
    {ts post : List Token} {stack : List Entry} (name : String) {argc : Nat} (hts : Operand ts)
    (hargc : 0 < argc)
    (h : Delivers p (some Symbol.opening.token) (some Symbol.closing.token) ts
      (.opening :: .call name 1 :: stack) (.opening :: .call name argc :: stack) post)
    (hp : ∀ e, p e = true → e.yieldsTo op = true) :
    run before after
        (.identifier name :: Symbol.opening.token :: ts ++ [Symbol.closing.token]) stack =
      .ok (post ++ [.call name argc], stack) := by
  rcases h with ⟨out, pending, hrun, hpending, hpost⟩
  -- The closing bracket releases what the last argument has left, and then the call.
  have hclose := step_closing_call (ts.getLast?.or (some Symbol.opening.token)) after name stack
    hargc fun e he => hp e (hpending e he)
  have hinner := run_append_ok hrun (run_singleton_ok hclose)
  rw [← List.append_assoc, hpost] at hinner
  -- The bracket that opens the call has an argument after it, so the count starts at one.
  have hnext : isNext .closing ((ts ++ [Symbol.closing.token]).head?.or after) = false := by
    rw [hts.head?_append, hts.head?_or]
    exact hts.first
  have hopen := step_opening_call (some (.identifier name)) name stack hnext
  have hbracket := run_cons_ok hopen hinner
  have hname := step_name before (some Symbol.opening.token) name stack
    (isSymbol_token .opening .opening)
  have hall : run before after
      (.identifier name :: Symbol.opening.token :: (ts ++ [Symbol.closing.token])) stack =
      .ok ([] ++ ([] ++ (post ++ [.call name argc])), stack) := run_cons_ok hname hbracket
  exact hall

end Postfix

/-! ### The induction over phrases -/

/-- Signs that have no operand yet, then an expression in postorder. -/
def Tree.signedPostorder (n : Nat) (t : Tree) : List Token :=
  List.replicate n Operator.negate.token ++ t.postorder

/-- Signs left over by the right operand are signs of the left operand. -/
theorem Tree.signedPostorder_binary (m n : Nat) (op : Dyad) (l r : Tree) :
    signedPostorder m (.binary op (l.negated n) r) =
      signedPostorder m l ++ (signedPostorder n r ++ [op.toOperator.token]) := by
  simp only [signedPostorder, postorder, postorder_negated, List.append_assoc]

/-- Factorials are taken of what the signs have been applied to. -/
theorem Tree.signedPostorder_factorials (m n : Nat) (t : Tree) :
    signedPostorder m (t.factorials n) =
      signedPostorder m t ++ List.replicate n Operator.factorial.token := by
  rw [signedPostorder, postorder_factorials, ← List.append_assoc, ← signedPostorder]

namespace Infix

open Postfix

mutual

/-- A sum delivers the expression that it is taken for, after the signs that it has left
    over. -/
theorem Sum.delivers (s : Sum) (before after : Option Token) (stack : List Entry)
    (hbefore : startsOperand before = true) (hafter : isNext .opening after = false)
    (hstack : Ready (Entry.yieldsTo .plus) stack) :
    Delivers (Entry.yieldsTo .plus) before after s.spell stack stack
      (s.reading.signedPostorder s.surplus) := by
  match s with
  | .one p =>
      have hp := p.delivers before after stack hbefore hafter (hstack.mono Entry.yieldsTo_plus_of_times)
      exact hp.mono Entry.yieldsTo_plus_of_times
  | .more s op p =>
      -- The right operand starts above the operator, which nothing inside it releases.
      have hs := s.delivers before (some op.toDyad.toOperator.token) stack hbefore
        (isSymbol_operator_opening _) hstack
      have hp := p.delivers (some op.toDyad.toOperator.token) after
        (.operator op.toDyad.toOperator none :: stack) (by cases op <;> rfl) hafter
        (ready_cons (by cases op <;> rfl) rfl)
      rw [Sum.reading, Sum.surplus, Tree.signedPostorder_binary]
      cases op <;>
        exact hs.dyad _ hp s.operand_spell hstack (fun _ he => he) Entry.yieldsTo_plus_of_times rfl

theorem Product.delivers (p : Product) (before after : Option Token) (stack : List Entry)
    (hbefore : startsOperand before = true) (hafter : isNext .opening after = false)
    (hstack : Ready (Entry.yieldsTo .times) stack) :
    Delivers (Entry.yieldsTo .times) before after p.spell stack stack
      (p.reading.signedPostorder p.surplus) := by
  match p with
  | .one p =>
      exact p.delivers before after stack hbefore hafter (hstack.mono Entry.yieldsTo_times_of_power)
  | .more p op q =>
      -- As in a sum, and the left operand may leave any product waiting.
      have hp := p.delivers before (some op.toDyad.toOperator.token) stack hbefore
        (isSymbol_operator_opening _) hstack
      have hq := q.delivers (some op.toDyad.toOperator.token) after
        (.operator op.toDyad.toOperator none :: stack) (by cases op <;> rfl) hafter
        (ready_cons (by cases op <;> rfl) rfl)
      rw [Product.reading, Product.surplus, Tree.signedPostorder_binary]
      cases op <;>
        exact hp.dyad _ hq p.operand_spell hstack (fun _ he => he) (fun _ he => he) rfl

theorem Power.delivers (p : Power) (before after : Option Token) (stack : List Entry)
    (hbefore : startsOperand before = true) (hafter : isNext .opening after = false)
    (hstack : Ready (Entry.yieldsTo .power) stack) :
    Delivers (Entry.yieldsTo .times) before after p.spell stack stack
      (p.reading.signedPostorder p.surplus) := by
  match p with
  | .one f =>
      have hf := f.delivers before after stack hbefore hafter hstack
      exact hf.mono fun e he => e.yieldsTo_times_of_power (e.yieldsTo_power_of_isSign he)
  | .raised f p =>
      -- A power waits for a power on its right, and only a product or a sum releases both.
      have hf := f.delivers before (some Operator.power.token) stack hbefore rfl hstack
      have hp := p.delivers (some Operator.power.token) after (.operator .power none :: stack) rfl
        hafter (ready_cons rfl rfl)
      rw [Power.reading, Power.surplus, Tree.signedPostorder_binary]
      exact hf.dyad .power hp f.operand_spell hstack Entry.yieldsTo_power_of_isSign
        (fun _ he => he) rfl

theorem Factor.delivers (f : Factor) (before after : Option Token) (stack : List Entry)
    (hbefore : startsOperand before = true) (hafter : isNext .opening after = false)
    (hstack : Ready (Entry.yieldsTo .power) stack) :
    Delivers Entry.isSign before after f.spell stack stack
      (f.reading.signedPostorder f.surplus) := by
  match f with
  | .mk signs a factorials =>
      -- The signs and the atom come first, followed by a factorial or by what comes after.
      have hsigned : ∀ after, isNext .opening after = false → Delivers Entry.isSign before after
          (List.replicate signs Operator.minus.token ++ a.spell) stack stack
          ((a.reading.negated (min signs 1)).signedPostorder (signs - 1 + a.surplus)) := by
        intro after hafter
        match signs with
        | 0 =>
            rw [Nat.zero_min, Tree.negated, Nat.zero_sub, Nat.zero_add]
            exact Delivers.of_run (a.run_spell before after stack hafter hstack)
        | n + 1 =>
            have hatom := a.run_spell (some Operator.minus.token) after
              (.operator .negate none :: stack) (p := Entry.isOpening) hafter (ready_cons rfl rfl)
            have hsigns := Delivers.signs n hbefore
              (hstack.mono Entry.yieldsTo_power_of_negate) hatom
            -- The last sign follows the atom, all others join those that the atom left over.
            have hpost : (a.reading.negated (min (n + 1) 1)).signedPostorder
                (n + 1 - 1 + a.surplus) = List.replicate n Operator.negate.token ++
                  (a.reading.signedPostorder a.surplus ++ [Operator.negate.token]) := by
              rw [Nat.min_eq_right (by omega), Nat.add_sub_cancel, Tree.signedPostorder,
                Tree.postorder_negated, ← List.replicate_append_replicate,
                Tree.signedPostorder]
              simp only [List.append_assoc, List.replicate_one]
            rw [hpost]
            exact hsigns
      rw [Factor.spell, Factor.reading, Factor.surplus, Tree.signedPostorder_factorials]
      exact Delivers.factorials factorials (hstack.mono Entry.yieldsTo_power_of_isSign) hsigned
        hafter

/-- An atom leaves nothing waiting. -/
theorem Atom.run_spell (a : Atom) (before after : Option Token) (stack : List Entry)
    {p : Entry → Bool} (hafter : isNext .opening after = false)
    (hstack : Ready p stack) :
    run before after a.spell stack = .ok (a.reading.signedPostorder a.surplus, stack) := by
  match a with
  | .number text => exact run_singleton_ok (step_number before after text stack)
  | .constant name => exact run_singleton_ok (step_constant before name stack hafter)
  | .group s =>
      -- Above its bracket a sum is ready, whatever lies below.
      have hs := s.delivers (some Symbol.opening.token) (some Symbol.closing.token)
        (.opening :: stack) rfl rfl (ready_cons rfl rfl)
      exact run_group before after hstack hs fun _ he => he
  | .call name args =>
      -- The bracket counts the first argument, and the arguments count the others.
      have hargs := args.delivers (some Symbol.opening.token) (some Symbol.closing.token) name 0
        stack rfl rfl
      rw [Nat.zero_add, Nat.zero_add] at hargs
      have hcall := run_call before after name args.operand_spell args.length_pos hargs
        fun _ he => he
      rw [Atom.surplus, Atom.reading, Tree.signedPostorder, Tree.postorder,
        args.length_readings, ← List.append_assoc]
      exact hcall

/-- Arguments count themselves in the call that they are arguments of. -/
theorem Arguments.delivers (args : Arguments) (before after : Option Token) (name : String)
    (argc : Nat) (stack : List Entry)
    (hbefore : startsOperand before = true) (hafter : isNext .opening after = false) :
    Delivers (Entry.yieldsTo .plus) before after args.spell
      (.opening :: .call name (argc + 1) :: stack)
      (.opening :: .call name (argc + args.length) :: stack)
      (List.replicate args.surplus Operator.negate.token ++ args.readings.postorder) := by
  match args with
  | .one s => exact s.delivers before after _ hbefore hafter (ready_cons rfl rfl)
  | .more s rest =>
      have hs := s.delivers before (some Symbol.comma.token)
        (.opening :: .call name (argc + 1) :: stack) hbefore rfl (ready_cons rfl rfl)
      have hrest := rest.delivers (some Symbol.comma.token) after name (argc + 1) stack rfl hafter
      have hcount : argc + 1 + rest.length = argc + (Arguments.more s rest).length := by
        rw [Arguments.length]
        omega
      rw [hcount] at hrest
      have hboth := hs.comma hrest
      rw [Arguments.surplus, Arguments.readings, Trees.postorder, Tree.postorder_negated]
      rw [Tree.signedPostorder] at hboth
      simp only [List.append_assoc] at hboth ⊢
      exact hboth

end

/-! ### Whole expressions -/

/-- Operators that still wait at the end are released. -/
theorem flush_eq {pending : List Entry} (hpending : ∀ e ∈ pending, e.yieldsTo .plus = true) :
    flush pending = .ok (pending.filterMap Entry.released?) := by
  induction pending with
  | nil => rfl
  | cons e pending ih =>
      have hrest := ih fun d hd => hpending d (List.mem_cons_of_mem e hd)
      match e, hpending e List.mem_cons_self with
      | .operator op argc, _ =>
          rw [flush, hrest]
          rfl

/-- The output on the tokens of a phrase, however many signs its atoms have: the expression that
    the phrase is taken for, after the signs that have found no operand at all. -/
theorem Sum.ofTokens_spell (s : Sum) :
    ofTokens s.spell = .ok (s.reading.signedPostorder s.surplus) := by
  have hstack : Ready (Entry.yieldsTo .plus) [] := fun e he => nomatch he
  -- Nothing lies below, so what is pending at the end is all that is left to release.
  rcases s.delivers none none [] rfl rfl hstack with ⟨out, pending, hrun, hpending, hpost⟩
  rw [List.append_nil] at hrun
  rw [ofTokens, hrun]
  simp only [bind, Except.bind, flush_eq hpending, pure, Except.pure, hpost]

/-- With at most one sign for each atom, the output on the tokens of a phrase is the postorder of
    the expression that the phrase means, at any depth and with any brackets. -/
theorem Sum.ofTokens_spell_of_signedOnce (s : Sum) (h : s.SignedOnce) :
    ofTokens s.spell = .ok s.tree.postorder := by
  rw [s.ofTokens_spell, s.surplus_eq_zero h, s.reading_eq_tree h, Tree.signedPostorder,
    List.replicate_zero, List.nil_append]

/-- All of the grammar at once: `max(-2^3!,((4)))-x`, which has a call of two arguments, a sign,
    a factorial and brackets that are not needed. -/
theorem ofTokens_call_minus_constant :
    ofTokens [.identifier "max", .operator "(", .operator "-", .number "2", .operator "^",
        .number "3", .operator "!", .operator ",", .operator "(", .operator "(", .number "4",
        .operator ")", .operator ")", .operator ")", .operator "-", .identifier "x"] =
      .ok [.number "2", .operator "u-", .number "3", .operator "!", .operator "^", .number "4",
        .call "max" 2, .identifier "x", .operator "-"] :=
  let bracketed (a : Atom) : Atom := .group (.one (.one (.one (.mk 0 a 0))))
  let first : Sum := .one (.one (.raised (.mk 1 (.number "2") 0) (.one (.mk 0 (.number "3") 1))))
  let second : Sum := .one (.one (.one (.mk 0 (bracketed (bracketed (.number "4"))) 0)))
  let call : Atom := .call "max" (.more first (.one second))
  Sum.ofTokens_spell_of_signedOnce
    (.more (.one (.one (.one (.mk 0 call 0)))) .minus (.one (.one (.mk 0 (.constant "x") 0))))
    (by simp only [call, first, second, bracketed, Sum.SignedOnce, Product.SignedOnce,
      Power.SignedOnce, Factor.SignedOnce, Atom.SignedOnce, Arguments.SignedOnce, Nat.le_refl,
      Nat.zero_le, and_self])

end Infix

end DeskCalc
