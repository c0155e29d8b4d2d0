import DeskCalc.Proofs.Postfix.Nesting

/-!
# Redundant Brackets

Brackets around all of an expression, and a second pair around a first one, change nothing in the
output, nor in the failure if there is one.

What stands inside a bracket is converted without a look below it. Every release stops at the
bracket, a call that is completed is one that was opened inside, and the bracket itself goes only
when it is closed. There is one thing that gets through: a comma that belongs to no call inside is
counted for the innermost call outside. So a step over a bracket is the step on what lies above
it, except for a number of commas (`step_over`), and it follows that tokens whose own brackets
balance do the same above any bracket, whatever is below it (`Sheltered`).

Of a second pair of brackets nothing is seen from below but these commas, and counting passes the
bracket. The neighbours of the tokens are the same with one pair and with two, which matters to a
minus sign at the front and a name at the end. Without a first pair they are not, but the front of
an expression starts an operand as a bracket does, and at the end no call may be open.

## Main definitions

* `Postfix.depth?`, `Postfix.BalancedBrackets`: That tokens close the brackets that they open.
* `Postfix.Sheltered`: What tokens do above a bracket.

## Theorems

* `Postfix.step_over`: A step over a bracket.
* `Postfix.sheltered_step`, `Postfix.sheltered_run`: Balanced tokens over a bracket.
* `Postfix.run_enclosed`: A run between brackets.
* `Postfix.run_doubled`: A second pair of brackets.
* `Postfix.ofTokens_redundant`: Redundant brackets change nothing.
-/

namespace DeskCalc

namespace Postfix

/-! ### Balance -/

/-- The depth after tokens, if none of them closes a bracket where none is open. -/
def depth? : Nat → List Token → Option Nat
  | depth, [] => some depth
  | depth, t :: ts =>
    if isSymbol t .closing = true ∧ depth = 0 then none else depth? (depthAfter depth t) ts

/-- That tokens close the brackets that they open, and no others. -/
def BalancedBrackets (ts : List Token) : Prop := depth? 0 ts = some 0

instance (ts : List Token) : Decidable (BalancedBrackets ts) := inferInstanceAs (Decidable (_ = _))

/-! ### Brackets on a stack -/

/-- Entries without a bracket make no difference to the depth. -/
theorem openings_append {pending : List Entry} (h : openings pending = 0) (base : List Entry) :
    openings (pending ++ base) = openings base := by
  unfold openings at h ⊢
  rw [List.countP_append, h, Nat.zero_add]

theorem openings_countComma (stack : List Entry) :
    openings (countComma stack) = openings stack := by
  induction stack with
  | nil => rfl
  | cons e stack ih =>
      cases e with
      | call name argc => rfl
      | operator op argc => exact ih
      | opening =>
          change openings (.opening :: countComma stack) = _
          rw [openings_opening, openings_opening, ih]

theorem openings_eq_zero_iff {stack : List Entry} :
    openings stack = 0 ↔ ∀ e ∈ stack, e.isOpening = false := by
  simp only [openings, List.countP_eq_zero, Bool.not_eq_true]

theorem openings_operators {stack : List Entry} (h : ∀ e ∈ stack, e.isOperator = true) :
    openings stack = 0 := by
  rw [openings_eq_zero_iff]
  intro e he
  match e, h e he with
  | .operator _ _, _ => rfl

/-- A release down to a bracket takes everything where there is none. -/
theorem release_eq_nil_iff {stack : List Entry} :
    (release (fun e => !e.isOpening) stack).2 = [] ↔ openings stack = 0 := by
  rw [openings_eq_zero_iff, release, List.dropWhile_eq_nil_iff]
  simp only [Bool.not_eq_true']

theorem exists_innermost {stack : List Entry} (h : openings stack ≠ 0) :
    ∃ pending inner, stack = pending ++ .opening :: inner ∧
      ∀ e ∈ pending, e.isOpening = false := by
  rcases release_to_bracket stack with ⟨all, hrel⟩ | ⟨pending, inner, hstack, _, hpending⟩
  · exact absurd (release_eq_nil_iff.mp (by rw [hrel])) h
  · exact ⟨pending, inner, hstack, hpending⟩

theorem release_to_innermost {pending : List Entry} (h : ∀ e ∈ pending, e.isOpening = false)
    (base : List Entry) :
    release (fun e => !e.isOpening) (pending ++ .opening :: base) =
      (pending.filterMap Entry.released?, .opening :: base) := by
  refine release_append ?_ ?_
  · intro e he
    rw [h e he]
    rfl
  · rintro e ⟨⟩
    rfl

theorem stepSymbol_comma (before next : Option Token) (t : Token) {pending : List Entry}
    (h : ∀ e ∈ pending, e.isOpening = false) (base : List Entry) :
    stepSymbol before next t (pending ++ .opening :: base) .comma =
      .ok (pending.filterMap Entry.released?, .opening :: countComma base) := by
  rw [stepSymbol, release_to_innermost h]
  rfl

theorem stepSymbol_closing (before next : Option Token) (t : Token) {pending : List Entry}
    (h : ∀ e ∈ pending, e.isOpening = false) (base : List Entry) :
    stepSymbol before next t (pending ++ .opening :: base) .closing =
      (closeBracket base).map fun p => (pending.filterMap Entry.released? ++ p.1, p.2) := by
  rw [stepSymbol, release_to_innermost h]

/-! ### A step over a bracket -/

/-- What a step comes to if there is a bracket below its stack, where it leaves everything in place
    but counts commas. -/
def atop (commas : Nat) (base : List Entry) (p : List Token × List Entry) :
    List Token × List Entry :=
  (p.1, p.2 ++ .opening :: countComma^[commas] base)

theorem release_over {p : Entry → Bool} (hp : p .opening = false) (stack base : List Entry) :
    release p (stack ++ .opening :: base) = atop 0 base (release p stack) := by
  rcases release_eq p stack with ⟨pending, below, rfl, hrel, hpending, hbelow⟩
  rw [hrel, List.append_assoc]
  -- The release has ended where it did before, or else it ends at the bracket.
  refine release_append hpending ?_
  match below with
  | [] =>
      rintro e ⟨⟩
      exact hp
  | d :: below => exact hbelow

theorem pushOperator_over (op : Operator) (argc : Option Int) (stack base : List Entry) :
    pushOperator op argc (stack ++ .opening :: base) =
      atop 0 base (pushOperator op argc stack) := by
  rw [pushOperator, release_over rfl]
  rfl

theorem openCall_over (next : Option Token) (stack base : List Entry) :
    openCall next (stack ++ .opening :: base) = openCall next stack ++ .opening :: base := by
  match stack with
  | [] => rfl
  | .operator _ _ :: _ => rfl
  | .opening :: _ => rfl
  | .call _ 0 :: _ => rfl
  | .call _ (_ + 1) :: _ => rfl

theorem closeBracket_over (stack base : List Entry) :
    closeBracket (stack ++ .opening :: base) = (closeBracket stack).map (atop 0 base) := by
  match stack with
  | [] => rfl
  | .operator _ _ :: _ => rfl
  | .opening :: _ => rfl
  | .call name argc :: rest =>
      rw [List.cons_append, closeBracket, closeBracket]
      split
      · rfl
      · rfl

/-- A comma that finds no call above a bracket is counted below it. -/
theorem countComma_over (stack : List Entry) :
    ∃ k, ∀ base, countComma (stack ++ .opening :: base) =
      countComma stack ++ .opening :: countComma^[k] base := by
  -- The search for a call goes down past operators and brackets, the one below included.
  induction stack with
  | nil => exact ⟨1, fun base => rfl⟩
  | cons e stack ih =>
      rcases ih with ⟨k, hk⟩
      cases e with
      | call name argc => exact ⟨0, fun base => rfl⟩
      | operator op argc => exact ⟨k, fun base => congrArg (Entry.operator op argc :: ·) (hk base)⟩
      | opening => exact ⟨k, fun base => congrArg (Entry.opening :: ·) (hk base)⟩

theorem stepOperator_over (before next : Option Token) (t : Token) (op : Operator)
    (stack base : List Entry) :
    stepSymbol before next t (stack ++ .opening :: base) (.operator op) =
      (stepSymbol before next t stack (.operator op)).map (atop 0 base) := by
  cases op with
  | minus =>
      unfold stepSymbol
      simp only [pushOperator_over]
      split
      · rfl
      · rfl
  | factorial =>
      unfold stepSymbol
      simp only [release_over (p := Entry.isSign) rfl]
      rfl
  | negate | power | times | divide | remainder | plus =>
      exact congrArg Except.ok (pushOperator_over _ _ _ _)

theorem stepSymbol_over (before next : Option Token) (t : Token) {stack : List Entry} {s : Symbol}
    (h : s = .comma ∨ s = .closing → openings stack ≠ 0) :
    ∃ k, ∀ base, stepSymbol before next t (stack ++ .opening :: base) s =
      (stepSymbol before next t stack s).map (atop k base) := by
  cases s with
  | comma =>
      rcases exists_innermost (h (.inl rfl)) with ⟨pending, inner, rfl, hpending⟩
      rcases countComma_over inner with ⟨k, hk⟩
      refine ⟨k, fun base => ?_⟩
      rw [List.append_assoc, List.cons_append, stepSymbol_comma _ _ _ hpending,
        stepSymbol_comma _ _ _ hpending, hk]
      rfl
  | opening =>
      refine ⟨0, fun base => ?_⟩
      rw [stepSymbol, stepSymbol, openCall_over]
      rfl
  | closing =>
      -- A call that is completed lies right below the bracket that is closed, so above the other.
      rcases exists_innermost (h (.inr rfl)) with ⟨pending, inner, rfl, hpending⟩
      refine ⟨0, fun base => ?_⟩
      rw [List.append_assoc, List.cons_append, stepSymbol_closing _ _ _ hpending,
        stepSymbol_closing _ _ _ hpending, closeBracket_over]
      cases closeBracket inner with
      | error f => rfl
      | ok p => rfl
  | operator op => exact ⟨0, stepOperator_over before next t op stack⟩

/-- A step over a bracket is the step on what lies above it. Only a comma and a closing bracket
    need one of their own there. -/
theorem step_over (before next : Option Token) {t : Token} {stack : List Entry}
    (h : isSymbol t .comma = true ∨ isSymbol t .closing = true → openings stack ≠ 0) :
    ∃ k, ∀ base, step before next t (stack ++ .opening :: base) =
      (step before next t stack).map (atop k base) := by
  -- Operands and tokens that are refused do not look at the stack.
  unfold step
  cases hkind : t.kind with
  | unknown => exact ⟨0, fun base => rfl⟩
  | call => exact ⟨0, fun base => rfl⟩
  | number => exact ⟨0, fun base => rfl⟩
  | identifier =>
      refine ⟨0, fun base => ?_⟩
      dsimp only
      split
      · rfl
      · rfl
  | operator =>
      cases hs : Symbol.ofText? t.text with
      | none => exact ⟨0, fun base => rfl⟩
      | some s =>
          refine stepSymbol_over before next t ?_
          rw [isSymbol_eq hkind hs, isSymbol_eq hkind hs, beq_iff_eq, beq_iff_eq] at h
          exact h

/-! ### Balanced tokens over a bracket -/

theorem openings_openCall (next : Option Token) (stack : List Entry) :
    openings (openCall next stack) = openings stack := by
  match stack with
  | [] => rfl
  | .operator _ _ :: _ => rfl
  | .opening :: _ => rfl
  | .call _ 0 :: _ => rfl
  | .call _ (_ + 1) :: _ => rfl

theorem depthAfter_of_isSymbol {t : Token} {s : Symbol} (ht : isSymbol t s = true) (depth : Nat) :
    depthAfter depth t =
      if s = .opening then depth + 1 else if s = .closing then depth - 1 else depth := by
  simp only [depthAfter, isSymbol_other ht, beq_iff_eq]

theorem depthAfter_operand {t : Token} (hkind : t.kind ≠ .operator) (depth : Nat) :
    depthAfter depth t = depth := by
  simp only [depthAfter, isSymbol_eq_false hkind, Bool.false_eq_true, if_false]

/-- The depth after a step that succeeds. -/
theorem openings_of_step {before next : Option Token} {t : Token} {stack rest : List Entry}
    {out : List Token} (h : step before next t stack = .ok (out, rest)) :
    openings rest = depthAfter (openings stack) t := by
  -- What is released has no bracket in it, so only the token itself counts.
  cases effect_of_step h with
  | operand hkind =>
      refine (depthAfter_operand ?_ _).symm
      rcases hkind with hkind | ⟨hkind, _⟩ <;> rw [hkind] <;> exact TokenKind.noConfusion
  | name hkind _ =>
      refine (depthAfter_operand ?_ _).symm
      rw [hkind]
      exact TokenKind.noConfusion
  | comma ht hpending =>
      rw [depthAfter_of_isSymbol ht, openings_append (openings_eq_zero_iff.mpr hpending),
        openings_opening, openings_opening, openings_countComma]
      rfl
  | opening ht =>
      rw [depthAfter_of_isSymbol ht, openings_opening, openings_openCall]
      rfl
  | group ht hpending _ =>
      rw [depthAfter_of_isSymbol ht, openings_append (openings_eq_zero_iff.mpr hpending),
        openings_opening]
      rfl
  | call name ht hpending _ =>
      rw [depthAfter_of_isSymbol ht, openings_append (openings_eq_zero_iff.mpr hpending),
        openings_opening, openings_call]
      rfl
  | sign ht _ hpending _ =>
      have hops := fun e he => Entry.isOperator_of_yieldsTo (hpending e he)
      rw [depthAfter_of_isSymbol ht, openings_append (openings_operators hops)]
      rfl
  | operator op ht _ _ hpending _ =>
      have hops := fun e he => Entry.isOperator_of_yieldsTo (hpending e he)
      rw [depthAfter_of_isSymbol ht, openings_append (openings_operators hops)]
      rfl
  | factorial ht hpending _ =>
      have hops := fun e he => Entry.isOperator_of_isSign (hpending e he)
      rw [depthAfter_of_isSymbol ht, openings_append (openings_operators hops)]
      rfl

/-- That an effect on entries over a bracket is the same whatever lies below: one failure, or else
    the same output and the same entries above the bracket, so many brackets among them, and the
    same number of commas counted. -/
def Sheltered (effect : List Entry → Except Failure (List Token × List Entry))
    (stack : List Entry) (depth : Nat) : Prop :=
  (∃ f, ∀ base, effect (stack ++ .opening :: base) = .error f) ∨
    ∃ out rest k, openings rest = depth ∧
      ∀ base, effect (stack ++ .opening :: base) = .ok (atop k base (out, rest))

/-- A token that closes no bracket from outside is sheltered. -/
theorem sheltered_step (before next : Option Token) {t : Token} {stack : List Entry}
    (h : ¬ (isSymbol t .closing = true ∧ openings stack = 0)) :
    Sheltered (step before next t) stack (depthAfter (openings stack) t) := by
  by_cases houter : isSymbol t .comma = true ∧ openings stack = 0
  · -- The comma releases all there is, and finds the bracket below.
    rcases houter with ⟨ht, hnone⟩
    refine .inr ⟨stack.filterMap Entry.released?, [], 1, ?_, fun base => ?_⟩
    · rw [depthAfter_of_isSymbol ht, hnone]
      rfl
    · rw [step_of_isSymbol _ _ ht, stepSymbol_comma _ _ _ (openings_eq_zero_iff.mp hnone)]
      rfl
  · have hinner : isSymbol t .comma = true ∨ isSymbol t .closing = true → openings stack ≠ 0 := by
      rintro (ht | ht) hnone
      · exact houter ⟨ht, hnone⟩
      · exact h ⟨ht, hnone⟩
    rcases step_over before next hinner with ⟨k, hk⟩
    cases hstep : step before next t stack with
    | error f =>
        rw [hstep] at hk
        exact .inl ⟨f, hk⟩
    | ok p =>
        rw [hstep] at hk
        exact .inr ⟨p.1, p.2, k, openings_of_step hstep, hk⟩

/-- So are tokens none of which closes a bracket from outside. -/
theorem sheltered_run (before after : Option Token) {ts : List Token} {stack : List Entry}
    {depth : Nat} (h : depth? (openings stack) ts = some depth) :
    Sheltered (run before after ts) stack depth := by
  -- Each token leaves other entries above the bracket, and its own depth for the rest to start at.
  induction ts generalizing before stack with
  | nil =>
      rw [depth?, Option.some.injEq] at h
      exact .inr ⟨[], stack, 0, h, fun base => rfl⟩
  | cons t ts ih =>
      rw [depth?] at h
      by_cases hclose : isSymbol t .closing = true ∧ openings stack = 0
      · simp only [if_pos hclose, reduceCtorEq] at h
      · rw [if_neg hclose] at h
        rcases sheltered_step before (ts.head?.or after) hclose with
          ⟨f, hf⟩ | ⟨out, mid, j, hmid, hstep⟩
        · refine .inl ⟨f, fun base => ?_⟩
          rw [run, hf]
          rfl
        · rw [← hmid] at h
          -- The rest runs over the same bracket, below which some commas have been counted.
          rcases ih (some t) h with ⟨f, hf⟩ | ⟨more, rest, k, hrest, hrun⟩
          · refine .inl ⟨f, fun base => ?_⟩
            rw [run, hstep]
            simp only [bind, Except.bind, atop, hf]
          · refine .inr ⟨out ++ more, rest, k + j, hrest, fun base => ?_⟩
            have hcount : atop (k + j) base (out ++ more, rest) =
                (out ++ more, (atop k (countComma^[j] base) (more, rest)).2) := by
              simp only [atop, Function.iterate_add_apply]
            rw [hcount]
            exact run_cons_ok (hstep base) (hrun (countComma^[j] base))

/-! ### A second pair -/

/-- An opening bracket puts nothing out. -/
theorem run_opening (before after : Option Token) {o : Token} (ho : isSymbol o .opening = true)
    (ts : List Token) (stack : List Entry) :
    run before after (o :: ts) stack =
      run (some o) after ts (.opening :: openCall (ts.head?.or after) stack) := by
  rw [run, step_of_isSymbol _ _ ho, stepSymbol]
  simp only [bind, Except.bind]
  cases run (some o) after ts (.opening :: openCall (ts.head?.or after) stack) with
  | error f => rfl
  | ok p => rfl

theorem openCall_congr {next other : Option Token}
    (h : isNext .closing next = isNext .closing other) (stack : List Entry) :
    openCall next stack = openCall other stack := by
  unfold openCall
  rw [h]

theorem BalancedBrackets.first {ts us : List Token} (h : BalancedBrackets ts) (hsome : ts ≠ [])
    (after : Option Token) :
    isNext .closing ((ts ++ us).head?.or after) = false := by
  cases ts with
  | nil => exact absurd rfl hsome
  | cons t ts =>
      rw [BalancedBrackets, depth?] at h
      rw [← Bool.not_eq_true]
      intro hclose
      change isSymbol t .closing = true at hclose
      simp only [hclose, and_self, if_true, reduceCtorEq] at h

theorem step_closing_innermost (before next : Option Token) {c : Token} {pending : List Entry}
    (hc : isSymbol c .closing = true) (hpending : openings pending = 0) (base : List Entry) :
    step before next c (pending ++ .opening :: base) =
      (closeBracket base).map fun p => (pending.filterMap Entry.released? ++ p.1, p.2) := by
  rw [step_of_isSymbol _ _ hc]
  exact stepSymbol_closing _ _ _ (openings_eq_zero_iff.mp hpending) base

/-- Where a bracket is closed, a second one below it may be closed as well: what lies below that is
    closed by one or the other. -/
theorem run_closing_doubled (before after : Option Token) {c : Token} {pending : List Entry}
    (hc : isSymbol c .closing = true) (hpending : openings pending = 0) (ts : List Token)
    (base : List Entry) :
    run before after (c :: c :: ts) (pending ++ .opening :: .opening :: base) =
      run before after (c :: ts) (pending ++ .opening :: base) := by
  have hinner : step before ((c :: ts).head?.or after) c (pending ++ .opening :: .opening :: base) =
      .ok (pending.filterMap Entry.released? ++ [], .opening :: base) :=
    step_closing_innermost _ _ hc hpending _
  have hnone : openings [] = 0 := rfl
  have houter : step (some c) (ts.head?.or after) c (.opening :: base) =
      (closeBracket base).map fun p => ([] ++ p.1, p.2) :=
    step_closing_innermost _ _ hc hnone base
  -- The inner bracket releases the entries and the outer one closes, which a single one does alone.
  rw [run, hinner]
  simp only [bind, Except.bind]
  rw [run, houter, run, step_closing_innermost _ _ hc hpending]
  cases closeBracket base with
  | error f => rfl
  | ok p =>
      simp only [bind, Except.bind, Except.map]
      cases run (some c) after ts p.2 with
      | error f => rfl
      | ok q =>
          simp only [pure, Except.pure, List.append_nil, List.nil_append, List.append_assoc]

/-- A second pair of brackets around balanced tokens changes nothing. -/
theorem run_doubled (before after : Option Token) {o c : Token} {ts : List Token}
    (ho : isSymbol o .opening = true) (hc : isSymbol c .closing = true) (hsome : ts ≠ [])
    (hts : BalancedBrackets ts) (post : List Token) (stack : List Entry) :
    run before after (o :: o :: (ts ++ c :: c :: post)) stack =
      run before after (o :: (ts ++ c :: post)) stack := by
  -- In neither case does the call below close empty.
  have hopen : ∀ us, openCall ((ts ++ us).head?.or after) stack = openCall (some o) stack := by
    intro us
    refine openCall_congr ?_ stack
    rw [hts.first hsome]
    exact (isSymbol_other ho .closing).symm
  rw [run_opening _ _ ho, run_opening _ _ ho, run_opening _ _ ho, hopen]
  have hfirst : ((o :: (ts ++ c :: c :: post)).head?.or after) = some o := rfl
  rw [hfirst]
  generalize openCall (some o) stack = base
  change run (some o) after (ts ++ c :: c :: post) (.opening :: .opening :: base) = _
  rw [run_append, run_append]
  -- The tokens do the same over one bracket and over two, and count their commas below both.
  have hsheltered : Sheltered (run (some o) (some c) ts) [] 0 := sheltered_run _ _ hts
  rcases hsheltered with ⟨f, hf⟩ | ⟨out, rest, k, hrest, hrun⟩
  · have hone := hf base
    have htwo := hf (.opening :: base)
    rw [List.nil_append] at hone htwo
    simp only [List.head?_cons, Option.some_or, hone, htwo]
    rfl
  · have hone := hrun base
    have htwo := hrun (.opening :: base)
    rw [List.nil_append] at hone htwo
    simp only [List.head?_cons, Option.some_or, hone, htwo, bind, Except.bind, atop,
      iterate_countComma_opening, run_closing_doubled _ _ hc hrest]

/-! ### A first pair -/

/-- A step depends on the token before only in whether an operand starts after it, and on the token
    after only in whether it is a bracket. -/
theorem step_congr {before other next further : Option Token} {t : Token} (stack : List Entry)
    (hbefore : startsOperand before = startsOperand other)
    (hopen : isNext .opening next = isNext .opening further)
    (hclose : isSymbol t .opening = true → isNext .closing next = isNext .closing further) :
    step before next t stack = step other further t stack := by
  unfold step
  cases hkind : t.kind with
  | unknown | call | number => rfl
  | identifier => simp only [hopen]
  | operator =>
      -- Of the symbols, an opening bracket looks ahead and a minus sign looks back.
      cases hs : Symbol.ofText? t.text with
      | none => rfl
      | some s =>
          dsimp only
          cases s with
          | comma | closing => rfl
          | opening =>
              have ht : isSymbol t .opening = true := by
                rw [isSymbol_eq hkind hs, beq_self_eq_true]
              rw [stepSymbol, stepSymbol, openCall_congr (hclose ht)]
          | operator op =>
              cases op with
              | minus => simp only [stepSymbol, hbefore]
              | _ => rfl

/-- A comma or a closing bracket that is accepted has a bracket of its own. -/
theorem openings_ne_zero_of_step {before next : Option Token} {t : Token} {stack : List Entry}
    {p : List Token × List Entry} (h : step before next t stack = .ok p)
    (ht : isSymbol t .comma = true ∨ isSymbol t .closing = true) : openings stack ≠ 0 := by
  intro hnone
  -- Without one, all there is would be released.
  have hall := release_eq_nil_iff.mpr hnone
  rcases hrel : release (fun e => !e.isOpening) stack with ⟨all, below⟩
  rw [hrel] at hall
  subst hall
  rcases ht with ht | ht
  · rw [step_of_isSymbol _ _ ht, stepSymbol, hrel] at h
    simp only [reduceCtorEq] at h
  · rw [step_of_isSymbol _ _ ht, stepSymbol, hrel] at h
    simp only [reduceCtorEq] at h

/-- A step that is accepted is accepted over a bracket too, with nothing below it. -/
theorem step_enclosed {before next : Option Token} {t : Token} {out : List Token}
    {stack rest : List Entry} (h : step before next t stack = .ok (out, rest)) :
    step before next t (stack ++ [.opening]) = .ok (out, rest ++ [.opening]) := by
  rcases step_over before next (openings_ne_zero_of_step h) with ⟨k, hk⟩
  have hnil : countComma^[k] [] = [] := Function.iterate_fixed rfl k
  rw [hk, h, Except.map, atop, hnil]

/-- A run that leaves no bracket open does the same between brackets. -/
theorem run_enclosed {before other : Option Token} {c : Token} {ts out : List Token}
    {stack last : List Entry} (hbefore : startsOperand before = startsOperand other)
    (hc : isSymbol c .closing = true) (hlast : openings last = 0)
    (h : run before none ts stack = .ok (out, last)) :
    run other (some c) ts (stack ++ [.opening]) = .ok (out, last ++ [.opening]) := by
  induction ts generalizing before other stack out with
  | nil =>
      rw [run, Except.ok.injEq, Prod.mk.injEq] at h
      rw [run, h.1, h.2]
  | cons t ts ih =>
      rcases run_cons_eq_ok h with ⟨first, mid, more, hstep, hrest, rfl⟩
      refine run_cons_ok (step_enclosed ?_) (ih rfl hrest)
      rw [← hstep]
      -- Only the last token has another neighbour than before.
      cases ts with
      | cons u us => exact step_congr stack hbefore.symm rfl fun _ => rfl
      | nil =>
          refine step_congr stack hbefore.symm (isSymbol_other hc .opening) ?_
          intro ht
          rw [run, Except.ok.injEq, Prod.mk.injEq] at hrest
          have hdepth := openings_of_step hstep
          rw [depthAfter_of_isSymbol ht, if_pos rfl, hrest.2, hlast] at hdepth
          exact absurd hdepth (Nat.succ_ne_zero _).symm

/-- Brackets around all of the tokens change nothing. -/
theorem ofTokens_enclosed {o c : Token} {ts out : List Token} (ho : isSymbol o .opening = true)
    (hc : isSymbol c .closing = true) (h : ofTokens ts = .ok out) :
    ofTokens (o :: (ts ++ [c])) = .ok out := by
  rcases ofTokens_eq_ok h with ⟨first, stack, hrun, hops, rfl⟩
  have hnone : openings stack = 0 := openings_operators hops
  have hstart : startsOperand none = startsOperand (some o) := by
    rw [startsOperand, startsOperand, kind_of_isSymbol ho, text_of_isSymbol ho,
      Symbol.ofText?_text]
    rfl
  have hinner := run_enclosed hstart hc hnone hrun
  have hclosing : step (ts.getLast?.or (some o)) none c (stack ++ [.opening]) =
      .ok (stack.filterMap Entry.released? ++ [], []) :=
    step_closing_innermost _ _ hc hnone []
  have hall : run (some o) none (ts ++ [c]) [.opening] =
      .ok (first ++ (stack.filterMap Entry.released? ++ []), []) :=
    run_append_ok hinner (run_singleton_ok hclosing)
  -- No call is there to be opened, and nothing is left to be released at the end.
  have hopen : openCall ((ts ++ [c]).head?.or none) [] = [] := rfl
  rw [ofTokens, run_opening _ _ ho, hopen, hall]
  simp only [bind, Except.bind, flush, pure, Except.pure, List.append_nil]

/-- Redundant brackets change nothing: a pair around all of the tokens, if they can be converted,
    and a second pair around balanced tokens in a pair, wherever that stands. -/
theorem ofTokens_redundant {o c : Token} (ho : isSymbol o .opening = true)
    (hc : isSymbol c .closing = true) :
    (∀ ts out, ofTokens ts = .ok out → ofTokens (o :: (ts ++ [c])) = .ok out) ∧
      ∀ pre ts post, ts ≠ [] → BalancedBrackets ts →
        ofTokens (pre ++ o :: o :: (ts ++ c :: c :: post)) =
          ofTokens (pre ++ o :: (ts ++ c :: post)) := by
  refine ⟨fun ts out => ofTokens_enclosed ho hc, ?_⟩
  intro pre ts post hsome hts
  have hrun : run none none (pre ++ o :: o :: (ts ++ c :: c :: post)) [] =
      run none none (pre ++ o :: (ts ++ c :: post)) [] := by
    rw [run_append, run_append]
    simp only [run_doubled _ _ ho hc hsome hts]
    rfl
  rw [ofTokens, hrun, ← ofTokens]

-- A sum may stand in brackets. So may the arguments of a call, whose comma is then counted through
-- a bracket.
theorem ofTokens_redundant_max :
    ofTokens [.operator "(", .number "2", .operator "+", .number "3", .operator ")"] =
        .ok [.number "2", .number "3", .operator "+"] ∧
      BalancedBrackets [.number "1", .operator ",", .number "2"] ∧
      ofTokens [.identifier "max", .operator "(", .operator "(", .number "1", .operator ",",
          .number "2", .operator ")", .operator ")", .operator "!"] =
        ofTokens [.identifier "max", .operator "(", .number "1", .operator ",", .number "2",
          .operator ")", .operator "!"] := by
  have ho : isSymbol (.operator "(") .opening = true := by decide
  have hc : isSymbol (.operator ")") .closing = true := by decide
  have hsum : ofTokens [.number "2", .operator "+", .number "3"] =
      .ok [.number "2", .number "3", .operator "+"] := rfl
  have hbalanced : BalancedBrackets [.number "1", .operator ",", .number "2"] := by decide
  refine ⟨?_, hbalanced, ?_⟩
  · exact (ofTokens_redundant ho hc).1 _ _ hsum
  · have hcall := (ofTokens_redundant ho hc).2 [.identifier "max"]
      [.number "1", .operator ",", .number "2"] [.operator "!"] (List.cons_ne_nil _ _) hbalanced
    simpa only [List.cons_append, List.nil_append] using hcall

end Postfix

end DeskCalc
