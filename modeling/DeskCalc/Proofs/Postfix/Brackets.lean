import DeskCalc.Postfix.Conversion

/-!
# What Conversion Rejects

Conversion fails where a count of brackets says it does, and nowhere else. The stack it works
on holds operators, brackets and calls in one, and what it releases depends on how they are
mixed; but whether a list of tokens is rejected, where, and with which failure depends on the
depth of brackets, on the two tokens just read, and on nothing else.

The tokens here are any at all, also those put together by hand: operators between which no
operand stands, texts that are no symbol, counts that no call has.

The reason is that a call never gets away from its bracket. It goes on the stack when its
bracket is known to come next, the bracket goes right on top of it, and everything that is
released stops at that bracket, until the bracket closes and takes the call with it. `Settled`
says this of a stack. Two tokens break it for one step each, the name of a call, whose bracket
is still to come, and the opening bracket of a call that closes at once, which has no argument;
both are decided by the token after. `Tracks` adds these, and is what one step preserves.

So the end of the tokens never meets a call before its bracket, and a call that is left open is
reported as a bracket left open.

## Main definitions

* `Postfix.offence?`: The failure of one token, by the depth and the two tokens before it.
* `Postfix.depthAfter`: The depth after it.
* `Postfix.scan`: The depth after several tokens, or the failure of the first offender.
* `Postfix.verdict?`: The failure of a whole list.
* `Postfix.Settled`: A stack on which every call has an argument and lies below its bracket.
* `Postfix.Tracks`: The stack between two tokens.
* `Postfix.Agrees`: The effect of a token that the count foresees.

## Theorems

* `Postfix.Settled.dropWhile_eq_nil`, `Postfix.Settled.dropWhile_eq_cons`: How far a comma or a
  closing bracket releases.
* `Postfix.offence?_eq_some`, `Postfix.verdict?_eq_some`: All that can be wrong with a token, and
  with a list of them.
* `Postfix.Tracks.agrees_step`: One token does what the count foresees.
* `Postfix.Tracks.agrees_run`: So do several.
* `Postfix.ofTokens_eq_error_iff_verdict`: So does conversion, and it never reports a call.
-/

namespace DeskCalc

namespace Postfix

/-! ### Counting brackets -/

/-- The function whose call closes without an argument, if a closing bracket comes after the
    given two tokens. -/
def emptyCall? : Option Token → Option Token → Option String
  | some name, some bracket =>
    if name.kind = .identifier ∧ isSymbol bracket .opening = true then some name.text else none
  | _, _ => none

/-- A call closes empty only right after its name and its bracket. -/
theorem emptyCall?_eq_some {earlier before : Option Token} {name : String}
    (h : emptyCall? earlier before = some name) :
    ∃ t u, earlier = some t ∧ before = some u ∧ t.kind = .identifier ∧
      isSymbol u .opening = true ∧ t.text = name := by
  unfold emptyCall? at h
  split at h
  · next t u =>
      split at h
      · next hboth =>
          rw [Option.some.injEq] at h
          exact ⟨t, u, rfl, rfl, hboth.1, hboth.2, h⟩
      · exact absurd h (by simp only [reduceCtorEq, not_false_eq_true])
  · exact absurd h (by simp only [reduceCtorEq, not_false_eq_true])

/-- What is wrong with a bracket or a comma. An operator is never wrong. -/
def offenceOfSymbol? (earlier before : Option Token) (depth : Nat) : Symbol → Option Failure
  | .comma => if depth = 0 then some (.fault .misplacedComma) else none
  | .opening => none
  | .closing =>
    if depth = 0 then some (.fault .mismatchedParentheses)
    else (emptyCall? earlier before).map fun name => .fault (.zeroArgumentCall name)
  | .operator _ => none

/-- What is wrong with a token that comes after the given two, at the given depth. -/
def offence? (earlier before : Option Token) (depth : Nat) (t : Token) : Option Failure :=
  match t.kind with
  | .unknown => some (.fault (.unknownToken t.text))
  | .number => none
  | .identifier => none
  | .call => some (.fault (.unexpectedToken t.spelling))
  | .operator =>
    match Symbol.ofText? t.text with
    | some s => offenceOfSymbol? earlier before depth s
    | none => some (.unranked t.text)

/-- The depth after a token. -/
def depthAfter (depth : Nat) (t : Token) : Nat :=
  if isSymbol t .opening then depth + 1
  else if isSymbol t .closing then depth - 1
  else depth

/-- The depth after several tokens that come after the given two, or what is wrong with the
    first of them that has something wrong with it. -/
def scan (earlier before : Option Token) (depth : Nat) : List Token → Except Failure Nat
  | [] => .ok depth
  | t :: rest =>
    match offence? earlier before depth t with
    | some failure => .error failure
    | none => scan before (some t) (depthAfter depth t) rest

/-- What is wrong with a list of tokens: its first offender, or else a bracket left open. -/
def verdict? (ts : List Token) : Option Failure :=
  match scan none none 0 ts with
  | .error failure => some failure
  | .ok depth => if depth = 0 then none else some (.fault .mismatchedParentheses)

/-! ### Settled stacks -/

/-- The opening brackets on a stack. -/
def openings (stack : List Entry) : Nat := stack.countP Entry.isOpening

/-- A stack on which every call has an argument and lies right below the bracket that opens its
    arguments. -/
inductive Settled : List Entry → Prop
  /-- Nothing waits. -/
  | empty : Settled []
  /-- An operator may wait anywhere. -/
  | operator (op : Operator) (argc : Option Int) {rest : List Entry} (h : Settled rest) :
      Settled (.operator op argc :: rest)
  /-- So may the bracket of a group. -/
  | group {rest : List Entry} (h : Settled rest) : Settled (.opening :: rest)
  /-- A call waits with its bracket. -/
  | call (name : String) {argc : Nat} {rest : List Entry} (hargc : 0 < argc)
      (h : Settled rest) : Settled (.opening :: .call name argc :: rest)

theorem openings_call (name : String) (argc : Nat) (stack : List Entry) :
    openings (.call name argc :: stack) = openings stack := rfl

theorem openings_opening (stack : List Entry) :
    openings (.opening :: stack) = openings stack + 1 := by
  rw [openings, List.countP_cons_of_pos rfl, openings]

namespace Settled

/-- Releasing entries that are no brackets leaves a settled stack, with all its brackets. -/
theorem dropWhile {p : Entry → Bool} {stack : List Entry} (hp : p .opening = false)
    (h : Settled stack) :
    Settled (stack.dropWhile p) ∧ openings (stack.dropWhile p) = openings stack := by
  have hstop : ¬ p .opening = true := by
    rw [hp]
    exact Bool.false_ne_true
  induction h with
  | empty => exact ⟨.empty, rfl⟩
  | operator op argc h ih =>
      by_cases hop : p (.operator op argc) = true
      · rw [List.dropWhile_cons_of_pos hop]
        exact ih
      · rw [List.dropWhile_cons_of_neg hop]
        exact ⟨.operator op argc h, rfl⟩
  | group h _ =>
      rw [List.dropWhile_cons_of_neg hstop]
      exact ⟨.group h, rfl⟩
  | call name hargc h _ =>
      rw [List.dropWhile_cons_of_neg hstop]
      exact ⟨.call name hargc h, rfl⟩

/-- Releasing everything down to a bracket empties a stack without brackets. -/
theorem dropWhile_eq_nil {stack : List Entry} (h : Settled stack) (hnone : openings stack = 0) :
    stack.dropWhile (fun e => !e.isOpening) = [] := by
  induction h with
  | empty => rfl
  | operator op argc _ ih => exact ih hnone
  | group _ _ =>
      rw [openings_opening] at hnone
      omega
  | call _ _ _ _ =>
      rw [openings_opening] at hnone
      omega

/-- On any other stack it stops at the innermost bracket, with all other brackets below. -/
theorem dropWhile_eq_cons {stack : List Entry} (h : Settled stack) (hsome : openings stack ≠ 0) :
    ∃ rest, stack.dropWhile (fun e => !e.isOpening) = .opening :: rest ∧
      Settled (.opening :: rest) ∧ openings stack = openings rest + 1 := by
  induction h with
  | empty => exact absurd rfl hsome
  | operator op argc _ ih => exact ih hsome
  | @group rest h _ => exact ⟨rest, rfl, .group h, openings_opening rest⟩
  | @call name argc rest hargc h _ =>
      exact ⟨.call name argc :: rest, rfl, .call name hargc h, openings_opening _⟩

/-- A comma adds an argument to a call, and moves nothing. -/
theorem counted {stack : List Entry} (h : Settled stack) :
    Settled (countComma stack) ∧ openings (countComma stack) = openings stack := by
  induction h with
  | empty => exact ⟨.empty, rfl⟩
  | operator op argc _ ih => exact ⟨.operator op argc ih.1, ih.2⟩
  | group _ ih =>
      refine ⟨.group ih.1, ?_⟩
      change openings (.opening :: countComma _) = _
      rw [openings_opening, openings_opening, ih.2]
  | call name hargc h _ =>
      refine ⟨.call name (Nat.succ_pos _) h, ?_⟩
      change openings (.opening :: .call name _ :: _) = _
      rw [openings_opening, openings_opening, openings_call, openings_call]

/-- No call waits for a bracket that comes next. -/
theorem openCall_eq {stack : List Entry} (next : Option Token) (h : Settled stack) :
    openCall next stack = stack := by
  cases h with
  | empty => rfl
  | operator => rfl
  | group => rfl
  | call => rfl

/-- Closing the bracket on top completes the call below it, if that is where one is. -/
theorem closed {stack : List Entry} (h : Settled (.opening :: stack)) :
    ∃ out rest, closeBracket stack = .ok (out, rest) ∧ Settled rest ∧
      openings rest = openings stack := by
  cases h with
  | group h =>
      -- What lies below the bracket of a group is settled, so its top is no call.
      refine ⟨[], stack, ?_, h, rfl⟩
      cases h with
      | empty => rfl
      | operator => rfl
      | group => rfl
      | call => rfl
  | @call name argc rest hargc h =>
      -- The call has an argument, which is all that is asked of it.
      have hcount : ¬ argc < 1 := by omega
      refine ⟨[.call name argc], rest, ?_, h, rfl⟩
      rw [closeBracket, if_neg hcount]

/-- What is left at the end is released if it holds no bracket. -/
theorem flush_eq_ok {stack : List Entry} (h : Settled stack) (hnone : openings stack = 0) :
    ∃ out, flush stack = .ok out := by
  induction h with
  | empty => exact ⟨[], rfl⟩
  | operator op argc _ ih =>
      rcases ih hnone with ⟨out, hout⟩
      refine ⟨⟨.operator, op.symbol, argc⟩ :: out, ?_⟩
      rw [flush, hout]
      rfl
  | group _ _ =>
      rw [openings_opening] at hnone
      omega
  | call _ _ _ _ =>
      rw [openings_opening] at hnone
      omega

/-- A bracket that is left is met before the call below it. -/
theorem flush_eq_error {stack : List Entry} (h : Settled stack) (hsome : openings stack ≠ 0) :
    flush stack = .error (.fault .mismatchedParentheses) := by
  induction h with
  | empty => exact absurd rfl hsome
  | operator op argc _ ih =>
      rw [flush, ih hsome]
      rfl
  | group _ _ => rfl
  | call _ _ _ _ => rfl

end Settled

/-! ### Between two tokens -/

/-- The stack between two tokens, the last two of those read being given as well as the next.
    Away from the start of a call it is settled. -/
inductive Tracks (earlier before next : Option Token) : List Entry → Prop
  /-- The token before does not name a call that is about to open, nor opened one that is about
      to close. -/
  | settled {stack : List Entry} (h : Settled stack)
      (hname : ∀ t ∈ before, t.kind = .identifier → isNext .opening next = false)
      (hempty : ∀ name ∈ emptyCall? earlier before, isNext .closing next = false) :
      Tracks earlier before next stack
  /-- The token before names a call, and its bracket is next. -/
  | named {rest : List Entry} (t : Token) (hbefore : before = some t)
      (hkind : t.kind = .identifier) (hnext : isNext .opening next = true) (h : Settled rest) :
      Tracks earlier before next (.call t.text 0 :: rest)
  /-- The bracket of a call has been opened and is closed next. -/
  | hollow {rest : List Entry} (name : String) (hempty : emptyCall? earlier before = some name)
      (hnext : isNext .closing next = true) (h : Settled rest) :
      Tracks earlier before next (.opening :: .call name 0 :: rest)

namespace Tracks

/-- Away from the brackets of calls the stack is settled. -/
theorem toSettled {earlier before next : Option Token} {stack : List Entry}
    (h : Tracks earlier before next stack) (hopen : isNext .opening next = false)
    (hclose : isNext .closing next = false) : Settled stack := by
  cases h with
  | settled h _ _ => exact h
  | named _ _ _ hnext _ =>
      rw [hopen] at hnext
      exact Bool.noConfusion hnext
  | hollow _ _ hnext _ =>
      rw [hclose] at hnext
      exact Bool.noConfusion hnext

/-- Nor does a call start after a token that is neither a name nor an opening bracket. -/
theorem ofSettled {before : Option Token} {t : Token} {stack : List Entry} (next : Option Token)
    (h : Settled stack) (hkind : t.kind ≠ .identifier) (hopen : isSymbol t .opening = false) :
    Tracks before (some t) next stack := by
  refine .settled h ?_ ?_
  · intro u hu hname
    rw [Option.mem_some_iff] at hu
    rw [hu] at hkind
    exact absurd hname hkind
  · intro name hname
    rcases emptyCall?_eq_some hname with ⟨_, u, _, hu, _, hbracket, _⟩
    rw [Option.some.injEq] at hu
    rw [hu, hbracket] at hopen
    exact Bool.noConfusion hopen

end Tracks

/-! ### What one token does -/

/-- That a token between the given ones has the effect that the count foresees: the failure, or
    else a stack as deep as it should be. -/
def Agrees (before next : Option Token) (t : Token) (stack : List Entry) (failure? : Option Failure)
    (effect : Except Failure (List Token × List Entry)) : Prop :=
  match failure? with
  | some failure => effect = .error failure
  | none => ∃ out rest, effect = .ok (out, rest) ∧ Tracks before (some t) next rest ∧
      openings rest = depthAfter (openings stack) t

theorem isSymbol_eq {t : Token} {s : Symbol} (hkind : t.kind = .operator)
    (hs : Symbol.ofText? t.text = some s) (m : Symbol) : isSymbol t m = (s == m) := by
  rw [isSymbol, hkind, hs]
  rfl

/-- A token that is no operator is no bracket or comma either. -/
theorem isSymbol_eq_false {t : Token} (hkind : t.kind ≠ .operator) (m : Symbol) :
    isSymbol t m = false := by
  rw [isSymbol, beq_false_of_ne hkind, Bool.false_and]

/-- An operator is never wrong: it releases what comes before the innermost bracket at most. -/
theorem Settled.pushed {stack : List Entry} (op : Operator) (argc : Option Int)
    (h : Settled stack) :
    Settled (pushOperator op argc stack).2 ∧
      openings (pushOperator op argc stack).2 = openings stack := by
  rcases h.dropWhile (p := Entry.yieldsTo op) rfl with ⟨hrest, hdepth⟩
  exact ⟨.operator op argc hrest, hdepth⟩

/-- An operator keeps the stack settled. -/
theorem Settled.step_operator {stack : List Entry} (before next : Option Token) (t : Token)
    (op : Operator) (h : Settled stack) :
    ∃ out rest, stepSymbol before next t stack (.operator op) = .ok (out, rest) ∧
      Settled rest ∧ openings rest = openings stack := by
  cases op with
  | minus =>
      by_cases hsign : startsOperand before = true
      · refine ⟨(pushOperator .negate none stack).1, _, ?_, h.pushed .negate none⟩
        rw [stepSymbol, if_pos hsign]
      · refine ⟨(pushOperator .minus t.argc stack).1, _, ?_, h.pushed .minus t.argc⟩
        rw [stepSymbol, if_neg hsign]
  | factorial => exact ⟨_, _, rfl, h.dropWhile rfl⟩
  | negate => exact ⟨_, _, rfl, h.pushed .negate t.argc⟩
  | power => exact ⟨_, _, rfl, h.pushed .power t.argc⟩
  | times => exact ⟨_, _, rfl, h.pushed .times t.argc⟩
  | divide => exact ⟨_, _, rfl, h.pushed .divide t.argc⟩
  | remainder => exact ⟨_, _, rfl, h.pushed .remainder t.argc⟩
  | plus => exact ⟨_, _, rfl, h.pushed .plus t.argc⟩

/-- Outside brackets a comma is misplaced; inside it ends an argument. -/
theorem Settled.step_comma {stack : List Entry} (before next : Option Token) (t : Token)
    (h : Settled stack) :
    (openings stack = 0 → stepSymbol before next t stack .comma = .error (.fault .misplacedComma)) ∧
      (openings stack ≠ 0 → ∃ out rest, stepSymbol before next t stack .comma = .ok (out, rest) ∧
        Settled rest ∧ openings rest = openings stack) := by
  refine ⟨?_, ?_⟩
  · intro hnone
    rw [stepSymbol, release, h.dropWhile_eq_nil hnone]
  · intro hsome
    rcases h.dropWhile_eq_cons hsome with ⟨inner, hdrop, hinner, hdepth⟩
    refine ⟨(release (fun e => !e.isOpening) stack).1, countComma (.opening :: inner), ?_,
      hinner.counted.1, ?_⟩
    · rw [stepSymbol, release, hdrop]
    · rw [hinner.counted.2, openings_opening, hdepth]

/-- Outside brackets a closing bracket has no partner; inside it closes the innermost. -/
theorem Settled.step_closing {stack : List Entry} (before next : Option Token) (t : Token)
    (h : Settled stack) :
    (openings stack = 0 →
        stepSymbol before next t stack .closing = .error (.fault .mismatchedParentheses)) ∧
      (openings stack ≠ 0 → ∃ out rest, stepSymbol before next t stack .closing = .ok (out, rest) ∧
        Settled rest ∧ openings rest = openings stack - 1) := by
  refine ⟨?_, ?_⟩
  · intro hnone
    rw [stepSymbol, release, h.dropWhile_eq_nil hnone]
  · intro hsome
    rcases h.dropWhile_eq_cons hsome with ⟨inner, hdrop, hinner, hdepth⟩
    rcases hinner.closed with ⟨call, rest, hclose, hrest, hsame⟩
    refine ⟨(release (fun e => !e.isOpening) stack).1 ++ call, rest, ?_, hrest, ?_⟩
    · rw [stepSymbol, release, hdrop]
      simp only [hclose, Except.map]
    · omega

namespace Tracks

/-- The name of a call is followed by a bracket, which opens the call, with an argument to come
    unless it closes at once. Any other opening bracket opens a group. -/
theorem step_opening {earlier before : Option Token} {t : Token} {stack : List Entry}
    (next : Option Token) (h : Tracks earlier before (some t) stack) (hkind : t.kind = .operator)
    (hs : Symbol.ofText? t.text = some .opening) :
    ∃ rest, stepSymbol before next t stack .opening = .ok ([], rest) ∧
      Tracks before (some t) next rest ∧ openings rest = openings stack + 1 := by
  have hopen : isSymbol t .opening = true := isSymbol_eq hkind hs .opening
  have hnotName : ∀ u ∈ some t, u.kind = .identifier → isNext .opening next = false := by
    intro u hu hname
    rw [Option.mem_some_iff] at hu
    rw [← hu, hkind] at hname
    exact TokenKind.noConfusion hname
  cases h with
  | settled h hname _ =>
      refine ⟨.opening :: stack, ?_, .settled (.group h) hnotName ?_, openings_opening stack⟩
      · rw [stepSymbol, h.openCall_eq next]
      · -- The token before is no name, or this bracket would have been its own.
        intro name hempty
        rcases emptyCall?_eq_some hempty with ⟨u, _, hu, _, hukind, _, _⟩
        have hnone : isSymbol t .opening = false := hname u hu hukind
        rw [hopen] at hnone
        exact Bool.noConfusion hnone
  | @named rest u hu hukind _ h =>
      -- The call gets its first argument here, unless nothing stands between the brackets.
      by_cases hclose : isNext .closing next = true
      · have hempty : emptyCall? before (some t) = some u.text := by
          rw [hu, emptyCall?, if_pos ⟨hukind, hopen⟩]
        refine ⟨.opening :: .call u.text 0 :: rest, ?_, .hollow u.text hempty hclose h,
          openings_opening _⟩
        rw [stepSymbol, openCall, if_pos hclose]
      · have hnotClosed : isNext .closing next = false := Bool.eq_false_iff.mpr hclose
        refine ⟨.opening :: .call u.text 1 :: rest, ?_,
          .settled (.call u.text Nat.one_pos h) hnotName fun _ _ => hnotClosed,
          openings_opening _⟩
        rw [stepSymbol, openCall, if_neg hclose]
  | hollow _ _ hnext _ =>
      change isSymbol t .closing = true at hnext
      rw [isSymbol_eq hkind hs] at hnext
      exact Bool.noConfusion hnext

/-- A closing bracket has to have a partner, and a call that it completes an argument. -/
theorem agrees_closing {earlier before : Option Token} {t : Token} {stack : List Entry}
    (next : Option Token) (h : Tracks earlier before (some t) stack) (hkind : t.kind = .operator)
    (hs : Symbol.ofText? t.text = some .closing) :
    Agrees before next t stack (offenceOfSymbol? earlier before (openings stack) .closing)
      (stepSymbol before next t stack .closing) := by
  have hopen : isSymbol t .opening = false := isSymbol_eq hkind hs .opening
  have hclose : isSymbol t .closing = true := isSymbol_eq hkind hs .closing
  cases h with
  | settled h _ hempty =>
      rcases h.step_closing before next t with ⟨hnone, hsome⟩
      by_cases hdepth : openings stack = 0
      · rw [offenceOfSymbol?, if_pos hdepth]
        exact hnone hdepth
      · -- Were a call about to close empty, the stack would not be settled here.
        have hfull : emptyCall? earlier before = none := by
          cases hcall : emptyCall? earlier before with
          | none => rfl
          | some name =>
              have hnot : isSymbol t .closing = false := hempty name hcall
              rw [hclose] at hnot
              exact Bool.noConfusion hnot
        rw [offenceOfSymbol?, if_neg hdepth, hfull]
        rcases hsome hdepth with ⟨out, rest, hstep, hrest, hafter⟩
        refine ⟨out, rest, hstep, ofSettled next hrest ?_ hopen, ?_⟩
        · rw [hkind]
          exact TokenKind.noConfusion
        · rw [hafter, depthAfter, hopen, hclose, if_neg Bool.false_ne_true, if_pos rfl]
  | named _ _ _ hnext _ =>
      change isSymbol t .opening = true at hnext
      rw [hopen] at hnext
      exact Bool.noConfusion hnext
  | @hollow rest name hempty _ _ =>
      -- The bracket of the empty call is on top, so the depth is positive.
      have hdepth : openings (.opening :: .call name 0 :: rest) ≠ 0 := by
        rw [openings_opening]
        omega
      rw [offenceOfSymbol?, if_neg hdepth, hempty]
      rfl

/-- What keeps a settled stack settled and as deep as it was agrees with a count that has nothing
    to say, if the token is no name and no bracket. -/
theorem agrees_of_settled {before : Option Token} {t : Token} {stack : List Entry}
    {effect : Except Failure (List Token × List Entry)} (next : Option Token)
    (hkind : t.kind ≠ .identifier) (hopen : isSymbol t .opening = false)
    (hclose : isSymbol t .closing = false)
    (h : ∃ out rest, effect = .ok (out, rest) ∧ Settled rest ∧ openings rest = openings stack) :
    Agrees before next t stack none effect := by
  rcases h with ⟨out, rest, hstep, hrest, hdepth⟩
  refine ⟨out, rest, hstep, ofSettled next hrest hkind hopen, ?_⟩
  rw [hdepth, depthAfter, hopen, hclose, if_neg Bool.false_ne_true, if_neg Bool.false_ne_true]

/-- A name starts a call if a bracket comes next. -/
theorem agrees_identifier {before : Option Token} {t : Token} {stack : List Entry}
    (next : Option Token) (h : Settled stack) (hkind : t.kind = .identifier) :
    Agrees before next t stack none (step before next t stack) := by
  have hdepth : depthAfter (openings stack) t = openings stack := by
    have hother : t.kind ≠ .operator := by
      rw [hkind]
      exact TokenKind.noConfusion
    rw [depthAfter, isSymbol_eq_false hother, isSymbol_eq_false hother,
      if_neg Bool.false_ne_true, if_neg Bool.false_ne_true]
  by_cases hnext : isNext .opening next = true
  · refine ⟨[], .call t.text 0 :: stack, ?_, .named t rfl hkind hnext h, ?_⟩
    · simp only [step, hkind, hnext, if_true]
    · rw [hdepth, openings_call]
  · have hnot : isNext .opening next = false := Bool.eq_false_iff.mpr hnext
    refine ⟨[t], stack, ?_, .settled h (fun _ _ _ => hnot) ?_, hdepth.symm⟩
    · simp only [step, hkind, hnext, if_false, Bool.false_eq_true]
    · intro name hempty
      rcases emptyCall?_eq_some hempty with ⟨_, u, _, hu, _, hbracket, _⟩
      rw [Option.some.injEq] at hu
      rw [← hu, isSymbol, hkind] at hbracket
      exact Bool.noConfusion hbracket

/-- A bracket, a comma or an operator does what the count of brackets foresees. -/
theorem agrees_symbol {earlier before : Option Token} {t : Token} {stack : List Entry} {s : Symbol}
    (next : Option Token) (h : Tracks earlier before (some t) stack) (hkind : t.kind = .operator)
    (hs : Symbol.ofText? t.text = some s) :
    Agrees before next t stack (offenceOfSymbol? earlier before (openings stack) s)
      (stepSymbol before next t stack s) := by
  have hname : t.kind ≠ .identifier := by
    rw [hkind]
    exact TokenKind.noConfusion
  cases s with
  | comma =>
      have hopen : isSymbol t .opening = false := isSymbol_eq hkind hs .opening
      have hclose : isSymbol t .closing = false := isSymbol_eq hkind hs .closing
      rcases (h.toSettled hopen hclose).step_comma before next t with ⟨hnone, hsome⟩
      by_cases hdepth : openings stack = 0
      · rw [offenceOfSymbol?, if_pos hdepth]
        exact hnone hdepth
      · rw [offenceOfSymbol?, if_neg hdepth]
        exact agrees_of_settled next hname hopen hclose (hsome hdepth)
  | opening =>
      rcases step_opening next h hkind hs with ⟨rest, hstep, hrest, hdepth⟩
      refine ⟨[], rest, hstep, hrest, ?_⟩
      have hopen : isSymbol t .opening = true := isSymbol_eq hkind hs .opening
      rw [hdepth, depthAfter, if_pos hopen]
  | closing => exact agrees_closing next h hkind hs
  | operator op =>
      have hopen : isSymbol t .opening = false := isSymbol_eq hkind hs .opening
      have hclose : isSymbol t .closing = false := isSymbol_eq hkind hs .closing
      exact agrees_of_settled next hname hopen hclose
        ((h.toSettled hopen hclose).step_operator before next t op)

/-- A step does what the count of brackets foresees. -/
theorem agrees_step {earlier before : Option Token} {t : Token} {stack : List Entry}
    (next : Option Token) (h : Tracks earlier before (some t) stack) :
    Agrees before next t stack (offence? earlier before (openings stack) t)
      (step before next t stack) := by
  cases hkind : t.kind with
  | unknown =>
      simp only [offence?, step, hkind]
      rfl
  | call =>
      simp only [offence?, step, hkind]
      rfl
  | number =>
      have hother : t.kind ≠ .operator := by
        rw [hkind]
        exact TokenKind.noConfusion
      have hname : t.kind ≠ .identifier := by
        rw [hkind]
        exact TokenKind.noConfusion
      have hopen : isSymbol t .opening = false := isSymbol_eq_false hother .opening
      have hclose : isSymbol t .closing = false := isSymbol_eq_false hother .closing
      simp only [offence?, step, hkind]
      exact agrees_of_settled next hname hopen hclose
        ⟨[t], stack, rfl, h.toSettled hopen hclose, rfl⟩
  | identifier =>
      have hother : t.kind ≠ .operator := by
        rw [hkind]
        exact TokenKind.noConfusion
      have hnone : offence? earlier before (openings stack) t = none := by
        simp only [offence?, hkind]
      have hsettled := h.toSettled (isSymbol_eq_false hother .opening)
        (isSymbol_eq_false hother .closing)
      rw [hnone]
      exact agrees_identifier next hsettled hkind
  | operator =>
      cases hs : Symbol.ofText? t.text with
      | none =>
          simp only [offence?, step, hkind, hs]
          rfl
      | some s =>
          simp only [offence?, step, hkind, hs]
          exact agrees_symbol next h hkind hs

end Tracks

/-! ### Runs -/

/-- A run does what the count of brackets foresees: it fails with the first offender's failure,
    or else leaves a settled stack as deep as the count says. -/
theorem Tracks.agrees_run {earlier before : Option Token} {ts : List Token} {stack : List Entry}
    (h : Tracks earlier before ts.head? stack) :
    match scan earlier before (openings stack) ts with
    | .error failure => run before none ts stack = .error failure
    | .ok depth => ∃ out rest, run before none ts stack = .ok (out, rest) ∧ Settled rest ∧
        openings rest = depth := by
  induction ts generalizing earlier before stack with
  | nil => exact ⟨[], stack, rfl, h.toSettled rfl rfl, rfl⟩
  | cons t ts ih =>
      have hstep := h.agrees_step ts.head?
      -- The count goes on from the depth after the step, and the run from the stack after it.
      rw [scan]
      cases hoffence : offence? earlier before (openings stack) t with
      | some failure =>
          rw [hoffence] at hstep
          change step before ts.head? t stack = .error failure at hstep
          change run before none (t :: ts) stack = .error failure
          rw [run, Option.or_none, hstep]
          rfl
      | none =>
          rw [hoffence] at hstep
          rcases hstep with ⟨out, mid, hstep, hmid, hdepth⟩
          have hrest := ih hmid
          rw [hdepth] at hrest
          simp only
          cases hscan : scan before (some t) (depthAfter (openings stack) t) ts with
          | error failure =>
              rw [hscan] at hrest
              change run (some t) none ts mid = .error failure at hrest
              change run before none (t :: ts) stack = .error failure
              rw [run, Option.or_none, hstep]
              simp only [bind, Except.bind, hrest]
          | ok depth =>
              rw [hscan] at hrest
              rcases hrest with ⟨more, last, hrun, hlast, hend⟩
              refine ⟨out ++ more, last, ?_, hlast, hend⟩
              rw [run, Option.or_none, hstep]
              simp only [bind, Except.bind, hrun]
              rfl

/-- Before the first token nothing waits. -/
theorem Tracks.start (next : Option Token) : Tracks none none next [] :=
  .settled .empty (fun t ht => absurd ht (Option.not_mem_none t))
    fun name hname => absurd hname (Option.not_mem_none name)

/-- What conversion does is what the count of brackets says of the whole list. -/
theorem ofTokens_agrees (ts : List Token) :
    match verdict? ts with
    | some failure => ofTokens ts = .error failure
    | none => ∃ out, ofTokens ts = .ok out := by
  have hrun := (Tracks.start ts.head?).agrees_run
  change match scan none none 0 ts with
    | .error failure => run none none ts [] = .error failure
    | .ok depth => ∃ out rest, run none none ts [] = .ok (out, rest) ∧ Settled rest ∧
        openings rest = depth at hrun
  -- What is left on the stack is settled, so it is released unless it holds a bracket.
  rw [verdict?]
  cases hscan : scan none none 0 ts with
  | error failure =>
      rw [hscan] at hrun
      change run none none ts [] = .error failure at hrun
      change ofTokens ts = .error failure
      rw [ofTokens, hrun]
      rfl
  | ok depth =>
      rw [hscan] at hrun
      rcases hrun with ⟨out, rest, hrun, hrest, hdepth⟩
      by_cases hzero : depth = 0
      · rw [hzero] at hdepth
        rcases hrest.flush_eq_ok hdepth with ⟨more, hflush⟩
        simp only [hzero, if_true]
        refine ⟨out ++ more, ?_⟩
        rw [ofTokens, hrun]
        simp only [bind, Except.bind, hflush]
        rfl
      · have hopen : openings rest ≠ 0 := by
          rw [hdepth]
          exact hzero
        simp only [if_neg hzero]
        rw [ofTokens, hrun]
        simp only [bind, Except.bind, hrest.flush_eq_error hopen]

/-- What can be wrong with a bracket or a comma. -/
theorem offenceOfSymbol?_eq_some {earlier before : Option Token} {depth : Nat} {s : Symbol}
    {failure : Failure} (h : offenceOfSymbol? earlier before depth s = some failure) :
    failure = .fault .misplacedComma ∨ failure = .fault .mismatchedParentheses ∨
      ∃ name, failure = .fault (.zeroArgumentCall name) := by
  cases s with
  | comma =>
      rw [offenceOfSymbol?] at h
      split at h
      · exact .inl (Option.some.inj h).symm
      · simp only [reduceCtorEq] at h
  | opening => simp only [offenceOfSymbol?, reduceCtorEq] at h
  | closing =>
      rw [offenceOfSymbol?] at h
      split at h
      · exact .inr (.inl (Option.some.inj h).symm)
      · rcases Option.map_eq_some_iff.mp h with ⟨name, _, hfault⟩
        exact .inr (.inr ⟨name, hfault.symm⟩)
  | operator op => simp only [offenceOfSymbol?, reduceCtorEq] at h

/-- What can be wrong with a token: its kind, a text without a meaning, or, where the text has one,
    the place of a bracket or a comma. -/
theorem offence?_eq_some {earlier before : Option Token} {depth : Nat} {t : Token}
    {failure : Failure} (h : offence? earlier before depth t = some failure) :
    (t.kind = .unknown ∧ failure = .fault (.unknownToken t.text)) ∨
      (t.kind = .call ∧ failure = .fault (.unexpectedToken t.spelling)) ∨
      (t.kind = .operator ∧ Symbol.ofText? t.text = none ∧ failure = .unranked t.text) ∨
      failure = .fault .misplacedComma ∨ failure = .fault .mismatchedParentheses ∨
      ∃ name, failure = .fault (.zeroArgumentCall name) := by
  rw [offence?] at h
  cases hkind : t.kind with
  | unknown =>
      simp only [hkind, Option.some.injEq] at h
      exact .inl ⟨rfl, h.symm⟩
  | number => simp only [hkind, reduceCtorEq] at h
  | identifier => simp only [hkind, reduceCtorEq] at h
  | call =>
      simp only [hkind, Option.some.injEq] at h
      exact .inr (.inl ⟨rfl, h.symm⟩)
  | operator =>
      cases hs : Symbol.ofText? t.text with
      | none =>
          simp only [hkind, hs, Option.some.injEq] at h
          exact .inr (.inr (.inl ⟨rfl, rfl, h.symm⟩))
      | some s =>
          simp only [hkind, hs] at h
          exact .inr (.inr (.inr (offenceOfSymbol?_eq_some h)))

/-- A count that stops before the end has met an offender. -/
theorem exists_offence_of_scan {earlier before : Option Token} {depth : Nat} {ts : List Token}
    {failure : Failure} (h : scan earlier before depth ts = .error failure) :
    ∃ t ∈ ts, ∃ earlier before depth, offence? earlier before depth t = some failure := by
  induction ts generalizing earlier before depth with
  | nil => simp only [scan, reduceCtorEq] at h
  | cons t ts ih =>
      rw [scan] at h
      cases hoffence : offence? earlier before depth t with
      | none =>
          rw [hoffence] at h
          rcases ih h with ⟨u, hu, hfound⟩
          exact ⟨u, List.mem_cons_of_mem t hu, hfound⟩
      | some found =>
          rw [hoffence] at h
          simp only [Except.error.injEq] at h
          rw [h] at hoffence
          exact ⟨t, List.mem_cons_self, earlier, before, depth, hoffence⟩

/-- What is wrong with a list of tokens is wrong with one of them, or a bracket is left open. -/
theorem verdict?_eq_some {ts : List Token} {failure : Failure} (h : verdict? ts = some failure) :
    (∃ t ∈ ts, ∃ earlier before depth, offence? earlier before depth t = some failure) ∨
      failure = .fault .mismatchedParentheses := by
  rw [verdict?] at h
  cases hscan : scan none none 0 ts with
  | error found =>
      rw [hscan] at h
      simp only [Option.some.injEq] at h
      rw [h] at hscan
      exact .inl (exists_offence_of_scan hscan)
  | ok depth =>
      rw [hscan] at h
      simp only at h
      split at h
      · simp only [reduceCtorEq] at h
      · rw [Option.some.injEq] at h
        exact .inr h.symm

theorem verdict?_ne_unclosedCall (ts : List Token) (name : String) :
    verdict? ts ≠ some (.fault (.unclosedCall name)) := by
  intro h
  rcases verdict?_eq_some h with ⟨t, _, earlier, before, depth, hoffence⟩ | hlast
  · have hkinds := offence?_eq_some hoffence
    simp only [Failure.fault.injEq, reduceCtorEq, and_false, or_self, exists_false] at hkinds
  · simp only [Failure.fault.injEq, reduceCtorEq] at hlast

/-- Conversion fails with the failure that the count of brackets gives, and with no other; it
    succeeds when the count gives none. So no call is ever reported as left open. -/
theorem ofTokens_eq_error_iff_verdict (ts : List Token) :
    (∀ failure, ofTokens ts = .error failure ↔ verdict? ts = some failure) ∧
      ((∃ out, ofTokens ts = .ok out) ↔ verdict? ts = none) ∧
      ∀ name, ofTokens ts ≠ .error (.fault (.unclosedCall name)) := by
  have hagrees := ofTokens_agrees ts
  have hnever := verdict?_ne_unclosedCall ts
  cases hverdict : verdict? ts with
  | some found =>
      rw [hverdict] at hagrees hnever
      change ofTokens ts = .error found at hagrees
      rw [hagrees]
      refine ⟨fun failure => ?_, ?_, fun name h => ?_⟩
      · rw [Except.error.injEq, Option.some.injEq]
      · refine ⟨?_, ?_⟩
        · rintro ⟨out, hout⟩
          simp only [reduceCtorEq] at hout
        · intro hnone
          simp only [reduceCtorEq] at hnone
      · rw [Except.error.injEq] at h
        exact hnever name (congrArg some h)
  | none =>
      rw [hverdict] at hagrees
      rcases hagrees with ⟨out, hout⟩
      rw [hout]
      refine ⟨fun failure => ?_, ⟨fun _ => rfl, fun _ => ⟨out, rfl⟩⟩, fun name h => ?_⟩
      · simp only [reduceCtorEq]
      · simp only [reduceCtorEq] at h

end Postfix

end DeskCalc
