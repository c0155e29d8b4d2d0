import DeskCalc.Fault
import DeskCalc.Operator
import DeskCalc.Token

/-!
# Postfix Order

Puts the tokens of an expression into postfix order, where every operator and every call
follows its operands and no brackets are left.

Operands go straight to the output. Operators wait on a stack, and one is released when an
operator arrives that it precedes, or when the bracket it stands in closes. A call waits below
the bracket that opens its arguments and counts their commas: whichever call was opened last
and is not yet closed gets the comma, also from inside plain brackets.

The factorial follows its operand already, so it goes straight to the output too, but not
before the signs that wait on top of the stack: a sign belongs to the operand, and the
factorial is taken of both.

What a token does depends on its neighbours in two places. A name is a function's if an
opening bracket follows it, and a minus sign negates where an operand has to start. So a step
sees the token before and the token after, and a run over part of the tokens is told what
comes next.

## Main definitions

* `Postfix.Entry`: What waits on the stack.
* `Postfix.step`: The effect of one token: what is released, and the stack after it.
* `Postfix.run`: The effect of several.
* `Postfix.flush`: The release of all that still waits at the end.
* `Postfix.ofTokens`: The tokens of an expression in postfix order.

## Theorems

* `Postfix.run_append`: A run can be cut anywhere.
-/

namespace DeskCalc

namespace Postfix

/-- What waits on the stack. -/
inductive Entry where
  /-- An operator, with the argument count that its token happened to carry. -/
  | operator (op : Operator) (argc : Option Int)
  /-- An opening bracket. -/
  | opening
  /-- A call of the named function, and its arguments so far. -/
  | call (name : String) (argc : Nat)
  deriving DecidableEq, Repr

/-- Whether a token is the given bracket, comma or operator. -/
def isSymbol (t : Token) (s : Symbol) : Bool :=
  t.kind == .operator && Symbol.ofText? t.text == some s

/-- Whether a minus sign after the given token negates. -/
def startsOperand : Option Token → Bool
  | none => true
  | some before =>
    before.kind == .operator && (Symbol.ofText? before.text).any Symbol.precedesOperand

/-- Whether the next token is the given bracket. -/
def isNext (s : Symbol) (next : Option Token) : Bool := next.any fun t => isSymbol t s

namespace Entry

/-- Whether the entry is an opening bracket. -/
def isOpening : Entry → Bool
  | .opening => true
  | _ => false

/-- Whether the entry is an operator that is applied before one that arrives later. -/
def yieldsTo (later : Operator) : Entry → Bool
  | .operator op _ => op.precedes later
  | _ => false

/-- Whether the entry is a sign. -/
def isSign (e : Entry) : Bool := e == .operator .negate none

/-- The token that an operator becomes in the output. -/
def released? : Entry → Option Token
  | .operator op argc => some ⟨.operator, op.symbol, argc⟩
  | _ => none

end Entry

/-- The stack with one more argument for the innermost call. -/
def countComma : List Entry → List Entry
  | [] => []
  | .call name argc :: rest => .call name (argc + 1) :: rest
  | e :: rest => e :: countComma rest

/-- The stack with a first argument for the call on top, unless there are none to come. -/
def openCall (next : Option Token) : List Entry → List Entry
  | .call name 0 :: rest => .call name (if isNext .closing next then 0 else 1) :: rest
  | stack => stack

/-- The tokens released by taking entries off the stack while they satisfy the predicate, and
    the stack that is left. -/
def release (p : Entry → Bool) (stack : List Entry) : List Token × List Entry :=
  ((stack.takeWhile p).filterMap Entry.released?, stack.dropWhile p)

/-- The effect of an operator that has to wait. -/
def pushOperator (op : Operator) (argc : Option Int) (stack : List Entry) :
    List Token × List Entry :=
  let (out, stack) := release (Entry.yieldsTo op) stack
  (out, .operator op argc :: stack)

/-- The effect of closing a bracket: the call below it, if there is one, is complete. -/
def closeBracket : List Entry → Except Failure (List Token × List Entry)
  | .call name argc :: rest =>
    if argc < 1 then .error (.fault (.zeroArgumentCall name)) else .ok ([.call name argc], rest)
  | stack => .ok ([], stack)

/-- The effect of a bracket, a comma or an operator. -/
def stepSymbol (before next : Option Token) (t : Token) (stack : List Entry) :
    Symbol → Except Failure (List Token × List Entry)
  | .comma =>
    match release (fun e => !e.isOpening) stack with
    | (_, []) => .error (.fault .misplacedComma)
    | (out, stack) => .ok (out, countComma stack)
  | .opening => .ok ([], .opening :: openCall next stack)
  | .closing =>
    match release (fun e => !e.isOpening) stack with
    | (_, []) => .error (.fault .mismatchedParentheses)
    | (out, _ :: stack) => (closeBracket stack).map fun (call, stack) => (out ++ call, stack)
  | .operator .minus =>
    if startsOperand before then .ok (pushOperator .negate none stack)
    else .ok (pushOperator .minus t.argc stack)
  | .operator .factorial =>
    let (out, stack) := release Entry.isSign stack
    .ok (out ++ [t], stack)
  | .operator op => .ok (pushOperator op t.argc stack)

/-- The effect of one token between its neighbours. -/
def step (before next : Option Token) (t : Token) (stack : List Entry) :
    Except Failure (List Token × List Entry) :=
  match t.kind with
  | .unknown => .error (.fault (.unknownToken t.text))
  | .number => .ok ([t], stack)
  | .identifier =>
    if isNext .opening next then .ok ([], .call t.text 0 :: stack) else .ok ([t], stack)
  | .call => .error (.fault (.unexpectedToken t.spelling))
  | .operator =>
    match Symbol.ofText? t.text with
    | some s => stepSymbol before next t stack s
    | none => .error (.unranked t.text)

/-- The effect of several tokens, which stand between the two given ones. -/
def run (before after : Option Token) :
    List Token → List Entry → Except Failure (List Token × List Entry)
  | [], stack => .ok ([], stack)
  | t :: rest, stack => do
    let (out, stack) ← step before (rest.head?.or after) t stack
    let (more, stack) ← run (some t) after rest stack
    return (out ++ more, stack)

/-- The effect of tokens is the effect of a first part, which is followed by the second, and
    then that of the second, which comes after the first. -/
theorem run_append (before after : Option Token) (ts us : List Token) (stack : List Entry) :
    run before after (ts ++ us) stack = (do
      let (out, stack) ← run before (us.head?.or after) ts stack
      let (more, stack) ← run (ts.getLast?.or before) after us stack
      return (out ++ more, stack)) := by
  induction ts generalizing before stack with
  | nil =>
    cases h : run before after us stack <;> simp [run, h, bind, Except.bind, pure, Except.pure]
  | cons t ts ih =>
    have hh : ((ts ++ us).head?.or after) = (ts.head?.or (us.head?.or after)) := by
      cases ts <;> simp
    have hl : ((t :: ts).getLast?.or before) = (ts.getLast?.or (some t)) := by
      cases ts <;> simp [List.getLast?_cons]
    simp only [List.cons_append, run, hh, hl, ih]
    cases step before (ts.head?.or (us.head?.or after)) t stack with
    | error e => rfl
    | ok p =>
      simp only [bind, Except.bind, pure, Except.pure]
      cases run (some t) (us.head?.or after) ts p.2 with
      | error e => rfl
      | ok q =>
        simp only
        cases run (ts.getLast?.or (some t)) after us q.2 with
        | error e => rfl
        | ok r => simp [List.append_assoc]

/-- The release of all that still waits at the end, where no bracket may be left. -/
def flush : List Entry → Except Failure (List Token)
  | [] => .ok []
  | .operator op argc :: rest => (flush rest).map (⟨.operator, op.symbol, argc⟩ :: ·)
  | .opening :: _ => .error (.fault .mismatchedParentheses)
  | .call name _ :: _ => .error (.fault (.unclosedCall name))

/-- The tokens of an expression in postfix order. -/
def ofTokens (ts : List Token) : Except Failure (List Token) := do
  let (out, stack) ← run none none ts []
  let rest ← flush stack
  return out ++ rest

end Postfix

end DeskCalc
