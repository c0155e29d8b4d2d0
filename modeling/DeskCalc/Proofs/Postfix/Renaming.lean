import DeskCalc.Postfix.Conversion
import DeskCalc.Proofs.Outcome

/-!
# Conversion Does Not Look at Names

Names pass through conversion as they are. A name goes to the output or waits on the stack with its
call, and it may be quoted in a fault, but nothing is decided by what it is. So renaming the tokens
first and converting them comes to the same as converting them first and renaming what comes out,
the fault included.

The renaming leaves everything else alone: symbols, since conversion lives by them, and numbers.
A call among the tokens that come in is refused with its spelling, which is a text and no name, so
it is left out here. No typed text has one.

## Main definitions

* `Token.rename`, `Postfix.Entry.rename`: The names in tokens and on the stack, replaced.
* `Fault.rename`, `Failure.rename`: The name that a fault quotes, replaced.

## Theorems

* `Postfix.step_rename`, `Postfix.run_rename`: Steps and runs commute with renaming.
* `Postfix.ofTokens_rename`: So does conversion.
-/

namespace DeskCalc

open Outcome

variable (ρ : String → String)

/-! ### Names, replaced -/

/-- A name or a call under another name. All other tokens stay as they are. -/
def Token.rename (t : Token) : Token :=
  match t.kind with
  | .identifier | .call => { t with text := ρ t.text }
  | .number | .operator | .unknown => t

/-- A fault that quotes another name. -/
def Fault.rename : Fault → Fault
  | .zeroArgumentCall name => .zeroArgumentCall (ρ name)
  | .unclosedCall name => .unclosedCall (ρ name)
  | .unknownIdentifier name => .unknownIdentifier (ρ name)
  | .unsupportedFunction name => .unsupportedFunction (ρ name)
  | .missingArguments name argc => .missingArguments (ρ name) argc
  | f => f

/-- A failure that quotes another name. -/
def Failure.rename : Failure → Failure
  | .fault f => .fault (f.rename ρ)
  | .unranked symbol => .unranked symbol

/-- The name that a fault quotes says nothing about its kind. -/
theorem Fault.kind_rename (f : Fault) : (f.rename ρ).kind = f.kind := by
  cases f <;> rfl

namespace Token

variable {t : Token}

theorem kind_rename (t : Token) : (t.rename ρ).kind = t.kind := by
  unfold rename
  cases hkind : t.kind <;> simp only [hkind]

theorem rename_operator (hkind : t.kind = .operator) : t.rename ρ = t := by
  simp only [rename, hkind]

theorem rename_identifier (hkind : t.kind = .identifier) :
    t.rename ρ = { t with text := ρ t.text } := by
  simp only [rename, hkind]

end Token

namespace Postfix

/-- A call that waits under another name. -/
def Entry.rename : Entry → Entry
  | .call name argc => .call (ρ name) argc
  | e => e

/-- What a step releases and leaves, under other names. -/
def renameBoth : List Token × List Entry → List Token × List Entry :=
  Prod.map (List.map (Token.rename ρ)) (List.map (Entry.rename ρ))

/-! ### What does not depend on names -/

theorem isSymbol_rename (t : Token) (s : Symbol) : isSymbol (t.rename ρ) s = isSymbol t s := by
  by_cases hkind : t.kind = .operator
  · rw [Token.rename_operator ρ hkind]
  · rw [isSymbol, isSymbol, Token.kind_rename, beq_false_of_ne hkind, Bool.false_and,
      Bool.false_and]

theorem startsOperand_rename (before : Option Token) :
    startsOperand (before.map (Token.rename ρ)) = startsOperand before := by
  cases before with
  | none => rfl
  | some t =>
      by_cases hkind : t.kind = .operator
      · rw [Option.map_some, Token.rename_operator ρ hkind]
      · simp only [Option.map_some, startsOperand, Token.kind_rename, beq_false_of_ne hkind,
          Bool.false_and]

theorem isNext_rename (s : Symbol) (next : Option Token) :
    isNext s (next.map (Token.rename ρ)) = isNext s next := by
  cases next with
  | none => rfl
  | some t => exact isSymbol_rename ρ t s

theorem countComma_rename (stack : List Entry) :
    countComma (stack.map (Entry.rename ρ)) = (countComma stack).map (Entry.rename ρ) := by
  induction stack with
  | nil => rfl
  | cons e stack ih =>
      cases e with
      | call name argc => rfl
      | operator op argc => exact congrArg (Entry.operator op argc :: ·) ih
      | opening => exact congrArg (Entry.opening :: ·) ih

theorem openCall_rename (next : Option Token) (stack : List Entry) :
    openCall (next.map (Token.rename ρ)) (stack.map (Entry.rename ρ)) =
      (openCall next stack).map (Entry.rename ρ) := by
  match stack with
  | [] => rfl
  | .operator op argc :: stack => rfl
  | .opening :: stack => rfl
  | .call name 0 :: stack =>
      simp only [List.map_cons, Entry.rename, openCall, isNext_rename]
  | .call name (argc + 1) :: stack => rfl

theorem released?_rename (e : Entry) :
    (e.rename ρ).released? = e.released?.map (Token.rename ρ) := by
  cases e <;> rfl

/-- What is released is renamed with what waits, if the entries are not told by their names. -/
theorem release_rename {p : Entry → Bool} (hp : ∀ e, p (e.rename ρ) = p e) (stack : List Entry) :
    release p (stack.map (Entry.rename ρ)) = renameBoth ρ (release p stack) := by
  have hsame : p ∘ Entry.rename ρ = p := funext hp
  have hreleased : Entry.released? ∘ Entry.rename ρ =
      fun e => e.released?.map (Token.rename ρ) := funext (released?_rename ρ)
  rw [release, release, renameBoth, Prod.map, List.takeWhile_map, List.dropWhile_map, hsame,
    List.filterMap_map, List.map_filterMap, hreleased]

theorem pushOperator_rename (op : Operator) (argc : Option Int) (stack : List Entry) :
    pushOperator op argc (stack.map (Entry.rename ρ)) =
      renameBoth ρ (pushOperator op argc stack) := by
  have hp : ∀ e : Entry, (e.rename ρ).yieldsTo op = e.yieldsTo op := fun e => by
    cases e <;> rfl
  rw [pushOperator, pushOperator, release_rename ρ hp]
  rfl

theorem closeBracket_rename (stack : List Entry) :
    closeBracket (stack.map (Entry.rename ρ)) =
      carry (Failure.rename ρ) (renameBoth ρ) (closeBracket stack) := by
  match stack with
  | [] => rfl
  | .operator op argc :: stack => rfl
  | .opening :: stack => rfl
  | .call name argc :: stack =>
      rw [List.map_cons, Entry.rename, closeBracket, closeBracket]
      by_cases hargc : argc < 1
      · rw [if_pos hargc, if_pos hargc]
        rfl
      · rw [if_neg hargc, if_neg hargc]
        rfl

theorem flush_rename (stack : List Entry) :
    flush (stack.map (Entry.rename ρ)) =
      carry (Failure.rename ρ) (List.map (Token.rename ρ)) (flush stack) := by
  induction stack with
  | nil => rfl
  | cons e stack ih =>
      cases e with
      | operator op argc =>
          simp only [List.map_cons, Entry.rename, flush, ih]
          cases flush stack <;> rfl
      | opening => rfl
      | call name argc => rfl

/-! ### Steps and runs -/

theorem stepSymbol_rename (before next : Option Token) {t : Token} (ht : t.kind = .operator)
    (stack : List Entry) (s : Symbol) :
    stepSymbol (before.map (Token.rename ρ)) (next.map (Token.rename ρ)) t
        (stack.map (Entry.rename ρ)) s =
      carry (Failure.rename ρ) (renameBoth ρ) (stepSymbol before next t stack s) := by
  have hopening := release_rename ρ (p := fun e => !e.isOpening) (fun e => by cases e <;> rfl) stack
  have hsign := release_rename ρ (p := Entry.isSign) (fun e => by cases e <;> rfl) stack
  cases s with
  | comma =>
      simp only [stepSymbol, hopening, renameBoth, Prod.map]
      rcases release (fun e => !e.isOpening) stack with ⟨out, _ | ⟨e, rest⟩⟩
      · rfl
      · exact congrArg (fun below => Except.ok (_, below)) (countComma_rename ρ (e :: rest))
  | opening =>
      simp only [stepSymbol, openCall_rename]
      rfl
  | closing =>
      simp only [stepSymbol, hopening, renameBoth, Prod.map]
      rcases release (fun e => !e.isOpening) stack with ⟨out, _ | ⟨e, rest⟩⟩
      · rfl
      · simp only [List.map_cons, closeBracket_rename]
        cases closeBracket rest with
        | error failure => rfl
        | ok p => exact congrArg (fun out => Except.ok (out, _)) (List.map_append ..).symm
  | operator op =>
      cases op with
      | minus =>
          -- The sign and the difference are told apart by the token before, not by its name.
          simp only [stepSymbol, startsOperand_rename, pushOperator_rename]
          split <;> rfl
      | factorial =>
          have htoken : [t] = [t].map (Token.rename ρ) := by
            rw [List.map_singleton, Token.rename_operator ρ ht]
          simp only [stepSymbol, hsign, renameBoth, Prod.map, carry,
            List.map_append]
          rw [← htoken]
      | negate | power | times | divide | remainder | plus =>
          simp only [stepSymbol, pushOperator_rename]
          rfl

theorem step_rename (before next : Option Token) {t : Token} (ht : t.kind ≠ .call)
    (stack : List Entry) :
    step (before.map (Token.rename ρ)) (next.map (Token.rename ρ)) (t.rename ρ)
        (stack.map (Entry.rename ρ)) =
      carry (Failure.rename ρ) (renameBoth ρ) (step before next t stack) := by
  cases hkind : t.kind with
  | call => exact absurd hkind ht
  | number =>
      simp only [step, Token.kind_rename, hkind, carry, renameBoth, Prod.map, List.map_singleton]
  | unknown =>
      have hsame : t.rename ρ = t := by simp only [Token.rename, hkind]
      simp only [step, hsame, hkind]
      rfl
  | identifier =>
      -- The name goes its way without being looked at.
      simp only [step, Token.kind_rename, hkind, isNext_rename]
      rw [Token.rename_identifier ρ hkind]
      split
      · rfl
      · simp only [carry, renameBoth, Prod.map, List.map_singleton,
          Token.rename_identifier ρ hkind]
  | operator =>
      simp only [step, Token.rename_operator ρ hkind, hkind]
      cases Symbol.ofText? t.text with
      | none => rfl
      | some s => exact stepSymbol_rename ρ before next hkind stack s

theorem run_rename (before after : Option Token) {ts : List Token} (hts : ∀ t ∈ ts, t.kind ≠ .call)
    (stack : List Entry) :
    run (before.map (Token.rename ρ)) (after.map (Token.rename ρ)) (ts.map (Token.rename ρ))
        (stack.map (Entry.rename ρ)) =
      carry (Failure.rename ρ) (renameBoth ρ) (run before after ts stack) := by
  induction ts generalizing before stack with
  | nil => rfl
  | cons t ts ih =>
      rcases List.forall_mem_cons.mp hts with ⟨ht, hrest⟩
      have hnext : ((ts.map (Token.rename ρ)).head?.or (after.map (Token.rename ρ))) =
          (ts.head?.or after).map (Token.rename ρ) := by
        cases ts <;> rfl
      rw [List.map_cons, run, run, hnext, step_rename ρ before _ ht]
      refine carry_bind fun p => ?_
      have hmore := ih (some t) hrest p.2
      rw [Option.map_some] at hmore
      simp only [renameBoth, Prod.map] at hmore ⊢
      rw [hmore]
      refine carry_bind fun q => ?_
      simp only [pure, Except.pure, carry, Prod.map, List.map_append]

/-- Renamed tokens are converted to what the tokens are converted to, renamed. -/
theorem ofTokens_rename {ts : List Token} (hts : ∀ t ∈ ts, t.kind ≠ .call) :
    ofTokens (ts.map (Token.rename ρ)) =
      carry (Failure.rename ρ) (List.map (Token.rename ρ)) (ofTokens ts) := by
  have hrun := run_rename ρ none none hts []
  rw [Option.map_none, List.map_nil] at hrun
  rw [ofTokens, ofTokens, hrun]
  refine carry_bind fun p => ?_
  simp only [renameBoth, Prod.map]
  rw [flush_rename]
  refine carry_bind fun rest => ?_
  simp only [pure, Except.pure, carry, List.map_append]

end Postfix

end DeskCalc
