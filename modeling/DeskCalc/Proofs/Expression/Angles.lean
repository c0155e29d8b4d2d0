import DeskCalc.Proofs.Expression.Closed
import DeskCalc.Proofs.Postfix.Conservation

/-!
# Where the Angle Mode Matters

Every step of the machine is told the angle mode, and every function is handed it. Only six of them
look at it. A list of tokens that calls none of the six has the same value in both modes, or the
same fault, and it does not matter on which stack it is run.

A typed text calls a function where a name has an opening bracket right after it, and conversion
makes no other calls. So a text that calls none of the six has one evaluation for all modes, from
which only the mode that it reports is different. A name of the six that is not called, and so is
an unknown constant, does no harm.

## Main definitions

* `Function.angularNames`: The names of the six functions.
* `Meaning.IgnoresMode`: That a function does the same in all modes.
* `Postfix.calledNames`: The names that are called in tokens that are not converted yet.

## Theorems

* `Function.ignoresMode_meaning`: All other functions ignore the mode.
* `Postfix.execute_eq_of_not_angular`: A step that calls none of the six does not depend on it.
* `Postfix.mem_calledNames_of_ofTokens`: Conversion makes the calls that are in a text.
* `Evaluator.evaluate_not_angular`: Token lists and texts without the six functions.
-/

namespace DeskCalc

open Outcome

/-! ### Functions -/

/-- The functions that look at the angle mode, by name. -/
def Function.angularNames : List String := ["sin", "cos", "tan", "asin", "acos", "atan"]

/-- That a function does the same in all modes. -/
def Meaning.IgnoresMode : Meaning → Prop
  | .one f => ∀ mode other, f mode = f other
  | .two _ => True
  | .atLeastOne _ => True

theorem Meaning.IgnoresMode.apply_eq {m : Meaning} (h : m.IgnoresMode) (mode other : AngleMode)
    (args : List Binary64) : m.apply mode args = m.apply other args := by
  cases m with
  | one f =>
      match args with
      | [] => rfl
      | [x] => rw [Meaning.apply, Meaning.apply, h mode other]
      | x :: y :: rest => rfl
  | two f =>
      match args with
      | [] => rfl
      | [x] => rfl
      | [x, y] => rfl
      | x :: y :: z :: rest => rfl
  | atLeastOne f =>
      match args with
      | [] => rfl
      | x :: rest => rfl

namespace Function

theorem ignoresMode_meaning (ar : Arithmetic) {f : Function} (hf : f.name ∉ angularNames) :
    (f.meaning ar).IgnoresMode := by
  cases f with
  | sin | cos | tan | asin | acos | atan => exact absurd (by decide) hf
  | sqrt | abs | exp | ln | log | floor | ceil | round => exact fun _ _ => rfl
  | pow | min | max => trivial

theorem name_of_ofName? {s : String} {f : Function} (h : ofName? s = some f) :
    f.name = lowercase s := by
  have hs := List.find?_some h
  exact eq_of_beq hs

theorem call_eq_of_not_angular (ar : Arithmetic) (mode other : AngleMode) {name : String}
    (hname : lowercase name ∉ angularNames) (args : List Binary64) :
    call ar mode name args = call ar other name args := by
  rw [call, call]
  cases hfind : ofName? name with
  | none => rfl
  | some f =>
      rw [← name_of_ofName? hfind] at hname
      exact (ignoresMode_meaning ar hname).apply_eq mode other args

end Function

/-! ### The machine -/

namespace Postfix

variable {ar : Arithmetic}

/-- That a token is not a call of one of the six functions. -/
def NotAngular (t : Token) : Prop := t.kind = .call → lowercase t.text ∉ Function.angularNames

theorem execute_eq_of_not_angular (mode other : AngleMode) {t : Token} (ht : NotAngular t)
    (stack : List Binary64) : execute ar mode t stack = execute ar other t stack := by
  unfold execute
  cases hkind : t.kind with
  | number | identifier | operator | unknown => rfl
  | call =>
      -- The mode is not needed before the function is called, and this one ignores it.
      have hcall := Function.call_eq_of_not_angular ar mode other (ht hkind)
      simp only [executeCall, hcall]

theorem executeAll_eq_of_not_angular (mode other : AngleMode) {ts : List Token}
    (hts : ∀ t ∈ ts, NotAngular t) (stack : List Binary64) :
    executeAll ar mode ts stack = executeAll ar other ts stack := by
  induction ts generalizing stack with
  | nil => rfl
  | cons t ts ih =>
      rcases List.forall_mem_cons.mp hts with ⟨ht, hrest⟩
      rw [executeAll, executeAll, execute_eq_of_not_angular mode other ht]
      cases execute ar other t stack with
      | error f => rfl
      | ok next => exact ih hrest next

theorem evaluate_eq_of_not_angular (mode other : AngleMode) {ts : List Token}
    (hts : ∀ t ∈ ts, NotAngular t) : evaluate ar mode ts = evaluate ar other ts := by
  rw [evaluate, evaluate, executeAll_eq_of_not_angular mode other hts]

/-! ### Conversion -/

/-- The names that have an opening bracket right after them. -/
def calledNames : List Token → List String
  | [] => []
  | t :: rest =>
    if t.kind = .identifier ∧ isNext .opening rest.head? = true then t.text :: calledNames rest
    else calledNames rest

/-- A token becomes a call only if it is called. -/
theorem mem_calledNames_of_images {before : Option Token} {ts : List Token} {u : Token}
    (hts : ∀ t ∈ ts, t.kind ≠ .call) (hu : u ∈ images before ts) (hkind : u.kind = .call) :
    u.text ∈ calledNames ts := by
  induction ts generalizing before with
  | nil => exact absurd hu List.not_mem_nil
  | cons t ts ih =>
      rcases List.forall_mem_cons.mp hts with ⟨ht, hrest⟩
      rw [images, List.mem_append, Option.mem_toList, image?] at hu
      rw [calledNames]
      rcases hu with himage | hmore
      · by_cases hname : t.kind = .identifier ∧ isNext .opening ts.head? = true
        · rw [if_pos hname] at himage ⊢
          split at himage
          · simp only [reduceCtorEq] at himage
          · rw [Option.some.injEq] at himage
            rw [← himage]
            exact List.mem_cons_self
        · -- Of what stays a token, only a call is one.
          rw [if_neg hname] at himage
          split at himage
          · simp only [reduceCtorEq] at himage
          · split at himage
            · rw [Option.some.injEq] at himage
              rw [← himage] at hkind
              exact absurd hkind (by decide)
            · rw [Option.some.injEq] at himage
              rw [himage] at ht
              exact absurd hkind ht
      · split
        · exact List.mem_cons_of_mem _ (ih hrest hmore)
        · exact ih hrest hmore

theorem mem_calledNames_of_ofTokens {ts out : List Token} (hts : ∀ t ∈ ts, t.kind ≠ .call)
    (h : ofTokens ts = .ok out) {u : Token} (hu : u ∈ out) (hkind : u.kind = .call) :
    u.text ∈ calledNames ts := by
  have hmem : uncounted u ∈ images none ts :=
    (perm_images_of_ofTokens h).subset (List.mem_map_of_mem hu)
  rw [uncounted, if_pos hkind] at hmem
  exact mem_calledNames_of_images (u := ⟨.call, u.text, none⟩) hts hmem rfl

end Postfix

/-! ### Texts -/

theorem Expression.value_eq_of_not_angular (ar : Arithmetic) (mode other : AngleMode)
    {text : String} (htext : ∀ name ∈ Postfix.calledNames (Token.scan text),
      lowercase name ∉ Function.angularNames) : value ar mode text = value ar other text := by
  rw [value, value]
  cases hout : toPostfix text with
  | error e => rfl
  | ok out =>
      have hcalls : ∀ t ∈ out, Postfix.NotAngular t := by
        intro t ht hkind
        have htyped : ∀ t ∈ Token.scan text, t.kind ≠ .call :=
          fun t ht => (Scan.isTyped_of_mem_tokens text.toList t ht).1
        exact htext _ (Postfix.mem_calledNames_of_ofTokens htyped hout ht hkind)
      change (Postfix.evaluate _ mode out).mapError _ = (Postfix.evaluate _ other out).mapError _
      rw [Postfix.evaluate_eq_of_not_angular mode other hcalls]

/-- Whatever the arithmetic, tokens in postfix order that do not call one of the six functions have
    the same value or the same fault in both modes. A text that does not call one of them has the
    same evaluation from any two evaluators, each in its own mode or in one that is asked for, but
    for the mode that the evaluation reports. -/
theorem Evaluator.evaluate_not_angular (ar : Arithmetic) :
    (∀ ts : List Token,
      (∀ t ∈ ts, t.kind = .call → lowercase t.text ∉ Function.angularNames) →
        Postfix.evaluate ar .degrees ts = Postfix.evaluate ar .radians ts) ∧
      ∀ text : String,
        (∀ name ∈ Postfix.calledNames (Token.scan text),
          lowercase name ∉ Function.angularNames) →
          ∀ (e other : Evaluator) (mode otherMode : Option AngleMode),
            other.evaluate ar text otherMode =
              { e.evaluate ar text mode with mode := otherMode.getD other.mode } := by
  refine ⟨fun ts hts => Postfix.evaluate_eq_of_not_angular .degrees .radians hts, ?_⟩
  intro text htext e other mode otherMode
  rw [evaluate, evaluate, Expression.value_eq_of_not_angular ar (mode.getD e.mode)
    (otherMode.getD other.mode) htext]

/-- Calls of functions that are not among the six, in tokens, in a text that has a value, and in one
    that has none because it ends in the name of a sine, which it does not call. -/
theorem Evaluator.evaluate_not_angular_root :
    Postfix.evaluate .standard .degrees [.number "16", .call "SQRT" 1] =
        Postfix.evaluate .standard .radians [.number "16", .call "SQRT" 1] ∧
      (Postfix.calledNames (Token.scan "Abs(2-SQRT(16))") = ["Abs", "SQRT"] ∧
        ((⟨.degrees⟩ : Evaluator).evaluate .standard "Abs(2-SQRT(16))" none).value? =
          some (.ofInt 2) ∧
        ((⟨.degrees⟩ : Evaluator).evaluate .standard "Abs(2-SQRT(16))" (some .radians)).value? =
          some (.ofInt 2)) ∧
      Postfix.calledNames (Token.scan "Abs(2-SQRT(16))*sin") = ["Abs", "SQRT"] ∧
        (⟨.degrees⟩ : Evaluator).evaluate .standard "Abs(2-SQRT(16))*sin" (some .radians) =
          { (⟨.degrees⟩ : Evaluator).evaluate .standard "Abs(2-SQRT(16))*sin" none with
            mode := .radians } := by
  have hroot : Postfix.calledNames (Token.scan "Abs(2-SQRT(16))") = ["Abs", "SQRT"] := by
    decide +kernel
  have hsine : Postfix.calledNames (Token.scan "Abs(2-SQRT(16))*sin") = ["Abs", "SQRT"] := by
    decide +kernel
  have hnames : ∀ name ∈ ["Abs", "SQRT"], lowercase name ∉ Function.angularNames := by decide
  have htwo : ((⟨.degrees⟩ : Evaluator).evaluate .standard "Abs(2-SQRT(16))" none).value? =
      some (.ofInt 2) := by
    decide +kernel
  refine ⟨(evaluate_not_angular .standard).1 _ (by decide), ⟨hroot, htwo, ?_⟩, hsine, ?_⟩
  · rw [← hroot] at hnames
    rw [(evaluate_not_angular .standard).2 _ hnames ⟨.degrees⟩ ⟨.degrees⟩ none (some .radians)]
    exact htwo
  · rw [← hsine] at hnames
    exact (evaluate_not_angular .standard).2 _ hnames ⟨.degrees⟩ ⟨.degrees⟩ none (some .radians)

/-- The sine of ninety is that of a right angle in one mode only. -/
example : (Expression.value .standard .degrees "sin(90)").toOption = some .one ∧
    (Expression.value .standard .radians "sin(90)").toOption ≠ some .one := by
  decide +kernel

end DeskCalc
