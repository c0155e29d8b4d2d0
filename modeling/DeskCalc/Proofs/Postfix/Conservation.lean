import DeskCalc.Proofs.Postfix.Effect

/-!
# Conversion Loses Nothing

What conversion puts out is what it was given: the same tokens in another order, without the
brackets and commas, with a call in place of a name that a bracket follows and a sign in place of a
minus that stands where an operand has to start. This holds of any tokens that are converted at
all, whether or not they make sense as an expression.

A token may be in three places: not yet read, waiting on the stack, or put out. The law that one
step preserves counts all three. What is put out and what waits afterwards is what waited before
and what the token becomes (`Tracks.perm_of_step`), and over a whole list nothing waits at the
start and all that waits at the end is put out.

The order of the operands is a matter of its own. They never wait, so it is that of the input.

## Main definitions

* `Postfix.image?`, `Postfix.images`: What becomes of a token, and of a list of them.
* `Postfix.uncounted`: A token without the number of its arguments.
* `Postfix.Entry.waiting?`: The token that an entry stands for.

## Theorems

* `Postfix.Tracks.perm_of_step`: A step neither loses a token nor makes one.
* `Postfix.Effect.operands`: A step puts out the operand that it reads.
* `Postfix.perm_images_of_ofTokens`: Nor does a whole conversion.
* `Postfix.ofTokens_conserves`: The output holds what the tokens become, the operands in order.
-/

namespace DeskCalc

namespace Postfix

/-! ### What becomes of the tokens -/

/-- Whether a token is a bracket or a comma. -/
def isGrouping (t : Token) : Bool :=
  isSymbol t .opening || isSymbol t .closing || isSymbol t .comma

/-- The symbols directly after which a minus is a sign. -/
def operandOpeners : List String := ["+", "-", "*", "/", "^", "(", ",", "%"]

/-- Whether a minus is a sign when it comes first or directly after the given token. -/
def isSignAfter : Option Token → Bool
  | none => true
  | some before => before.kind == .operator && operandOpeners.contains before.text

/-- What becomes of a token between its neighbours. Of a bracket or a comma nothing does. How many
    arguments a call has is left open. -/
def image? (before next : Option Token) (t : Token) : Option Token :=
  if isGrouping t then none
  else if t.kind = .identifier ∧ isNext .opening next = true then some ⟨.call, t.text, none⟩
  else if isSymbol t (.operator .minus) = true ∧ isSignAfter before = true then
    some Operator.negate.token
  else some t

/-- What becomes of several tokens that come after the given one, in their order. -/
def images (before : Option Token) : List Token → List Token
  | [] => []
  | t :: rest => (image? before rest.head? t).toList ++ images (some t) rest

/-- A token without the number of its arguments. -/
def uncounted (t : Token) : Token := if t.kind = .call then ⟨.call, t.text, none⟩ else t

/-- Whether a token is a number or a constant. -/
def isOperand (t : Token) : Bool := t.kind == .number || t.kind == .identifier

/-- The token that an entry stands for, without the number of its arguments. -/
def Entry.waiting? : Entry → Option Token
  | .operator op argc => some ⟨.operator, op.symbol, argc⟩
  | .opening => none
  | .call name _ => some ⟨.call, name, none⟩

/-- An operand has to start where the list says that a minus is a sign. -/
theorem startsOperand_eq (before : Option Token) : startsOperand before = isSignAfter before := by
  match before with
  | none => rfl
  | some t =>
      rw [startsOperand, isSignAfter]
      congr 1
      cases hs : Symbol.ofText? t.text with
      | some s =>
          rw [Symbol.ofText?_eq_some_iff.mp hs, Option.any_some]
          cases s with
          | operator op => cases op <;> decide
          | _ => decide
      | none =>
          -- Each of the listed texts is a symbol, so this one is not among them.
          have hall : ∀ text ∈ operandOpeners, Symbol.ofText? text ≠ none := by decide
          have hnot : operandOpeners.contains t.text = false := by
            rw [Bool.eq_false_iff]
            intro hmem
            exact hall t.text (List.contains_iff_mem.mp hmem) hs
          rw [Option.any_none, hnot]

theorem isGrouping_eq_false {t : Token} (hkind : t.kind ≠ .operator) : isGrouping t = false := by
  rw [isGrouping, isSymbol_eq_false hkind, isSymbol_eq_false hkind, isSymbol_eq_false hkind]
  rfl

theorem isGrouping_operator {t : Token} {op : Operator} (ht : isSymbol t (.operator op) = true) :
    isGrouping t = false := by
  rw [isGrouping, isSymbol_other ht, isSymbol_other ht, isSymbol_other ht]
  rfl

theorem isGrouping_symbol {t : Token} {s : Symbol} (ht : isSymbol t s = true)
    (hs : s = .comma ∨ s = .opening ∨ s = .closing) : isGrouping t = true := by
  rw [isGrouping, isSymbol_other ht, isSymbol_other ht, isSymbol_other ht]
  rcases hs with rfl | rfl | rfl <;> rfl

theorem image?_grouping (before next : Option Token) {t : Token} (ht : isGrouping t = true) :
    image? before next t = none := by
  rw [image?, if_pos ht]

/-- An operand stays what it is. -/
theorem image?_operand (before : Option Token) {next : Option Token} {t : Token}
    (hkind : t.kind = .number ∨ t.kind = .identifier ∧ isNext .opening next = false) :
    image? before next t = some t ∧ isOperand t = true := by
  have hother : t.kind ≠ .operator := by
    rcases hkind with hkind | ⟨hkind, _⟩ <;> rw [hkind] <;> exact TokenKind.noConfusion
  have hname : ¬ (t.kind = .identifier ∧ isNext .opening next = true) := by
    rintro ⟨hid, hnext⟩
    rcases hkind with hnum | ⟨_, hnot⟩
    · rw [hid] at hnum
      exact TokenKind.noConfusion hnum
    · rw [hnext] at hnot
      exact Bool.noConfusion hnot
  have hminus : ¬ (isSymbol t (.operator .minus) = true ∧ isSignAfter before = true) := by
    rw [isSymbol_eq_false hother]
    rintro ⟨hno, _⟩
    exact Bool.noConfusion hno
  refine ⟨?_, ?_⟩
  · rw [image?, if_neg (by rw [isGrouping_eq_false hother]; exact Bool.false_ne_true), if_neg hname,
      if_neg hminus]
  · rcases hkind with hkind | ⟨hkind, _⟩ <;> rw [isOperand, hkind] <;> rfl

theorem image?_name (before : Option Token) {next : Option Token} {t : Token}
    (hkind : t.kind = .identifier) (hnext : isNext .opening next = true) :
    image? before next t = some ⟨.call, t.text, none⟩ := by
  have hother : t.kind ≠ .operator := by
    rw [hkind]
    exact TokenKind.noConfusion
  rw [image?, if_neg (by rw [isGrouping_eq_false hother]; exact Bool.false_ne_true),
    if_pos ⟨hkind, hnext⟩]

/-- An operator is a sign or stays what it is. -/
theorem image?_operator (before next : Option Token) {t : Token} {op : Operator}
    (ht : isSymbol t (.operator op) = true) :
    image? before next t =
      if op = .minus ∧ startsOperand before = true then some Operator.negate.token else some t := by
  have hname : ¬ (t.kind = .identifier ∧ isNext .opening next = true) := by
    rw [kind_of_isSymbol ht]
    rintro ⟨hno, _⟩
    exact TokenKind.noConfusion hno
  have hminus : isSymbol t (.operator .minus) = true ↔ op = .minus := by
    rw [isSymbol_other ht, beq_iff_eq, Symbol.operator.injEq]
  rw [image?, if_neg (by rw [isGrouping_operator ht]; exact Bool.false_ne_true), if_neg hname,
    startsOperand_eq]
  simp only [hminus]

/-- A minus where an operand has to start becomes a sign. -/
theorem image?_sign {before : Option Token} (next : Option Token) {t : Token}
    (ht : isSymbol t (.operator .minus) = true) (hbefore : startsOperand before = true) :
    image? before next t = some Operator.negate.token := by
  rw [image?_operator before next ht, if_pos ⟨rfl, hbefore⟩]

/-- Any other operator stays what it is. -/
theorem image?_self {before : Option Token} (next : Option Token) {t : Token} {op : Operator}
    (ht : isSymbol t (.operator op) = true) (hbefore : op = .minus → startsOperand before = false) :
    image? before next t = some t := by
  have hnot : ¬ (op = .minus ∧ startsOperand before = true) := by
    rintro ⟨hminus, hsign⟩
    rw [hbefore hminus] at hsign
    exact Bool.noConfusion hsign
  rw [image?_operator before next ht, if_neg hnot]

/-! ### The stack -/

/-- Releasing operators puts out the tokens that they stand for. -/
theorem map_uncounted_released {pending : List Entry} (h : ∀ e ∈ pending, e.isOperator = true) :
    (pending.filterMap Entry.released?).map uncounted = pending.filterMap Entry.waiting? := by
  induction pending with
  | nil => rfl
  | cons e pending ih =>
      rcases List.forall_mem_cons.mp h with ⟨he, hrest⟩
      match e, he with
      | .operator op argc, _ =>
          change uncounted _ :: (pending.filterMap Entry.released?).map uncounted = _
          rw [ih hrest]
          rfl

/-- What is released is never an operand. -/
theorem filter_isOperand_released (pending : List Entry) :
    (pending.filterMap Entry.released?).filter isOperand = [] :=
  filter_released (fun _ _ => rfl) pending

theorem filterMap_waiting_countComma (stack : List Entry) :
    (countComma stack).filterMap Entry.waiting? = stack.filterMap Entry.waiting? := by
  induction stack with
  | nil => rfl
  | cons e stack ih =>
      match e with
      | .call name argc => rfl
      | .operator op argc => exact congrArg (_ :: ·) ih
      | .opening => exact ih

theorem filterMap_waiting_openCall (next : Option Token) (stack : List Entry) :
    (openCall next stack).filterMap Entry.waiting? = stack.filterMap Entry.waiting? := by
  match stack with
  | .call name 0 :: _ => rfl
  | .call name (_ + 1) :: _ => rfl
  | .operator .. :: _ => rfl
  | .opening :: _ => rfl
  | [] => rfl

/-! ### Steps and runs -/

/-- A step neither loses a token nor makes one: what it puts out and what waits after it is what
    waited before and what the token becomes. -/
theorem Tracks.perm_of_step {earlier before next : Option Token} {t : Token}
    {stack rest : List Entry} {out : List Token} (h : Tracks earlier before (some t) stack)
    (hstep : step before next t stack = .ok (out, rest)) :
    (out.map uncounted ++ rest.filterMap Entry.waiting?).Perm
      (stack.filterMap Entry.waiting? ++ (image? before next t).toList) := by
  -- A token is either put out with what it releases or left on top of what stays.
  cases effect_of_step hstep with
  | operand hkind =>
      rcases image?_operand before hkind with ⟨himage, hop⟩
      have hsame : uncounted t = t := by
        rw [uncounted, if_neg]
        rcases hkind with hkind | ⟨hkind, _⟩ <;> rw [hkind] <;> exact TokenKind.noConfusion
      rw [himage, Option.toList_some, List.map_singleton, hsame]
      exact List.perm_append_comm
  | name hkind hnext =>
      rw [image?_name before hkind hnext, Option.toList_some, List.map_nil, List.nil_append]
      exact (List.perm_append_singleton _ _).symm
  | @comma pending below ht hpending =>
      have hops := h.operators_above_opening (isSymbol_other ht .opening) hpending
      rw [image?_grouping before next (isGrouping_symbol ht (.inl rfl)), Option.toList_none,
        List.append_nil, map_uncounted_released hops,
        List.filterMap_append]
      refine List.Perm.append_left _ ?_
      rw [List.filterMap_cons_none rfl, List.filterMap_cons_none rfl, filterMap_waiting_countComma]
  | opening ht =>
      rw [image?_grouping before next (isGrouping_symbol ht (.inr (.inl rfl))), Option.toList_none,
        List.append_nil, List.map_nil, List.nil_append,
        List.filterMap_cons_none rfl, filterMap_waiting_openCall]
  | @group pending below ht hpending hbelow =>
      have hops := h.operators_above_opening (isSymbol_other ht .opening) hpending
      rw [image?_grouping before next (isGrouping_symbol ht (.inr (.inr rfl))), Option.toList_none,
        List.append_nil, map_uncounted_released hops,
        List.filterMap_append, List.filterMap_cons_none rfl]
  | @call pending below name argc ht hpending hargc =>
      have hops := h.operators_above_opening (isSymbol_other ht .opening) hpending
      rw [image?_grouping before next (isGrouping_symbol ht (.inr (.inr rfl))), Option.toList_none,
        List.append_nil, List.map_append,
        map_uncounted_released hops, List.filterMap_append, List.append_assoc]
      exact List.Perm.refl _
  | @sign pending below ht hbefore hpending hbelow =>
      have hops := fun e he => Entry.isOperator_of_yieldsTo (hpending e he)
      rw [image?_sign next ht hbefore, map_uncounted_released hops, List.filterMap_append,
        List.append_assoc]
      exact List.Perm.append_left _ (List.perm_append_singleton _ _).symm
  | @operator pending below op ht hop hbefore hpending hbelow =>
      have hops := fun e he => Entry.isOperator_of_yieldsTo (hpending e he)
      rw [image?_self next ht hbefore, map_uncounted_released hops, List.filterMap_append,
        List.append_assoc]
      have hentry : Entry.waiting? (.operator op t.argc) = some t := congrArg some (token_eq ht)
      rw [List.filterMap_cons_some hentry]
      exact List.Perm.append_left _ (List.perm_append_singleton _ _).symm
  | @factorial pending below ht hpending hbelow =>
      have hops := fun e he => Entry.isOperator_of_isSign (hpending e he)
      have hsame : uncounted t = t := by
        rw [← token_eq ht]
        rfl
      rw [image?_self next ht Operator.noConfusion, List.map_append, map_uncounted_released hops,
        List.filterMap_append, List.append_assoc, List.append_assoc, List.map_singleton, hsame]
      exact List.Perm.append_left _ List.perm_append_comm

/-- A step puts out the operand that it reads, and no other. -/
theorem Effect.operands {before next : Option Token} {t : Token} {stack rest : List Entry}
    {out : List Token} (h : Effect before next t stack out rest) :
    out.filter isOperand = (image? before next t).toList.filter isOperand := by
  cases h with
  | operand hkind => rw [(image?_operand before hkind).1, Option.toList_some]
  | name hkind hnext =>
      rw [image?_name before hkind hnext]
      rfl
  | comma ht _ =>
      have hgroup := isGrouping_symbol ht (.inl rfl)
      rw [filter_isOperand_released, image?_grouping before next hgroup]
      rfl
  | opening ht =>
      have hgroup := isGrouping_symbol ht (.inr (.inl rfl))
      rw [image?_grouping before next hgroup]
      rfl
  | group ht _ _ =>
      have hgroup := isGrouping_symbol ht (.inr (.inr rfl))
      rw [filter_isOperand_released, image?_grouping before next hgroup]
      rfl
  | call name ht _ _ =>
      have hgroup := isGrouping_symbol ht (.inr (.inr rfl))
      rw [List.filter_append, filter_isOperand_released, image?_grouping before next hgroup]
      rfl
  | sign ht hbefore _ _ =>
      rw [filter_isOperand_released, image?_sign next ht hbefore]
      rfl
  | operator op ht _ hbefore _ _ =>
      rw [filter_isOperand_released, image?_self next ht hbefore, ← token_eq ht]
      rfl
  | factorial ht _ _ =>
      rw [List.filter_append, filter_isOperand_released, image?_self next ht Operator.noConfusion,
        List.nil_append, Option.toList_some]

/-- A run neither loses a token nor makes one, and puts out the operands as they come. -/
theorem Tracks.conserves_run {earlier before : Option Token} {ts out : List Token}
    {stack rest : List Entry} (h : Tracks earlier before ts.head? stack)
    (hrun : run before none ts stack = .ok (out, rest)) :
    (out.map uncounted ++ rest.filterMap Entry.waiting?).Perm
        (stack.filterMap Entry.waiting? ++ images before ts) ∧
      out.filter isOperand = (images before ts).filter isOperand := by
  induction ts generalizing earlier before stack out with
  | nil =>
      rw [run, Except.ok.injEq, Prod.mk.injEq] at hrun
      rw [← hrun.1, ← hrun.2, images, List.append_nil]
      exact ⟨List.Perm.refl _, rfl⟩
  | cons t ts ih =>
      rcases run_cons_eq_ok hrun with ⟨first, mid, more, hstep, hrest, rfl⟩
      rw [Option.or_none] at hstep
      rcases ih (h.of_step hstep) hrest with ⟨hperm, horder⟩
      refine ⟨?_, ?_⟩
      · -- What waits between the step and the rest is what the two have in common.
        rw [images, List.map_append, List.append_assoc, ← List.append_assoc (stack.filterMap _)]
        calc (first.map uncounted ++ (more.map uncounted ++ rest.filterMap Entry.waiting?)).Perm
              (first.map uncounted ++ (mid.filterMap Entry.waiting? ++ images (some t) ts)) :=
            List.Perm.append_left _ hperm
          _ = (first.map uncounted ++ mid.filterMap Entry.waiting?) ++ images (some t) ts :=
            (List.append_assoc ..).symm
          List.Perm _ ((stack.filterMap Entry.waiting? ++ (image? before ts.head? t).toList) ++
              images (some t) ts) := List.Perm.append_right _ (h.perm_of_step hstep)
      · rw [images, List.filter_append, List.filter_append, horder,
          (effect_of_step hstep).operands]

theorem length_images (before : Option Token) (ts : List Token) :
    (images before ts).length = (ts.filter fun t => !isGrouping t).length := by
  induction ts generalizing before with
  | nil => rfl
  | cons t ts ih =>
      rw [images, List.length_append, ih]
      cases hgroup : isGrouping t with
      | true =>
          rw [image?_grouping before ts.head? hgroup, List.filter_cons_of_neg (by simp only [hgroup,
            Bool.not_true, Bool.false_eq_true, not_false_eq_true])]
          exact Nat.zero_add _
      | false =>
          have hone : (image? before ts.head? t).toList.length = 1 := by
            rw [image?, hgroup, if_neg Bool.false_ne_true]
            split
            · rfl
            · split <;> rfl
          rw [hone, List.filter_cons_of_pos (by simp only [hgroup, Bool.not_false]),
            List.length_cons]
          omega

/-- The output holds what the tokens become and nothing else. -/
theorem perm_images_of_ofTokens {ts out : List Token} (h : ofTokens ts = .ok out) :
    (out.map uncounted).Perm (images none ts) := by
  rcases ofTokens_eq_ok h with ⟨first, stack, hrun, hops, rfl⟩
  have hperm := ((Tracks.start ts.head?).conserves_run hrun).1
  rw [List.filterMap_nil, List.nil_append] at hperm
  rwa [List.map_append, map_uncounted_released hops]

/-- The output of conversion holds what the tokens become and nothing else, with the operands in
    their order, so it has a token for each that is no bracket or comma. -/
theorem ofTokens_conserves {ts out : List Token} (h : ofTokens ts = .ok out) :
    (out.map uncounted).Perm (images none ts) ∧
      out.filter isOperand = (images none ts).filter isOperand ∧
      out.length = (ts.filter fun t => !isGrouping t).length := by
  have hall := perm_images_of_ofTokens h
  refine ⟨hall, ?_, ?_⟩
  · rcases ofTokens_eq_ok h with ⟨first, stack, hrun, _, rfl⟩
    rw [List.filter_append, filter_isOperand_released, List.append_nil,
      ((Tracks.start ts.head?).conserves_run hrun).2]
  · rw [← length_images none ts, ← hall.length_eq, List.length_map]

/-- The tokens of `2-max(-3,x)`, where one minus subtracts and the other is a sign. -/
def signedDifference : List Token :=
  [.number "2", .operator "-", .identifier "max", .operator "(", .operator "-", .number "3",
    .operator ",", .identifier "x", .operator ")"]

/-- The tokens of `2-max(-3,x)` are all kept, one minus as it is and the other as a sign. -/
theorem ofTokens_conserves_signedDifference :
    ofTokens signedDifference = .ok [.number "2", .number "3", .operator "u-", .identifier "x",
        .call "max" 2, .operator "-"] ∧
      images none signedDifference = [.number "2", .operator "-", ⟨.call, "max", none⟩,
        .operator "u-", .number "3", .identifier "x"] ∧
      ([.number "2", .number "3", .operator "u-", .identifier "x", ⟨.call, "max", none⟩,
        .operator "-"] : List Token).Perm (images none signedDifference) :=
  ⟨rfl, by decide, (ofTokens_conserves (rfl : ofTokens signedDifference = .ok _)).1⟩

end Postfix

end DeskCalc
