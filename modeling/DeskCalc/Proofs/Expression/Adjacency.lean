import DeskCalc.Evaluation
import DeskCalc.Proofs.Postfix.Depth
import DeskCalc.Proofs.Postfix.Effect

/-!
# Operands Without an Operator Between Them

What becomes of an expression like `2 3`, where one operand ends and another starts with nothing
between them.

Conversion does not look for this. The two operands leave one value more on the stack than there
should be, and the machine complains about that at the end, if nothing has used it up. An operator
elsewhere can: where an operand is missing, the operator takes the one that is too many, and
`2 3+` is five. So what is rejected is not two adjacent operands but more of them than are missing.

The proof keeps an account. Every operand adds a value, and every operator and comma takes one away
for the operand that it expects. Adjacent operands are values that nothing expected, and gaps are
expectations that nothing met, and between two tokens the values that are out or that will be when
the stack is released make up for the difference (`Tracks.account_step`).

## Main definitions

* `Postfix.adjoins`: Whether one operand ends and another starts between two tokens.
* `Postfix.adjacencies`: How many operands follow another directly.
* `Postfix.gaps`: How many operands are missing.

## Theorems

* `Postfix.Tracks.account_step`, `Postfix.Tracks.account_run`: The account, after one token and
  after several.
* `Expression.rejects_adjacent`: An expression with more adjacent operands than gaps has no value.
* `Expression.value_adjacentSum`: Adjacent operands alone do not make an expression fail.
-/

namespace DeskCalc

namespace Postfix

/-! ### Adjacent and missing operands -/

/-- Whether an operand ends with a token that comes before the given one: a number, a name that is
    not that of a call, a closing bracket, or a factorial. -/
def endsOperand (t next : Token) : Bool :=
  t.kind == .number || (t.kind == .identifier && !isSymbol next .opening) ||
    isSymbol t .closing || isSymbol t (.operator .factorial)

/-- Whether an operand starts with a token: a number, a name, or an opening bracket. -/
def beginsOperand (t : Token) : Bool :=
  t.kind == .number || t.kind == .identifier || isSymbol t .opening

/-- Whether one operand ends and another starts between two tokens. -/
def adjoins (t next : Token) : Bool := endsOperand t next && beginsOperand next

/-- How many operands follow another directly, among tokens that come after the given one. -/
def adjacencies (before : Option Token) : List Token → Nat
  | [] => 0
  | t :: rest => (before.any fun b => adjoins b t).toNat + adjacencies (some t) rest

/-- Whether an operand has to start after the first token, and the second starts none: it is a
    comma, a closing bracket, or an operator other than a minus, which would be a sign there. -/
def lacks (before : Option Token) (t : Token) : Bool :=
  startsOperand before && t.kind == .operator && !isSymbol t .opening &&
    !isSymbol t (.operator .minus)

/-- How many operands are missing, among tokens that come after the given one and at their end. -/
def gaps (before : Option Token) : List Token → Nat
  | [] => (startsOperand before).toNat
  | t :: rest => (lacks before t).toNat + gaps (some t) rest

theorem adjacencies_some_pos_iff (b : Token) (ts : List Token) :
    0 < adjacencies (some b) ts ↔ ∃ t next, [t, next] <:+: b :: ts ∧ adjoins t next = true := by
  induction ts generalizing b with
  | nil =>
      refine ⟨fun h => absurd h (Nat.lt_irrefl 0), ?_⟩
      rintro ⟨t, next, hpair, _⟩
      have hlength := hpair.length_le
      simp only [List.length_cons, List.length_nil] at hlength
      omega
  | cons c ts ih =>
      rw [adjacencies, Option.any_some]
      constructor
      · intro h
        cases hfirst : adjoins b c with
        | true => exact ⟨b, c, List.IsPrefix.isInfix ⟨ts, rfl⟩, hfirst⟩
        | false =>
            rw [hfirst, Bool.toNat_false, Nat.zero_add, ih] at h
            rcases h with ⟨t, next, hpair, hadjoins⟩
            exact ⟨t, next, List.infix_cons hpair, hadjoins⟩
      · rintro ⟨t, next, hpair, hadjoins⟩
        -- The pair is the first two tokens or lies behind the first.
        rcases List.infix_cons_iff.mp hpair with hfirst | hrest
        · simp only [List.cons_prefix_cons, List.nil_prefix, and_true] at hfirst
          rw [← hfirst.1, ← hfirst.2, hadjoins, Bool.toNat_true]
          omega
        · have hmore := (ih c).mpr ⟨t, next, hrest, hadjoins⟩
          omega

/-- There is an adjacency exactly where one operand follows another. -/
theorem adjacencies_pos_iff (ts : List Token) :
    0 < adjacencies none ts ↔ ∃ t next, [t, next] <:+: ts ∧ adjoins t next = true := by
  cases ts with
  | nil =>
      refine ⟨fun h => absurd h (Nat.lt_irrefl 0), ?_⟩
      rintro ⟨t, next, hpair, _⟩
      have hlength := hpair.length_le
      simp only [List.length_cons, List.length_nil] at hlength
      omega
  | cons t ts =>
      rw [adjacencies, Option.any_none, Bool.toNat_false, Nat.zero_add]
      exact adjacencies_some_pos_iff t ts

/-! ### Between two tokens -/

/-- Whether an operand has ended between two tokens. It has not between the name of a call and its
    bracket. -/
def hasOperand (before next : Option Token) : Bool :=
  !startsOperand before && !(before.any fun b => b.kind == .identifier && isNext .opening next)

/-- Where an operator, a bracket or a comma comes, a name was not that of a call unless it is an
    opening bracket. -/
theorem hasOperand_eq {before : Option Token} {t : Token} (ht : isSymbol t .opening = false) :
    hasOperand before (some t) = !startsOperand before := by
  have hnext : isNext .opening (some t) = false := ht
  have hnone : (before.any fun b => b.kind == .identifier && isNext .opening (some t)) = false := by
    rw [hnext]
    cases before with
    | none => rfl
    | some b => simp only [Option.any_some, Bool.and_false]
  rw [hasOperand, hnone, Bool.not_false, Bool.and_true]

/-- After an operator, a bracket or a comma an operand has ended if none has to start. -/
theorem hasOperand_symbol {t : Token} {s : Symbol} (ht : isSymbol t s = true)
    (next : Option Token) : hasOperand (some t) next = !s.precedesOperand := by
  have hkind := kind_of_isSymbol ht
  have hstarts : startsOperand (some t) = s.precedesOperand := by
    rw [startsOperand, hkind, text_of_isSymbol ht, Symbol.ofText?_text]
    rfl
  rw [hasOperand, hstarts, Option.any_some, hkind]
  exact Bool.and_true _

/-- Between adjacent operands one has ended. -/
theorem hasOperand_of_adjoins {t next : Token} (h : adjoins t next = true) :
    hasOperand (some t) (some next) = true := by
  rw [adjoins, Bool.and_eq_true, endsOperand, Bool.or_eq_true, Bool.or_eq_true, Bool.or_eq_true,
    Bool.and_eq_true, Bool.not_eq_true'] at h
  rcases h.1 with ((hnumber | ⟨hname, hnext⟩) | hclosing) | hfactorial
  · have hkind : t.kind = .number := eq_of_beq hnumber
    simp only [hasOperand, startsOperand, hkind, Option.any_some]
    rfl
  · have hkind : t.kind = .identifier := eq_of_beq hname
    simp only [hasOperand, startsOperand, hkind, Option.any_some, isNext, hnext]
    rfl
  · exact hasOperand_symbol hclosing (some next)
  · exact hasOperand_symbol hfactorial (some next)

/-- An operand that follows another directly follows one that has ended. -/
theorem adjoins_le_hasOperand (before : Option Token) (t : Token) :
    (before.any fun b => adjoins b t).toNat ≤ (hasOperand before (some t)).toNat := by
  cases before with
  | none => exact Nat.zero_le _
  | some b =>
      rw [Option.any_some]
      cases hadjoins : adjoins b t with
      | false => exact Nat.zero_le _
      | true => rw [hasOperand_of_adjoins hadjoins]

/-- A token that starts no operand does not follow one directly. -/
theorem adjoins_eq_false (before : Option Token) {t : Token} (ht : beginsOperand t = false) :
    (before.any fun b => adjoins b t) = false := by
  cases before with
  | none => rfl
  | some b => rw [Option.any_some, adjoins, ht, Bool.and_false]

theorem beginsOperand_eq_false {t : Token} {s : Symbol} (ht : isSymbol t s = true)
    (hs : s ≠ .opening) : beginsOperand t = false := by
  rw [beginsOperand, kind_of_isSymbol ht, isSymbol_other ht, beq_false_of_ne hs]
  rfl

/-- A comma, a closing bracket, or an operator other than a minus lacks an operand exactly where
    one has to start. -/
theorem lacks_eq {t : Token} {s : Symbol} (before : Option Token) (ht : isSymbol t s = true)
    (hs : s ≠ .opening) (hminus : s ≠ .operator .minus) :
    lacks before t = startsOperand before := by
  rw [lacks, kind_of_isSymbol ht, isSymbol_other ht, isSymbol_other ht, beq_false_of_ne hs,
    beq_false_of_ne hminus]
  simp only [beq_self_eq_true, Bool.and_true, Bool.not_false]

/-! ### The account -/

/-- How many values an entry will add when it is released. -/
def Entry.gain : Entry → Int
  | .operator op _ => 1 - (op.operands : Int)
  | .opening => 0
  | .call _ argc => -((argc - 1 : Nat) : Int)

/-- How many values the stack will add. -/
def weight : List Entry → Int
  | [] => 0
  | e :: stack => e.gain + weight stack

theorem weight_append (pending below : List Entry) :
    weight (pending ++ below) = weight pending + weight below := by
  induction pending with
  | nil => exact (Int.zero_add _).symm
  | cons e pending ih => rw [List.cons_append, weight, weight, ih, Int.add_assoc]

/-- Operators add when they are released what they were to add. -/
theorem net_released {pending : List Entry} (h : ∀ e ∈ pending, e.isOperator = true) :
    net (pending.filterMap Entry.released?) = weight pending := by
  induction pending with
  | nil => rfl
  | cons e pending ih =>
      rcases List.forall_mem_cons.mp h with ⟨he, hrest⟩
      match e, he with
      | .operator op argc, _ =>
          have hout : Entry.released? (.operator op argc) = some ⟨.operator, op.symbol, argc⟩ := rfl
          rw [List.filterMap_cons_some hout, net, ih hrest, weight]
          simp only [takes, Operator.ofSymbol?_symbol, Option.map_some, Option.getD_some,
            Entry.gain]

/-- A comma takes one value away at most, for the innermost call if there is one. -/
theorem weight_countComma (stack : List Entry) : weight stack ≤ weight (countComma stack) + 1 := by
  induction stack with
  | nil => decide
  | cons e stack ih =>
      cases e with
      | call name argc =>
          rw [countComma, weight, weight, Entry.gain, Entry.gain]
          omega
      | operator op argc =>
          rw [countComma, weight, weight]
          · omega
          · exact nofun
      | opening =>
          rw [countComma, weight, weight]
          · omega
          · exact nofun

/-- To open a call takes nothing away. -/
theorem weight_openCall (next : Option Token) (stack : List Entry) :
    weight (openCall next stack) = weight stack := by
  rw [openCall.eq_def]
  split
  · rw [weight, weight, Entry.gain, Entry.gain]
    split <;> rfl
  · rfl

/-- The account after one token: what has been put out and what the stack will add, with the gap
    and the operand before the token if there are any, cover what the stack was to add and the
    adjacency and the operand after the token. -/
def Accounts (before next : Option Token) (t : Token) (stack : List Entry) (out : List Token)
    (rest : List Entry) : Prop :=
  weight stack + (before.any fun b => adjoins b t).toNat + (hasOperand (some t) next).toNat ≤
    net out + weight rest + (lacks before t).toNat + (hasOperand before (some t)).toNat

/-- The account of a comma, a closing bracket, or an operator that is no sign. An operand has ended
    before it or is missing there, and that is one value. -/
theorem accounts_symbol {before : Option Token} (next : Option Token) {t : Token} {s : Symbol}
    {stack rest : List Entry} {out : List Token} (ht : isSymbol t s = true) (hs : s ≠ .opening)
    (hminus : s = .operator .minus → startsOperand before = false)
    (h : weight stack + (!s.precedesOperand).toNat ≤ net out + weight rest + 1) :
    Accounts before next t stack out rest := by
  have hmissing : (lacks before t).toNat + (hasOperand before (some t)).toNat = 1 := by
    have hbracket : isSymbol t .opening = false := by
      rw [isSymbol_other ht, beq_false_of_ne hs]
    rw [hasOperand_eq hbracket]
    by_cases hsign : s = .operator .minus
    · rw [lacks, hminus hsign]
      rfl
    · rw [lacks_eq before ht hs hsign]
      cases startsOperand before <;> rfl
  rw [Accounts, adjoins_eq_false before (beginsOperand_eq_false ht hs), hasOperand_symbol ht,
    Bool.toNat_false]
  omega

/-- Every token keeps the account. -/
theorem Tracks.account_step {earlier before next : Option Token} {t : Token}
    {stack rest : List Entry} {out : List Token} (h : Tracks earlier before (some t) stack)
    (hstep : step before next t stack = .ok (out, rest)) :
    Accounts before next t stack out rest := by
  have hadjoins := adjoins_le_hasOperand before t
  cases effect_of_step hstep with
  | operand hkind =>
      -- The operand adds a value, and is one that has ended.
      have hnet : net [t] = 1 := by
        rw [net, takes]
        rcases hkind with hkind | ⟨hkind, _⟩ <;> rw [hkind] <;> rfl
      have hended := Bool.toNat_le (hasOperand (some t) next)
      rw [Accounts, hnet]
      omega
  | name hkind hnext =>
      have hended : hasOperand (some t) next = false := by
        rw [hasOperand, Option.any_some, hkind, hnext]
        exact Bool.and_false _
      have hnet : net [] = 0 := rfl
      have hgain : Entry.gain (.call t.text 0) = 0 := rfl
      rw [Accounts, hended, hnet, weight, hgain, Bool.toNat_false]
      omega
  | @comma pending below ht hpending =>
      have hops := h.operators_above_opening (isSymbol_other ht .opening) hpending
      have hcount := weight_countComma below
      refine accounts_symbol next ht Symbol.noConfusion Symbol.noConfusion ?_
      rw [net_released hops, weight_append, weight, weight]
      change _ + ((0 : Nat) : Int) ≤ _
      omega
  | opening ht =>
      have hnet : net [] = 0 := rfl
      have hgain : Entry.gain .opening = 0 := rfl
      have hafter : (!Symbol.opening.precedesOperand).toNat = 0 := rfl
      rw [Accounts, hasOperand_symbol ht, hafter, hnet, weight, hgain, weight_openCall]
      omega
  | @group pending below ht hpending hbelow =>
      have hops := h.operators_above_opening (isSymbol_other ht .opening) hpending
      have hgain : Entry.gain .opening = 0 := rfl
      refine accounts_symbol next ht Symbol.noConfusion Symbol.noConfusion ?_
      rw [net_released hops, weight_append, weight, hgain, Int.zero_add]
      exact Int.le_refl _
  | @call pending below name argc ht hpending hargc =>
      have hops := h.operators_above_opening (isSymbol_other ht .opening) hpending
      -- A call takes its arguments and leaves its result.
      have hnet : net [.call name argc] = Entry.gain (.call name argc) := by
        rw [net, takes, Entry.gain]
        change 1 - (argc : Int) + 0 = _
        omega
      have hgain : Entry.gain .opening = 0 := rfl
      refine accounts_symbol next ht Symbol.noConfusion Symbol.noConfusion ?_
      rw [net_append, net_released hops, hnet, weight_append, weight, weight, hgain]
      change _ + ((1 : Nat) : Int) ≤ _
      omega
  | @sign pending below ht hbefore hpending hbelow =>
      have hops := fun e he => Entry.isOperator_of_yieldsTo (hpending e he)
      have hgain : Entry.gain (.operator .negate none) = 0 := rfl
      have hafter : (!(Symbol.operator .minus).precedesOperand).toNat = 0 := rfl
      rw [Accounts, hasOperand_symbol ht, hafter, net_released hops, weight_append, weight,
        hgain]
      omega
  | @operator pending below op ht hop hbefore hpending hbelow =>
      have hops := fun e he => Entry.isOperator_of_yieldsTo (hpending e he)
      refine accounts_symbol next ht Symbol.noConfusion
        (fun hminus => hbefore (Symbol.operator.inj hminus)) ?_
      -- An operator between operands takes one of two values away, and a sign none.
      have hgain : Entry.gain (.operator op t.argc) + 1 =
          ((!(Symbol.operator op).precedesOperand).toNat : Int) := by
        cases op with
        | factorial => exact absurd rfl hop
        | negate | power | times | divide | remainder | plus | minus => rfl
      rw [net_released hops, weight_append, weight, ← hgain]
      omega
  | @factorial pending below ht hpending hbelow =>
      have hops := fun e he => Entry.isOperator_of_isSign (hpending e he)
      have hnet : net [t] = 0 := by
        rw [net, ← token_eq ht]
        rfl
      refine accounts_symbol next ht Symbol.noConfusion
        (fun hminus => Operator.noConfusion (Symbol.operator.inj hminus)) ?_
      rw [net_append, net_released hops, hnet, weight_append]
      change _ + ((1 : Nat) : Int) ≤ _
      omega

/-! ### Whole expressions -/

/-- The account after several tokens: every adjacency and one value more are covered by what has
    been put out, what the stack will add, and the gaps. -/
theorem Tracks.account_run {earlier before : Option Token} {ts out : List Token}
    {stack rest : List Entry} (h : Tracks earlier before ts.head? stack)
    (hrun : run before none ts stack = .ok (out, rest)) :
    weight stack + adjacencies before ts + 1 ≤
      net out + weight rest + gaps before ts + (hasOperand before ts.head?).toNat := by
  induction ts generalizing earlier before stack out with
  | nil =>
      rw [run, Except.ok.injEq, Prod.mk.injEq] at hrun
      rw [← hrun.1, ← hrun.2]
      -- At the end an operand has ended, or one is missing.
      have hend : (startsOperand before).toNat + (hasOperand before none).toNat = 1 := by
        have hnone :
            (before.any fun b => b.kind == .identifier && isNext .opening none) = false := by
          cases before with
          | none => rfl
          | some b => exact Bool.and_false _
        rw [hasOperand, hnone]
        cases startsOperand before <;> rfl
      have hnet : net [] = 0 := rfl
      rw [hnet, adjacencies, gaps, List.head?_nil]
      omega
  | cons t ts ih =>
      rcases run_cons_eq_ok hrun with ⟨first, mid, more, hstep, hrest, rfl⟩
      rw [Option.or_none] at hstep
      have hfirst := h.account_step hstep
      have hmore := ih (h.of_step hstep) hrest
      rw [Accounts] at hfirst
      rw [adjacencies, gaps, net_append, List.head?_cons]
      omega

/-- Tokens that are converted add at least one value, and another for each adjacency that has no
    gap to make up for it. -/
theorem adjacencies_lt_of_ofTokens {ts out : List Token} (h : ofTokens ts = .ok out) :
    (adjacencies none ts : Int) + 1 ≤ net out + gaps none ts := by
  rcases ofTokens_eq_ok h with ⟨first, stack, hrun, hops, rfl⟩
  have haccount := (Tracks.start ts.head?).account_run hrun
  have hstart : (hasOperand none ts.head?).toNat = 0 := rfl
  have hweight : weight [] = 0 := rfl
  rw [net_append, net_released hops]
  omega

end Postfix

namespace Expression

/-- An expression that has a value has as many gaps as it has adjacent operands. So one in which
    two operands are adjacent and no operand is missing has none, in either angle mode and in any
    arithmetic. -/
theorem rejects_adjacent (ar : Arithmetic) (mode : AngleMode) (text : String) :
    (Postfix.gaps none (Token.scan text) < Postfix.adjacencies none (Token.scan text) →
        ∃ f, value ar mode text = .error f) ∧
      (0 < Postfix.adjacencies none (Token.scan text) ↔
        ∃ t next, [t, next] <:+: Token.scan text ∧ Postfix.adjoins t next = true) := by
  refine ⟨fun h => ?_, Postfix.adjacencies_pos_iff _⟩
  cases hvalue : value ar mode text with
  | error f => exact ⟨f, rfl⟩
  | ok x =>
      rcases Outcome.bind_eq_ok hvalue with ⟨ts, hts, hx⟩
      -- The tokens add one value, which leaves none for an adjacency without a gap.
      have hnet := Postfix.net_of_evaluate (Outcome.mapError_eq_ok_iff.mp hx)
      have hbound := Postfix.adjacencies_lt_of_ofTokens hts
      omega

/-- Two operands are adjacent in `2 3+`, and it has a value, in either angle mode: the operand that
    is missing after the operator makes up for the one that is too many. -/
theorem value_adjacentSum :
    (∃ t next, [t, next] <:+: Token.scan "2 3+" ∧ Postfix.adjoins t next = true) ∧
      (value .standard .degrees "2 3+").toOption = some (.ofInt 5) ∧
      (value .standard .radians "2 3+").toOption = some (.ofInt 5) := by
  have hscan : Token.scan "2 3+" = [.number "2", .number "3", .operator "+"] := by
    cbv
  refine ⟨⟨.number "2", .number "3", ?_, rfl⟩, by decide +kernel, by decide +kernel⟩
  rw [hscan]
  exact List.IsPrefix.isInfix ⟨[.operator "+"], rfl⟩

end Expression

end DeskCalc
