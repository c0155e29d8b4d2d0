/-!
# Outcomes of Steps That May Fail

Conversion and evaluation are sequences of steps each of which may fail. A sequence succeeds only
if all its steps do, so a successful one can be taken apart into the successes it was made of. And
it fails only in ways in which one of its steps does, so what is known of the failures of the
steps is known of its failures.

## Main definitions

* `Outcome.carry`: An outcome with its failure and its result translated.
* `Outcome.FailsOnly`: An outcome whose failure, if it is one, has a property.

## Theorems

* `Outcome.bind_eq_ok`, `Outcome.map_eq_ok`: A success, taken apart.
* `Outcome.mapError_eq_ok_iff`, `Outcome.toOption_eq_some_iff`: A success, seen through what only
  changes failures.
* `Outcome.carry_bind`: A sequence of translated steps is the translated sequence.
* `Outcome.carry_bind_congr`: Sequences come to the same translation if their steps do.
* `Outcome.FailsOnly.bind`: A sequence fails as its steps do.
-/

namespace DeskCalc

namespace Outcome

variable {ε α β : Type}

/-- A sequence that succeeds is a step that succeeds and a continuation that does. -/
theorem bind_eq_ok {r : Except ε α} {k : α → Except ε β} {y : β} (h : r >>= k = .ok y) :
    ∃ x, r = .ok x ∧ k x = .ok y := by
  cases r with
  | error e => exact absurd h (by simp only [bind, Except.bind, reduceCtorEq, not_false_eq_true])
  | ok x => exact ⟨x, rfl, h⟩

theorem map_eq_ok {r : Except ε α} {f : α → β} {y : β} (h : r.map f = .ok y) :
    ∃ x, r = .ok x ∧ f x = y := by
  cases r with
  | error e => exact absurd h (by simp only [Except.map, reduceCtorEq, not_false_eq_true])
  | ok x =>
      rw [Except.map, Except.ok.injEq] at h
      exact ⟨x, rfl, h⟩

/-- To translate failures does not touch successes. -/
theorem mapError_eq_ok_iff {δ : Type} {r : Except ε α} {f : ε → δ} {x : α} :
    r.mapError f = .ok x ↔ r = .ok x := by
  cases r with
  | error e =>
      change Except.error (f e) = Except.ok x ↔ Except.error e = Except.ok x
      simp only [reduceCtorEq]
  | ok y =>
      change Except.ok y = Except.ok x ↔ Except.ok y = Except.ok x
      rw [Except.ok.injEq, Except.ok.injEq]

theorem toOption_eq_some_iff {r : Except ε α} {x : α} : r.toOption = some x ↔ r = .ok x := by
  cases r with
  | error e => simp only [Except.toOption, reduceCtorEq]
  | ok y => simp only [Except.toOption, Option.some.injEq, Except.ok.injEq]

/-- An outcome with its failure and its result translated. -/
def carry {δ : Type} (f : ε → δ) (g : α → β) : Except ε α → Except δ β
  | .error e => .error (f e)
  | .ok x => .ok (g x)

theorem carry_bind {δ α' β' : Type} {f : ε → δ} {g : α → α'} {g' : β → β'} {r : Except ε α}
    {k : α → Except ε β} {k' : α' → Except δ β'} (h : ∀ x, k' (g x) = carry f g' (k x)) :
    carry f g r >>= k' = carry f g' (r >>= k) := by
  cases r with
  | error e => rfl
  | ok x => exact h x

/-- Sequences come to the same translation if their steps do. -/
theorem carry_bind_congr {δ α' β' : Type} {f : ε → δ} {g : α → α'} {g' : β → β'}
    {r r' : Except ε α} {k k' : α → Except ε β} (hr : carry f g r = carry f g r')
    (hk : ∀ x x', g x = g x' → carry f g' (k x) = carry f g' (k' x')) :
    carry f g' (r >>= k) = carry f g' (r' >>= k') := by
  cases r with
  | error e =>
      cases r' with
      | error e' => exact congrArg Except.error (Except.error.inj hr)
      | ok x' => simp only [carry, reduceCtorEq] at hr
  | ok x =>
      cases r' with
      | error e' => simp only [carry, reduceCtorEq] at hr
      | ok x' => exact hk x x' (Except.ok.inj hr)

/-- An outcome whose failure, if it is one, has the property. -/
def FailsOnly (P : ε → Prop) (r : Except ε α) : Prop :=
  ∀ e, r = .error e → P e

namespace FailsOnly

variable {P : ε → Prop}

theorem ok (x : α) : FailsOnly P (.ok x : Except ε α) := by
  intro e h
  simp only [reduceCtorEq] at h

theorem error {e : ε} (he : P e) : FailsOnly P (.error e : Except ε α) := by
  intro d h
  rw [Except.error.injEq] at h
  rwa [← h]

theorem mono {Q : ε → Prop} {r : Except ε α} (hr : FailsOnly P r) (h : ∀ e, P e → Q e) :
    FailsOnly Q r :=
  fun e he => h e (hr e he)

/-- A sequence fails as its steps do. The second step need only be looked at where the first
    succeeds. -/
theorem bind {r : Except ε α} {k : α → Except ε β} (hr : FailsOnly P r)
    (hk : ∀ x, r = .ok x → FailsOnly P (k x)) : FailsOnly P (r >>= k) := by
  cases r with
  | error e => exact error (hr e rfl)
  | ok x => exact hk x rfl

theorem map {r : Except ε α} (f : α → β) (hr : FailsOnly P r) : FailsOnly P (r.map f) := by
  cases r with
  | error e => exact error (hr e rfl)
  | ok x => exact ok (f x)

theorem mapError {δ : Type} {Q : δ → Prop} {r : Except ε α} {f : ε → δ}
    (hr : FailsOnly (fun e => Q (f e)) r) : FailsOnly Q (r.mapError f) := by
  cases r with
  | error e => exact error (hr e rfl)
  | ok x => exact ok x

end FailsOnly

end Outcome

end DeskCalc
