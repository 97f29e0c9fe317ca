import DeskCalculator.Stack.Operations

/-!
# Results

A result is a value or a failure. Which of the two it is can be told from the results that it is
made of (`bind_eq_ok_iff`, `map_eq_ok_iff`, `mapError_eq_ok_iff`). `Yields P r`: if `r` is a value and
no failure, then the value has the property `P`; it has a rule for each of these ways to make one
result of others.
-/

namespace DeskCalculator

section Except

variable {ε ε' α β : Type} {r : Except ε α} {b : β}

theorem bind_eq_ok_iff {f : α → Except ε β} : r >>= f = .ok b ↔ ∃ a, r = .ok a ∧ f a = .ok b := by
  constructor
  · intro h
    cases r with
    | error e => cases h
    | ok a => exact ⟨a, rfl, h⟩
  · rintro ⟨a, rfl, h⟩
    exact h

theorem map_eq_ok_iff {f : α → β} : r.map f = .ok b ↔ ∃ a, r = .ok a ∧ f a = b := by
  constructor
  · intro h
    cases r with
    | error e => cases h
    | ok a => exact ⟨a, rfl, Except.ok.inj h⟩
  · rintro ⟨a, rfl, rfl⟩
    rfl

theorem mapError_eq_ok_iff {f : ε → ε'} {a : α} : r.mapError f = .ok a ↔ r = .ok a := by
  constructor
  · intro h
    cases r with
    | error e => cases h
    | ok a => exact congrArg _ (Except.ok.inj h)
  · rintro rfl
    rfl

theorem mapError_eq_error_iff {f : ε → ε'} {e' : ε'} :
    r.mapError f = .error e' ↔ ∃ e, r = .error e ∧ f e = e' := by
  constructor
  · intro h
    cases r with
    | error e => exact ⟨e, rfl, Except.error.inj h⟩
    | ok a => cases h
  · rintro ⟨e, rfl, rfl⟩
    rfl

theorem toOption_bind (r : Except ε α) (f : α → Except ε β) :
    (r >>= f).toOption = r.toOption.bind fun a => (f a).toOption := by
  cases r <;> rfl

theorem eq_ok_of_toOption {a : α} (h : r.toOption = some a) : r = .ok a := by
  cases r with
  | error e => cases h
  | ok b => exact congrArg _ (Option.some.inj h)

theorem exists_error_of_toBool (h : r.toBool = false) : ∃ e, r = .error e := by
  cases r with
  | ok a => cases h
  | error e => exact ⟨e, rfl⟩

end Except

/-- A value of the result, if there is one, has the property. -/
def Yields {ε α : Type} (P : α → Prop) (r : Except ε α) : Prop := ∀ a, r = .ok a → P a

section Yields

variable {ε α β : Type} {P Q : α → Prop}

theorem yields_ok {a : α} (h : P a) : Yields P (.ok a : Except ε α) := by
  rintro _ ⟨⟩
  exact h

theorem yields_error (e : ε) : Yields P (.error e) := nofun

theorem Yields.mono {r : Except ε α} (h : Yields P r) (hPQ : ∀ a, P a → Q a) : Yields Q r :=
  fun a ha => hPQ a (h a ha)

theorem Yields.ite {p : Prop} [Decidable p] {r r' : Except ε α} (h : Yields P r)
    (h' : Yields P r') : Yields P (if p then r else r') := by
  split
  · exact h
  · exact h'

theorem Yields.bind {x : Except ε β} {f : β → Except ε α} (h : Yields (fun b => Yields P (f b)) x) :
    Yields P (x >>= f) := by
  cases x with
  | error e => exact yields_error e
  | ok b => exact h b rfl

theorem Yields.map {x : Except ε β} {f : β → α} (h : Yields (fun b => P (f b)) x) :
    Yields P (x.map f) := by
  cases x with
  | error e => exact yields_error e
  | ok b => exact yields_ok (h b rfl)

theorem yields_true (r : Except ε α) : Yields (fun _ => True) r := fun _ _ => trivial

end Yields

theorem Operations.named_eq_ok_iff {what : Except Fault Text} {r : Except ArithmeticFault Value}
    {v : Value} : named what r = .ok v ↔ r = .ok v := by
  cases r with
  | ok w => simp [named]
  | error cause => cases what <;> simp [named]

end DeskCalculator
