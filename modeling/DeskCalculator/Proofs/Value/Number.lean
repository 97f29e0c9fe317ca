import DeskCalculator.Proofs.Decimal.Whole
import DeskCalculator.Value.Basic

/-!
# What a value stands for

`Value.toRat?` is the number that a finite value stands for, whatever its kind, its trailing zeros
and its sign of zero. `Value.StandsFor v n` says that `v` is the exact integer `n` or a decimal with
exponent zero and this value.
-/

namespace DeskCalculator

namespace Decimal

def toRat? : Decimal → Option ℚ
  | finite s c e => some (if s then -scaled c e else scaled c e)
  | _ => none

theorem StandsFor.toRat? {d : Decimal} {n : Int} (h : d.StandsFor n) : d.toRat? = some (n : ℚ) := by
  obtain ⟨s, c, rfl, rfl⟩ := h
  cases s <;> simp [Decimal.toRat?, scaled, signed]

theorem isSome_toRat? (d : Decimal) : d.toRat?.isSome = d.isFinite := by cases d <;> rfl

theorem toRat?_eq_none_iff {d : Decimal} : d.toRat? = none ↔ d.isFinite = false := by
  rw [← isSome_toRat?, ← Option.not_isSome_iff_eq_none, Bool.not_eq_true]

end Decimal

namespace Value

def toRat? : Value → Option ℚ
  | exact n => some n
  | decimal d => d.toRat?

/-- The exact integer, or a decimal with exponent zero and its value. -/
def StandsFor : Value → Int → Prop
  | exact m, n => m = n
  | decimal d, n => d.StandsFor n

theorem standsFor_exact (n : Int) : (exact n).StandsFor n := rfl

theorem standsFor_ofInt (n : Int) : (decimal (Decimal.ofInt n)).StandsFor n :=
  Decimal.standsFor_ofInt n

variable {v : Value} {n : Int}

theorem StandsFor.toRat? (h : v.StandsFor n) : v.toRat? = some (n : ℚ) := by
  cases v with
  | exact m =>
    cases h
    rfl
  | decimal d => exact Decimal.StandsFor.toRat? h

theorem StandsFor.toInt (h : v.StandsFor n) : v.toInt = n := by
  cases v with
  | exact m => exact h
  | decimal d => exact Decimal.StandsFor.toInt h

theorem StandsFor.isIntegral (h : v.StandsFor n) : v.isIntegral := by
  cases v with
  | exact m => rfl
  | decimal d => exact Decimal.StandsFor.isIntegral h

theorem StandsFor.isFinite (h : v.StandsFor n) : v.isFinite := by
  cases v with
  | exact m => rfl
  | decimal d => exact Decimal.StandsFor.isFinite h

theorem StandsFor.toDecimal (h : v.StandsFor n) : v.toDecimal.StandsFor n := by
  cases v with
  | exact m =>
    cases h
    exact Decimal.standsFor_ofInt _
  | decimal d => exact h

theorem toRat?_toDecimal (v : Value) : v.toDecimal.toRat? = v.toRat? := by
  cases v with
  | exact n => exact (Decimal.standsFor_ofInt n).toRat?
  | decimal d => rfl

theorem exists_toRat? (h : v.isFinite) : ∃ x, v.toRat? = some x := by
  cases v with
  | exact n => exact ⟨n, rfl⟩
  | decimal d => exact Option.isSome_iff_exists.1 (d.isSome_toRat?.trans h)

end Value

end DeskCalculator
