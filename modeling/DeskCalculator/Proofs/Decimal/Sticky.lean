import DeskCalculator.Proofs.Decimal.Rounding

/-!
# A coefficient in place of a number

An exact result that has no last digit, or one far below what a context can see, comes to its
rounding as a whole number that is less than a unit away and no multiple of five (`Context.Sticks`).
All numbers where rounding changes its mind, and the powers of ten where the unit changes, are
multiples of five in these units, so that the whole number lies on the same side of each of them as
the result. It has the same leading exponent (`Sticks.bounds`) and overflows where the result does
(`Sticks.lt_overflowBound_iff`).

`Context.Rounds x d` says that the context makes `d` of the exact result `x` in this way. It is
finite when `x` is below the bound of the context (`Rounds.isFinite_iff`).
-/

namespace DeskCalculator.Context

open Decimal

variable {ctx : Context} {n : Nat} {e j : Int} {x : ℚ}

/-- A coefficient that is rounded in place of a number: the number itself, or, with more digits than
the precision, less than a unit away and no multiple of five. -/
def Sticks (ctx : Context) (n : Nat) (x : ℚ) : Prop :=
  (n : ℚ) = x ∨ ctx.precision < Numeral.digitCount n ∧ ¬ 5 ∣ n ∧ |(n : ℚ) - x| < 1

theorem sticks_self (ctx : Context) (n : Nat) : ctx.Sticks n n := .inl rfl

theorem Sticks.le_iff (h : ctx.Sticks n x) {b : Nat} (hb : 5 ∣ b) : (b : ℚ) ≤ x ↔ b ≤ n := by
  rcases h with rfl | ⟨-, hn, habs⟩
  · exact Nat.cast_le
  · obtain ⟨hlt, hgt⟩ := abs_lt.1 habs
    constructor
    · intro h
      have : (b : ℚ) < n + 1 := by linarith
      norm_cast at this
      omega
    · intro h
      have : b + 1 ≤ n := by
        by_contra hnot
        exact hn ((show b = n by omega) ▸ hb)
      have : (b : ℚ) + 1 ≤ n := by exact_mod_cast this
      linarith

theorem Sticks.ge_iff (h : ctx.Sticks n x) {b : Nat} (hb : 5 ∣ b) : x ≤ b ↔ n ≤ b := by
  rcases h with rfl | ⟨-, hn, habs⟩
  · exact Nat.cast_le
  · obtain ⟨hlt, hgt⟩ := abs_lt.1 habs
    constructor
    · intro h
      have : (n : ℚ) < b + 1 := by linarith
      norm_cast at this
      omega
    · intro h
      have : n + 1 ≤ b := by
        by_contra hnot
        exact hn ((show b = n by omega) ▸ hb)
      have : (n : ℚ) + 1 ≤ b := by exact_mod_cast this
      linarith

theorem Sticks.nonneg (h : ctx.Sticks n x) : 0 ≤ x := by
  exact_mod_cast (h.le_iff (dvd_zero 5)).2 (Nat.zero_le n)

theorem Sticks.eq_zero_iff (h : ctx.Sticks n x) : n = 0 ↔ x = 0 := by
  have hiff := h.ge_iff (dvd_zero 5)
  rw [Nat.cast_zero, Nat.le_zero] at hiff
  exact ⟨fun hn => le_antisymm (hiff.2 hn) h.nonneg, fun hx => hiff.1 hx.le⟩

/-! ## The leading exponent -/

theorem Sticks.zpow_le_iff (h : ctx.Sticks n x) (hn : n ≠ 0) :
    10 ^ j ≤ x * 10 ^ e → 10 ^ j ≤ scaled n e := by
  intro hle
  by_cases hj : j ≤ e
  · have hone : scaled 1 e ≤ scaled n e := scaled_le_scaled_iff.2 (Nat.pos_of_ne_zero hn)
    rw [scaled_one] at hone
    exact (zpow_le_zpow_right₀ (by norm_num) hj).trans hone
  · obtain ⟨k, rfl⟩ : ∃ k : Nat, j = e + (k + 1 : Nat) := ⟨(j - e - 1).toNat, by omega⟩
    have hfive : 5 ∣ 10 ^ (k + 1) := Dvd.dvd.pow (by decide) (by omega)
    rw [zpow_add₀ (by norm_num), zpow_natCast, mul_comm, mul_le_mul_iff_left₀ (ten_zpow_pos e)]
      at hle
    have hnat := (h.le_iff hfive).1 (by exact_mod_cast hle)
    rw [← scaled_one, ← scaled_mul_pow, Nat.one_mul]
    exact scaled_le_scaled_iff.2 hnat

theorem Sticks.bounds (h : ctx.Sticks n x) (hpos : 0 < ctx.precision) (hn : n ≠ 0) (e : Int) :
    10 ^ leadingExponent n e ≤ x * 10 ^ e ∧ x * 10 ^ e < 10 ^ (leadingExponent n e + 1) := by
  have hsplit (i : Nat) : (10 : ℚ) ^ (e + i) = (10 ^ i : Nat) * 10 ^ e := by
    rw [zpow_add₀ (by norm_num), zpow_natCast, mul_comm]
    push_cast
    rfl
  rcases h with rfl | ⟨hdigits, hfive, habs⟩
  · exact ⟨zpow_leadingExponent_le hn e, scaled_lt_zpow n e⟩
  · have h : ctx.Sticks n x := .inr ⟨hdigits, hfive, habs⟩
    obtain ⟨i, hi⟩ : ∃ i, Numeral.digitCount n = i + 1 := ⟨Numeral.digitCount n - 1, by omega⟩
    have hle := (h.le_iff (Dvd.dvd.pow (by decide) (by omega) : 5 ∣ 10 ^ i)).2 <| by
      have := Numeral.pow_pred_digitCount_le hn
      rwa [hi, Nat.add_sub_cancel] at this
    have hlt : x < (10 ^ (i + 1) : Nat) := by
      rw [← not_le, h.le_iff (Dvd.dvd.pow (by decide) (by omega) : 5 ∣ 10 ^ (i + 1)), not_le, ← hi]
      exact Numeral.lt_pow_digitCount n
    rw [show leadingExponent n e = e + i by unfold leadingExponent; omega,
      show e + i + 1 = e + (i + 1 : Nat) by omega, hsplit, hsplit]
    exact ⟨mul_le_mul_of_nonneg_right hle (ten_zpow_pos e).le,
      mul_lt_mul_of_pos_right hlt (ten_zpow_pos e)⟩

/-! ## Overflow -/

theorem overflowBound_eq {u : Int} (hu : u ≤ ctx.maxExponent - ctx.precision) :
    ∃ b : Nat, 5 ∣ b ∧ ctx.overflowBound = b * 10 ^ u := by
  have hfive : 5 ∣ 10 ^ (ctx.precision + 1) - 5 :=
    Nat.dvd_sub (Dvd.dvd.pow (by decide) (by omega)) (Nat.dvd_refl 5)
  refine ⟨(10 ^ (ctx.precision + 1) - 5) * 10 ^ (ctx.maxExponent - ctx.precision - u).toNat,
    hfive.mul_right _, ?_⟩
  have hscaled := scaled_mul_pow (10 ^ (ctx.precision + 1) - 5)
    (ctx.maxExponent - ctx.precision - u).toNat u
  rw [show u + ((ctx.maxExponent - ctx.precision - u).toNat : Int) =
    ctx.maxExponent - ctx.precision by omega] at hscaled
  rw [overflowBound, ← hscaled, scaled]

theorem Sticks.lt_overflowBound_iff (h : ctx.Sticks n x) (hpos : 0 < ctx.precision) :
    x * 10 ^ e < ctx.overflowBound ↔ scaled n e < ctx.overflowBound := by
  by_cases he : e ≤ ctx.maxExponent - ctx.precision
  · obtain ⟨b, hb, hbound⟩ := overflowBound_eq he
    rw [hbound, scaled, mul_lt_mul_iff_left₀ (ten_zpow_pos e),
      mul_lt_mul_iff_left₀ (ten_zpow_pos e),
      ← not_le, h.le_iff hb, not_le, Nat.cast_lt]
  · rcases h with rfl | ⟨hdigits, hfive, habs⟩
    · rfl
    · -- both are far above the bound
      have h : ctx.Sticks n x := .inr ⟨hdigits, hfive, habs⟩
      have hn : n ≠ 0 := fun hn => hfive (hn ▸ dvd_zero 5)
      have hmax : ctx.maxExponent + 1 ≤ leadingExponent n e := by
        unfold leadingExponent
        omega
      have hbound := ctx.overflowBound_le.trans (zpow_le_zpow_right₀ (by norm_num) hmax)
      exact iff_of_false (not_lt.2 (hbound.trans (h.bounds hpos hn e).1))
        (not_lt.2 (hbound.trans (zpow_leadingExponent_le hn e)))

/-! ## Exact results -/

/-- The context makes a decimal of an exact result by rounding a coefficient that sticks to it. -/
def Rounds (ctx : Context) (x : ℚ) (d : Decimal) : Prop :=
  ∃ s n y e, d = ctx.round s n e ∧ ctx.Sticks n y ∧ x = if s then -(y * 10 ^ e) else y * 10 ^ e

theorem rounds_round (ctx : Context) (s : Bool) (n : Nat) (e : Int) :
    ctx.Rounds (if s then -scaled n e else scaled n e) (ctx.round s n e) :=
  ⟨s, n, n, e, rfl, ctx.sticks_self n, rfl⟩

theorem overflowBound_pos (ctx : Context) : 0 < ctx.overflowBound :=
  lt_of_lt_of_le (ten_zpow_pos _) ctx.le_overflowBound

/-- **Overflow** happens where the exact result has reached the bound. -/
theorem Rounds.isFinite_iff {d : Decimal} (h : ctx.Rounds x d) (hctx : ctx.IsWide) :
    d.isFinite ↔ |x| < ctx.overflowBound := by
  obtain ⟨s, n, y, e, rfl, hy, rfl⟩ := h
  rw [abs_ite_neg s (mul_nonneg hy.nonneg (ten_zpow_pos e).le)]
  by_cases hn : n = 0
  · rw [hy.eq_zero_iff.1 hn, zero_mul, hn, round, if_pos rfl]
    exact iff_of_true rfl ctx.overflowBound_pos
  · rw [isFinite_round_iff hctx hn, hy.lt_overflowBound_iff hctx.precision_pos]

end DeskCalculator.Context
