import DeskCalculator.Proofs.Decimal.Sticky
import DeskCalculator.Proofs.Value.Number
import Mathlib.Tactic.Ring

/-!
# Sums are rounded once

The context makes a sum of finite decimals of the exact sum (`rounds_add`), so that it overflows
when this has reached the bound of the context (`isFinite_add_iff`). There is one thing to see to:
far from the first operand the second one is replaced by a single unit below the last place that
rounding can see. The first operand is a multiple of ten of these units, so that the sum with the
unit sticks to the sum with the fraction that it stands for (`rounds_sticky`).
-/

namespace DeskCalculator

open Decimal

theorem Decimal.toRat?_finite (s : Bool) (c : Nat) (e : Int) :
    (finite s c e).toRat? = some ((signed s c : ℚ) * 10 ^ e) := by
  cases s <;> simp [toRat?, scaled, signed]

namespace Context

variable {ctx : Context} {s t : Bool} {c d : Nat} {e f : Int}

/-! ## Coefficients of one exponent -/

theorem exists_addAligned_eq_round (ctx : Context) (s : Bool) (c : Nat) (t : Bool) (d : Nat)
    (e : Int) : ∃ r n, ctx.addAligned s c t d e = ctx.round r n e ∧
      signed r n = signed s c + signed t d := by
  unfold addAligned
  split
  · rename_i hst
    subst hst
    exact ⟨s, c + d, rfl, by cases s <;> simp [signed]; omega⟩
  · rename_i hst
    have ht : t = !s := by cases s <;> cases t <;> simp_all
    subst ht
    split
    · exact ⟨s, c - d, rfl, by cases s <;> simp [signed] <;> omega⟩
    · split
      · exact ⟨!s, d - c, rfl, by cases s <;> simp [signed] <;> omega⟩
      · exact ⟨false, 0, rfl, by cases s <;> simp [signed] <;> omega⟩

theorem rounds_addAligned (ctx : Context) (s : Bool) (c : Nat) (t : Bool) (d : Nat) (e : Int) :
    ctx.Rounds ((signed s c : ℚ) * 10 ^ e + signed t d * 10 ^ e) (ctx.addAligned s c t d e) := by
  obtain ⟨r, n, hr, hsum⟩ := ctx.exists_addAligned_eq_round s c t d e
  refine ⟨r, n, n, e, hr, ctx.sticks_self n, ?_⟩
  rw [← add_mul, ← Int.cast_add, ← hsum]
  cases r <;> simp [signed]

/-- **A unit in place of a fraction of a unit** sticks to the sum. -/
theorem rounds_sticky (hpos : 0 < ctx.precision) (hdvd : 10 ∣ c)
    (hc : 10 ^ (ctx.precision + 1) ≤ c) {x : ℚ} (hx : 0 < x) (hx1 : x < 1) (s t : Bool) (u : Int) :
    ctx.Rounds (((signed s c : ℚ) + if t then -x else x) * 10 ^ u)
      (ctx.addAligned s c t 1 u) := by
  obtain ⟨r, n, hr, hsum⟩ := ctx.exists_addAligned_eq_round s c t 1 u
  generalize hy : (signed s c : ℚ) + (if t then -x else x) = y
  refine ⟨r, n, if r then -y else y, u, hr, .inr ⟨?_, ?_, ?_⟩, by cases r <;> simp⟩
  · -- a unit less than a number with two digits more
    have hpow : 1 ≤ 10 ^ ctx.precision := Nat.one_le_pow _ _ (by decide)
    rw [Nat.pow_succ] at hc
    rw [Numeral.lt_digitCount_iff hpos]
    cases r <;> cases s <;> cases t <;> simp [signed] at hsum <;> omega
  · cases r <;> cases s <;> cases t <;> simp [signed] at hsum <;> omega
  · have hsumQ : (signed r n : ℚ) = signed s c + signed t 1 := by exact_mod_cast hsum
    rw [abs_lt]
    cases r <;> cases t <;> simp [signed] at hsumQ hy ⊢ <;> constructor <;> linarith

/-! ## Sums -/

theorem signed_mul_pow (s : Bool) (c k : Nat) (e : Int) :
    (signed s (c * 10 ^ k) : ℚ) * 10 ^ e = signed s c * 10 ^ (e + k) := by
  rw [zpow_add₀ (by norm_num), zpow_natCast]
  cases s <;> simp [signed] <;> ring

theorem signed_mul_zpow (t : Bool) (d : Nat) (f u : Int) :
    (signed t d : ℚ) * 10 ^ f =
      (if t then -(scaled d f / 10 ^ u) else scaled d f / 10 ^ u) * 10 ^ u := by
  have hu := (ten_zpow_pos u).ne'
  cases t <;> simp [signed, scaled, hu]

theorem rounds_addOrdered (hpos : 0 < ctx.precision) (hle : f ≤ e) :
    ctx.Rounds ((signed s c : ℚ) * 10 ^ e + signed t d * 10 ^ f)
      (ctx.addOrdered s c e t d f) := by
  unfold addOrdered
  by_cases hc : c = 0
  · rw [if_pos hc, hc]
    have hrounds := ctx.rounds_addAligned s 0 t d f
    rwa [show (signed s 0 : ℚ) * 10 ^ f = signed s 0 * 10 ^ e by simp [signed]] at hrounds
  rw [if_neg hc]
  have hdigits := Numeral.pow_pred_digitCount_le hc
  have hfirst := Numeral.digitCount_pos c
  generalize hunseen : e - 1 + (if ctx.precision < Numeral.digitCount c then 0
    else (Numeral.digitCount c : Int) - ctx.precision - 1) = u
  have hue : u < e := by
    rw [← hunseen]
    split <;> omega
  have hshift : (signed s c : ℚ) * 10 ^ e = signed s (c * 10 ^ (e - u).toNat) * 10 ^ u := by
    rw [signed_mul_pow]
    congr 2
    omega
  simp only [Nat.pow_eq, hunseen]
  by_cases hfar : leadingExponent d f < u
  · rw [if_pos hfar]
    by_cases hd : d = 0
    · have hrounds := ctx.rounds_addAligned s (c * 10 ^ (e - u).toNat) t 0 u
      rw [← hshift] at hrounds
      rw [if_pos hd, hd]
      rwa [show (signed t 0 : ℚ) * 10 ^ u = signed t 0 * 10 ^ f by simp [signed]] at hrounds
    -- the second operand is a fraction of the unit that stands for it
    have hx : 0 < scaled d f / 10 ^ u := div_pos (scaled_pos hd f) (ten_zpow_pos u)
    have hx1 : scaled d f / 10 ^ u < 1 := by
      rw [div_lt_one (ten_zpow_pos u)]
      exact (scaled_lt_zpow d f).trans_le (zpow_le_zpow_right₀ (by norm_num) (by omega))
    have hlong : 10 ^ (ctx.precision + 1) ≤ c * 10 ^ (e - u).toNat := by
      refine le_trans (Nat.pow_le_pow_right (by decide) ?_)
        ((Nat.pow_add ..).trans_le (Nat.mul_le_mul_right _ hdigits))
      rw [← hunseen]
      split <;> omega
    have hten : 10 ∣ c * 10 ^ (e - u).toNat :=
      (Dvd.dvd.pow (Nat.dvd_refl 10) (by omega)).mul_left c
    rw [if_neg hd, hshift, signed_mul_zpow t d f u, ← add_mul]
    exact rounds_sticky hpos hten hlong hx hx1 s t u
  · have hrounds := ctx.rounds_addAligned s (c * 10 ^ (e - f).toNat) t d f
    rw [signed_mul_pow, show f + ((e - f).toNat : Int) = e by omega] at hrounds
    rwa [if_neg hfar]

theorem rounds_addFinite (hpos : 0 < ctx.precision) :
    ctx.Rounds ((signed s c : ℚ) * 10 ^ e + signed t d * 10 ^ f) (ctx.addFinite s c e t d f) := by
  unfold addFinite
  split
  · exact rounds_addOrdered hpos ‹_›
  · rw [add_comm]
    exact rounds_addOrdered hpos (by omega)

variable {a b : Decimal} {x y : ℚ}

/-- **A sum** of finite decimals is the exact one, rounded once. -/
theorem rounds_add (hpos : 0 < ctx.precision) (ha : a.toRat? = some x) (hb : b.toRat? = some y) :
    ctx.Rounds (x + y) (ctx.add a b) := by
  cases a with
  | finite s c e =>
    cases b with
    | finite t d f =>
      rw [toRat?_finite, Option.some.injEq] at ha hb
      rw [← ha, ← hb]
      exact rounds_addFinite hpos
    | _ => cases hb
  | _ => cases ha

/-- **A difference** of finite decimals is the exact one, rounded once. -/
theorem rounds_sub (hpos : 0 < ctx.precision) (ha : a.toRat? = some x) (hb : b.toRat? = some y) :
    ctx.Rounds (x - y) (ctx.sub a b) := by
  cases a with
  | finite s c e =>
    cases b with
    | finite t d f =>
      rw [toRat?_finite, Option.some.injEq] at ha hb
      have hneg : (signed (!t) d : ℚ) * 10 ^ f = -y := by
        rw [signed_not, ← hb]
        push_cast
        ring
      rw [← ha, sub_eq_add_neg, ← hneg]
      exact rounds_addFinite hpos
    | _ => cases hb
  | _ => cases ha

theorem isFinite_add_iff (hctx : ctx.IsWide) (ha : a.toRat? = some x) (hb : b.toRat? = some y) :
    (ctx.add a b).isFinite ↔ |x + y| < ctx.overflowBound :=
  (rounds_add hctx.precision_pos ha hb).isFinite_iff hctx

theorem isFinite_sub_iff (hctx : ctx.IsWide) (ha : a.toRat? = some x) (hb : b.toRat? = some y) :
    (ctx.sub a b).isFinite ↔ |x - y| < ctx.overflowBound :=
  (rounds_sub hctx.precision_pos ha hb).isFinite_iff hctx

end Context

end DeskCalculator
