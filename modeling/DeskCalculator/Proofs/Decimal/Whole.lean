import DeskCalculator.Decimal.Arithmetic
import DeskCalculator.Desk
import DeskCalculator.Proofs.Decimal.Rounding

/-!
# Decimals that are integers

A decimal with exponent zero stands for an integer (`Decimal.StandsFor`); zero may have either sign.
Between such decimals of at most as many digits as the precision, sums, differences, products and
exact quotients are not rounded and have exponent zero again.
-/

namespace DeskCalculator

/-! ## Integers as decimals -/

namespace Decimal

def signed (s : Bool) (c : Nat) : Int := if s then -(c : Int) else c

@[simp] theorem natAbs_signed (s : Bool) (c : Nat) : (signed s c).natAbs = c := by
  cases s <;> simp [signed]

theorem signed_mul (s t : Bool) (c d : Nat) :
    signed (s != t) (c * d) = signed s c * signed t d := by
  cases s <;> cases t <;> simp [signed]

theorem signed_not (s : Bool) (c : Nat) : signed (!s) c = -signed s c := by
  cases s <;> simp [signed]

theorem signed_and_ne (s : Bool) (c : Nat) : signed (s && c != 0) c = signed s c := by
  by_cases hc : c = 0 <;> cases s <;> simp [signed, hc]

/-- A decimal with exponent zero and the value of an integer. -/
def StandsFor (d : Decimal) (n : Int) : Prop := ∃ s c, d = finite s c 0 ∧ signed s c = n

theorem standsFor_finite (s : Bool) (c : Nat) : (finite s c 0).StandsFor (signed s c) :=
  ⟨s, c, rfl, rfl⟩

theorem standsFor_ofInt (n : Int) : (ofInt n).StandsFor n := by
  refine ⟨n < 0, n.natAbs, rfl, ?_⟩
  simp only [signed, decide_eq_true_eq]
  split <;> omega

theorem StandsFor.toInt {d : Decimal} {n : Int} (h : d.StandsFor n) : d.toInt = n := by
  obtain ⟨s, c, rfl, rfl⟩ := h
  simp [Decimal.toInt, signed]

theorem StandsFor.isIntegral {d : Decimal} {n : Int} (h : d.StandsFor n) : d.isIntegral := by
  obtain ⟨s, c, rfl, -⟩ := h
  simp [Decimal.isIntegral, isWhole]

theorem StandsFor.isFinite {d : Decimal} {n : Int} (h : d.StandsFor n) : d.isFinite := by
  obtain ⟨s, c, rfl, -⟩ := h
  rfl

end Decimal

/-! ## Arithmetic without rounding -/

namespace Context

open Decimal

/-- A context with a digit at least, and with room for the integers that fit its precision. -/
structure HoldsIntegers (ctx : Context) : Prop where
  precision_pos : 0 < ctx.precision
  tiny_le : ctx.tiny ≤ 0
  precision_le : (ctx.precision : Int) ≤ ctx.maxExponent

variable {ctx : Context} (hctx : ctx.HoldsIntegers) {s t : Bool} {c d : Nat} {m n : Int}
include hctx

theorem digitCount_le (h : c < 10 ^ ctx.precision) : Numeral.digitCount c ≤ ctx.precision := by
  have : ¬ ctx.precision < Numeral.digitCount c := by
    rw [Numeral.lt_digitCount_iff hctx.precision_pos]
    omega
  omega

theorem round_of_lt_pow (h : c < 10 ^ ctx.precision) (s : Bool) :
    ctx.round s c 0 = finite s c 0 := by
  have htiny := hctx.tiny_le
  have hmax := hctx.precision_le
  by_cases hc : c = 0
  · subst hc
    have hexponent : max ctx.tiny (min 0 ctx.maxExponent) = 0 := by omega
    rw [round, if_pos rfl, hexponent]
  · have hdigits := digitCount_le hctx h
    refine round_of_le hc ?_ ?_
    · unfold leadingExponent
      omega
    · unfold lastExponent
      omega

theorem plus_of_lt_pow (h : c < 10 ^ ctx.precision) :
    ctx.plus (finite s c 0) = finite (s && c != 0) c 0 := round_of_lt_pow hctx h _

theorem mul_of_lt_pow (h : c * d < 10 ^ ctx.precision) :
    ctx.mul (finite s c 0) (finite t d 0) = finite (s != t) (c * d) 0 := round_of_lt_pow hctx h _

omit hctx in
theorem trailingZeros_mul_pow (c k : Nat) : Numeral.trailingZeros (c * 10 ^ k) k = k := by
  induction k with
  | zero => rfl
  | succ k ih =>
    rw [Numeral.trailingZeros, Nat.pow_succ, ← Nat.mul_assoc, Nat.mul_mod_left, if_pos rfl,
      Nat.mul_div_cancel _ (by decide), ih]

theorem div_of_lt_pow (hd : d ≠ 0) (h : c * d < 10 ^ ctx.precision) :
    ctx.div (finite s (c * d) 0) (finite t d 0) = finite (s != t) c 0 := by
  have hd : 0 < d := Nat.pos_of_ne_zero hd
  have hc : c < 10 ^ ctx.precision := Nat.lt_of_le_of_lt (Nat.le_mul_of_pos_right c hd) h
  have hdigits := digitCount_le hctx h
  have hpos := Numeral.digitCount_pos d
  by_cases hzero : c = 0
  · subst hzero
    simp only [div, Nat.zero_mul, Nat.ne_of_gt hd, if_false, if_true, Int.sub_self]
    exact round_of_lt_pow hctx (Nat.pow_pos (by decide)) _
  · have hcd : c * d ≠ 0 := Nat.mul_ne_zero hzero (Nat.ne_of_gt hd)
    simp only [div, Nat.ne_of_gt hd, hcd, if_false, divFinite]
    -- the dividend is scaled up, and the zeros that this adds are taken off the quotient again
    obtain ⟨k, hk⟩ : ∃ k : Nat, (Numeral.digitCount d : Int) - Numeral.digitCount (c * d) +
        ctx.precision + 1 = k := ⟨_, (Int.toNat_of_nonneg (by omega)).symm⟩
    have hquotient : c * d * 10 ^ k = d * (c * 10 ^ k) := by ac_rfl
    simp only [hk, Int.toNat_natCast, Int.toNat_neg_natCast, Nat.pow_eq, Nat.pow_zero, Nat.mul_one,
      hquotient, Nat.mul_mod_right, if_true, Nat.mul_div_cancel_left _ hd, trailingZeros_mul_pow]
    rw [Nat.mul_div_cancel _ (Nat.pow_pos (by decide)), show (0 : Int) - 0 - k + k = 0 by omega]
    exact round_of_lt_pow hctx hc _

theorem addAligned_of_lt_pow (h : (signed s c + signed t d).natAbs < 10 ^ ctx.precision) :
    (ctx.addAligned s c t d 0).StandsFor (signed s c + signed t d) := by
  have hround : ∀ (u : Bool) (e : Nat), signed u e = signed s c + signed t d →
      (ctx.round u e 0).StandsFor (signed s c + signed t d) := by
    intro u e he
    rw [← he, natAbs_signed] at h
    rw [round_of_lt_pow hctx h, ← he]
    exact standsFor_finite u e
  unfold addAligned
  split
  · rename_i hst
    subst hst
    refine hround _ _ ?_
    cases s <;> simp [signed]
    omega
  · rename_i hst
    have ht : t = !s := by cases s <;> cases t <;> simp_all
    subst ht
    split
    · refine hround _ _ ?_
      cases s <;> simp [signed] <;> omega
    · split
      · refine hround _ _ ?_
        cases s <;> simp [signed] <;> omega
      · refine hround _ _ ?_
        cases s <;> simp [signed] <;> omega

theorem addFinite_of_lt_pow (hc : c < 10 ^ ctx.precision)
    (h : (signed s c + signed t d).natAbs < 10 ^ ctx.precision) :
    (ctx.addFinite s c 0 t d 0).StandsFor (signed s c + signed t d) := by
  have hsum := addAligned_of_lt_pow hctx h
  rw [addFinite, if_pos (Int.le_refl 0), addOrdered]
  split
  · rename_i hzero
    subst hzero
    exact hsum
  · have hdigits := digitCount_le hctx hc
    have hpos := Numeral.digitCount_pos d
    -- all digits of the second operand can be seen
    have hseen : ¬ leadingExponent d 0 < (0 : Int) - 1 + (if ctx.precision < Numeral.digitCount c
        then 0 else (Numeral.digitCount c : Int) - ctx.precision - 1) := by
      unfold leadingExponent
      split <;> omega
    simp only [hseen, if_false]
    simpa using hsum

variable {a b : Decimal}

theorem standsFor_add (ha : a.StandsFor m) (hb : b.StandsFor n) (hm : m.natAbs < 10 ^ ctx.precision)
    (h : (m + n).natAbs < 10 ^ ctx.precision) : (ctx.add a b).StandsFor (m + n) := by
  obtain ⟨s, c, rfl, rfl⟩ := ha
  obtain ⟨t, d, rfl, rfl⟩ := hb
  rw [natAbs_signed] at hm
  exact addFinite_of_lt_pow hctx hm h

theorem standsFor_sub (ha : a.StandsFor m) (hb : b.StandsFor n) (hm : m.natAbs < 10 ^ ctx.precision)
    (h : (m - n).natAbs < 10 ^ ctx.precision) : (ctx.sub a b).StandsFor (m - n) := by
  obtain ⟨s, c, rfl, rfl⟩ := ha
  obtain ⟨t, d, rfl, rfl⟩ := hb
  rw [natAbs_signed] at hm
  rw [Int.sub_eq_add_neg, ← signed_not] at h ⊢
  exact addFinite_of_lt_pow hctx hm h

theorem standsFor_mul (ha : a.StandsFor m) (hb : b.StandsFor n)
    (h : (m * n).natAbs < 10 ^ ctx.precision) : (ctx.mul a b).StandsFor (m * n) := by
  obtain ⟨s, c, rfl, rfl⟩ := ha
  obtain ⟨t, d, rfl, rfl⟩ := hb
  rw [Int.natAbs_mul, natAbs_signed, natAbs_signed] at h
  rw [mul_of_lt_pow hctx h, ← signed_mul]
  exact standsFor_finite _ _

theorem standsFor_minus (ha : a.StandsFor m) (h : m.natAbs < 10 ^ ctx.precision) :
    (ctx.minus a).StandsFor (-m) := by
  obtain ⟨s, c, rfl, rfl⟩ := ha
  rw [natAbs_signed] at h
  show (ctx.round _ _ _).StandsFor _
  rw [round_of_lt_pow hctx h, ← signed_not, ← signed_and_ne]
  exact standsFor_finite _ _

theorem standsFor_abs (ha : a.StandsFor m) (h : m.natAbs < 10 ^ ctx.precision) :
    (ctx.abs a).StandsFor m.natAbs := by
  obtain ⟨s, c, rfl, rfl⟩ := ha
  rw [natAbs_signed] at h ⊢
  show (ctx.round _ _ _).StandsFor _
  rw [round_of_lt_pow hctx h]
  exact ⟨false, c, rfl, rfl⟩

end Context

namespace Desk

theorem isWide_context (desk : Desk) : desk.context.IsWide where
  precision_pos := by
    have := desk.precision.min_le
    exact Nat.lt_of_lt_of_le (by decide) this
  min_lt_max := (by decide : (-999999999999999999 : Int) < 999999999999999999)

theorem holdsIntegers_context (desk : Desk) : desk.context.HoldsIntegers := by
  have hmin := desk.precision.min_le
  have hmax := desk.precision.le_max
  refine ⟨?_, ?_, ?_⟩
  · show 0 < desk.precision.digits
    omega
  · show (-999999999999999999 : Int) - ((desk.precision.digits : Int) - 1) ≤ 0
    omega
  · show (desk.precision.digits : Int) ≤ 999999999999999999
    omega

end Desk

end DeskCalculator
