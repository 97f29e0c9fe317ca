import DeskCalculator.Proofs.Decimal.Whole
import DeskCalculator.Proofs.Double.Whole
import DeskCalculator.Value.Constants
import Mathlib.Algebra.Ring.Parity

/-!
# Powers of integers as decimals

While the bits of an exponent are gone through, every intermediate result is a power of the base
that is no larger than the final one. Where this one fits the precision, nothing is rounded, neither
in the working precision nor at the end (`Context.standsFor_pow`). An exponent below `2 ^ 53` is not
changed by its passage through a double (`Context.standsFor_power`).
-/

namespace DeskCalculator

open Decimal

namespace Context

variable {ctx : Context}

theorem HoldsIntegers.working (hctx : ctx.HoldsIntegers) {k : Nat}
    (hk : ((ctx.precision + k : Nat) : Int) ≤ ctx.maxExponent) :
    (ctx.working (ctx.precision + k)).HoldsIntegers := by
  have hpos := hctx.precision_pos
  have htiny := hctx.tiny_le
  refine ⟨?_, ?_, hk⟩
  · show 0 < ctx.precision + k
    omega
  · show ctx.minExponent - (((ctx.precision + k : Nat) : Int) - 1) ≤ 0
    unfold tiny at htiny
    omega

/-! ## Squaring and multiplying -/

section Bits

variable (hctx : ctx.HoldsIntegers) {b n : Nat} (hb : 0 < b) (h : b ^ n < 10 ^ ctx.precision)
include hctx hb h

theorem mul_powers {i j : Nat} (hij : i + j ≤ n) :
    ctx.mul (finite false (b ^ i) 0) (finite false (b ^ j) 0) = finite false (b ^ (i + j)) 0 := by
  rw [Nat.pow_add]
  refine mul_of_lt_pow hctx (Nat.lt_of_le_of_lt ?_ h)
  rw [← Nat.pow_add]
  exact Nat.pow_le_pow_right hb hij

theorem powBits_of_lt_pow (bits : Nat) :
    ctx.powBits (finite false b 0) n bits (finite false (b ^ (n / 2 ^ bits)) 0) =
      finite false (b ^ n) 0 := by
  induction bits with
  | zero => rw [powBits, Nat.pow_zero, Nat.div_one]
  | succ bits ih =>
    generalize hk : n / 2 ^ (bits + 1) = k
    have hhalf : n / 2 ^ bits / 2 = k := by rw [Nat.div_div_eq_div_mul, ← Nat.pow_succ, hk]
    have hle : n / 2 ^ bits ≤ n := Nat.div_le_self ..
    have hbit : n.testBit bits = decide (n / 2 ^ bits % 2 = 1) := Nat.testBit_eq_decide_div_mod_eq
    have hsquare := mul_powers hctx hb h (i := k) (j := k) (by omega)
    have hnext : (if n.testBit bits then ctx.mul (finite false (b ^ (k + k)) 0) (finite false b 0)
        else finite false (b ^ (k + k)) 0) = finite false (b ^ (n / 2 ^ bits)) 0 := by
      rw [hbit]
      rcases Nat.mod_two_eq_zero_or_one (n / 2 ^ bits) with heven | hodd
      · have : k + k = n / 2 ^ bits := by omega
        simp [heven, this]
      · have := mul_powers hctx hb h (i := k + k) (j := 1) (by omega)
        rw [Nat.pow_one] at this
        simp only [hodd, decide_true, if_true, this, show k + k + 1 = n / 2 ^ bits by omega]
    have hsettled : isSettled (finite false (b ^ (n / 2 ^ bits)) 0) = false :=
      beq_eq_false_iff_ne.2 (Nat.ne_of_gt (Nat.pow_pos hb))
    rw [powBits]
    simp only [hsquare, hnext, hsettled, Bool.false_eq_true, if_false, ih]

theorem powNat_of_lt_pow (hn : n ≠ 0) (hlt : n < 2 ^ 64) :
    ctx.powNat (finite false b 0) n = finite false (b ^ n) 0 := by
  have hone : n / 2 ^ n.log2 = 1 := by
    refine Nat.div_eq_of_lt_le ?_ ?_
    · rw [Nat.one_mul]
      exact Nat.log2_self_le hn
    · rw [← Nat.pow_succ']
      exact Nat.lt_log2_self
  have hbits := powBits_of_lt_pow hctx hb h n.log2
  rw [hone, Nat.pow_one] at hbits
  rw [powNat]
  exact (if_pos hlt).trans hbits

end Bits

/-! ## The sign of a power -/

theorem isOdd_ofNat (n : Nat) : (finite false n 0).isOdd = decide (n % 2 = 1) := by
  rw [Bool.eq_iff_iff]
  simp [isOdd, isWhole, toInt]
  omega

theorem signed_pow (s : Bool) (b n : Nat) :
    signed (s && decide (n % 2 = 1)) (b ^ n) = signed s b ^ n := by
  cases s with
  | false => simp [signed]
  | true =>
    rcases Nat.even_or_odd n with heven | hodd
    · have : n % 2 ≠ 1 := by rw [Nat.even_iff.1 heven]; decide
      simp [signed, this, heven.neg_pow]
    · simp [signed, Nat.odd_iff.1 hodd, hodd.neg_pow]

/-! ## The power -/

section Power

variable (hctx : ctx.HoldsIntegers) (hroom : (ctx.precision : Int) + 20 ≤ ctx.maxExponent)
include hctx hroom

theorem powInt_of_lt_pow (negative : Bool) {b n : Nat} (hb : 0 < b) (hn : n ≠ 0) (hlt : n < 2 ^ 53)
    (h : b ^ n < 10 ^ ctx.precision) :
    ctx.powInt negative (finite false b 0) n = finite negative (b ^ n) 0 := by
  have hdigits : Numeral.digitCount n ≤ 16 := by
    have : ¬ 16 < Numeral.digitCount n := by
      rw [Numeral.lt_digitCount_iff (by decide)]
      omega
    omega
  have hwork := hctx.working (k := Numeral.digitCount n + 2) (by omega)
  have hpower : (ctx.working (ctx.precision + (Numeral.digitCount n + 2))).powNat
      (finite false b 0) n = finite false (b ^ n) 0 :=
    powNat_of_lt_pow hwork hb
      (Nat.lt_of_lt_of_le h (Nat.pow_le_pow_right (by decide) (Nat.le_add_right ..))) hn (by omega)
  have hnonneg : ¬ (n : Int) < 0 := by omega
  simp only [powInt, Int.natAbs_natCast, hnonneg, if_false, hpower, withSign, fit]
  exact round_of_lt_pow hctx h negative

/-- **A power of an integer** is not rounded where it fits the precision. -/
theorem standsFor_pow {base : Decimal} {m : Int} {n : Nat} (hbase : base.StandsFor m) (hn : n ≠ 0)
    (hlt : n < 2 ^ 53) (h : (m ^ n).natAbs < 10 ^ ctx.precision) :
    (ctx.pow base (ofInt n)).StandsFor (m ^ n) := by
  obtain ⟨s, b, rfl, rfl⟩ := hbase
  have hexponent : ofInt (n : Int) = finite false n 0 := by simp [ofInt]
  have hisZero : (finite false n 0).isZero = false := by
    cases n with
    | zero => exact absurd rfl hn
    | succ n => rfl
  have hwhole : (finite false n 0).isIntegral = true := by simp [isIntegral, isWhole]
  have htoInt : (finite false n 0).toInt = n := by simp [toInt]
  have hunit : (finite s b 0).isUnit = (b == 1) := by simp [isUnit]
  rw [← signed_pow, natAbs_signed] at h
  rw [hexponent, ← signed_pow]
  simp only [pow, isNaN, isNegative, isFinite, isOdd_ofNat, hisZero, hwhole, htoInt, hunit,
    Bool.or_false, Bool.false_eq_true, Bool.not_true, Bool.and_false, if_false, if_true]
  by_cases hzero : b = 0
  · subst hzero
    have hbase : (finite s 0 0).isZero = true := rfl
    rw [if_pos hbase, Nat.zero_pow (Nat.pos_of_ne_zero hn)]
    exact standsFor_finite _ 0
  · have hbase : (finite s b 0).isZero = false := by
      cases b with
      | zero => exact absurd rfl hzero
      | succ b => rfl
    simp only [hbase, Bool.false_eq_true, if_false]
    by_cases hone : b = 1
    · subst hone
      simp only [beq_self_eq_true, if_true, powUnit, hwhole, Bool.false_eq_true, if_false]
      simpa using standsFor_finite (s && decide (n % 2 = 1)) 1
    · simp only [beq_iff_eq, hone, if_false, withSign]
      rw [powInt_of_lt_pow hctx hroom _ (Nat.pos_of_ne_zero hzero) hn hlt h]
      exact standsFor_finite _ _

/-- **A power of the calculator** takes the exponent as a double, which changes no integer below
`2 ^ 53`. -/
theorem standsFor_power {base exponent : Decimal} {m : Int} {n : Nat} (hbase : base.StandsFor m)
    (hexponent : exponent.StandsFor n) (hlt : n < 2 ^ 53)
    (h : (m ^ n).natAbs < 10 ^ ctx.precision) :
    ∃ d, ctx.power base exponent = .ok d ∧ d.StandsFor (m ^ n) := by
  obtain ⟨s, c, rfl, hc⟩ := hexponent
  have hcn : c = n := by rw [← natAbs_signed s c, hc, Int.natAbs_natCast]
  subst hcn
  by_cases hzero : c = 0
  · subst hzero
    exact ⟨.one, rfl, false, 1, rfl, by simp [signed]⟩
  · obtain ⟨j, hj⟩ := toDouble_of_lt s hzero hlt
    have hmantissa : c * 2 ^ j ≠ 0 := Nat.mul_ne_zero hzero (Nat.ne_of_gt (Nat.two_pow_pos j))
    have hdouble : (Double.finite s (c * 2 ^ j) (-(j : Int))).isZero = false := by
      generalize c * 2 ^ j = m at hmantissa
      cases m with
      | zero => exact absurd rfl hmantissa
      | succ m => rfl
    refine ⟨ctx.pow base (ofInt c), ?_, standsFor_pow hctx hroom hbase hzero hlt h⟩
    have hwhole := Double.isWhole_shifted s c j
    rw [power, hj]
    show (if (Double.finite s (c * 2 ^ j) (-(j : Int))).isZero then _ else _) = _
    rw [hdouble, if_neg Bool.false_ne_true, hwhole, if_pos rfl, Double.truncate_shifted, hc]
    rfl

end Power

end Context

end DeskCalculator
