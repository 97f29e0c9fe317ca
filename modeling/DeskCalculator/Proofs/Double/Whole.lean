import DeskCalculator.Proofs.Decimal.Whole
import DeskCalculator.Proofs.Double.Shortest
import DeskCalculator.Value.Basic

/-!
# Integers as doubles

An integer below `2 ^ 53` in magnitude is a double: its mantissa is shifted to 53 binary places and
nothing is rounded (`Double.ofRatio_of_lt`), so that the double is whole and truncating it gives the
integer back.
-/

namespace DeskCalculator

namespace Double

variable {c : Nat}

theorem floorLog2_one (hc : c ≠ 0) : floorLog2 c 1 = c.log2 := by
  have hone : Nat.log2 1 = 0 := by decide
  have hle : 1 * Nat.pow 2 (c.log2 : Int).toNat ≤ c * Nat.pow 2 (-(c.log2 : Int)).toNat := by
    simpa using Nat.log2_self_le hc
  simp only [floorLog2, hone, Int.natCast_zero, Int.sub_zero, if_pos hle]

theorem divide_one (mode : Rounding) (n : Nat) : mode.divide n 1 = n := by
  simp [Rounding.divide, Nat.mod_one]

theorem ofRatio_of_lt (negative : Bool) (hc : c ≠ 0) (h : c < 2 ^ 53) :
    ∃ j : Nat, ofRatio negative c 1 = finite negative (c * 2 ^ j) (-(j : Int)) := by
  have hlog : c.log2 < 53 := (Nat.log2_lt hc).2 h
  have hexponent : max (floorLog2 c 1 - 52) minExponent = -((52 - c.log2 : Nat) : Int) := by
    rw [floorLog2_one hc]
    unfold minExponent
    omega
  have hmantissa : c * 2 ^ (52 - c.log2) < 2 ^ 53 := by
    have hlt : c < 2 ^ (c.log2 + 1) := Nat.lt_log2_self
    calc c * 2 ^ (52 - c.log2) < 2 ^ (c.log2 + 1) * 2 ^ (52 - c.log2) :=
          Nat.mul_lt_mul_of_pos_right hlt (Nat.two_pow_pos _)
      _ = 2 ^ 53 := by rw [← Nat.pow_add, show c.log2 + 1 + (52 - c.log2) = 53 by omega]
  have hne : c * 2 ^ (52 - c.log2) ≠ 0 := Nat.mul_ne_zero hc (Nat.ne_of_gt (Nat.two_pow_pos _))
  refine ⟨52 - c.log2, ?_⟩
  unfold ofRatio
  rw [if_neg hc]
  simp only [hexponent, Int.neg_neg, Int.toNat_natCast, Int.toNat_neg_natCast, Nat.pow_eq,
    Nat.pow_zero, Nat.mul_one, divide_one, Nat.ne_of_lt hmantissa, hne, if_false]
  exact if_neg (by unfold maxExponent; omega)

theorem isWhole_shifted (negative : Bool) (c j : Nat) :
    (finite negative (c * 2 ^ j) (-(j : Int))).isWhole := by
  simp [isWhole]

theorem truncate_shifted (negative : Bool) (c j : Nat) :
    (finite negative (c * 2 ^ j) (-(j : Int))).truncate = Decimal.signed negative c := by
  have hmagnitude : (if 0 ≤ -(j : Int) then c * 2 ^ j * Nat.pow 2 (-(j : Int)).toNat
      else c * 2 ^ j / Nat.pow 2 (-(-(j : Int))).toNat) = c := by
    split
    · have hj : j = 0 := by omega
      simp [hj]
    · simp
  simp only [truncate, hmagnitude, Decimal.signed]

end Double

namespace Decimal

theorem toDouble_of_lt (s : Bool) {c : Nat} (hc : c ≠ 0) (h : c < 2 ^ 53) :
    ∃ j : Nat, (finite s c 0).toDouble = .ok (.finite s (c * 2 ^ j) (-(j : Int))) := by
  obtain ⟨j, hj⟩ := Double.ofRatio_of_lt s hc h
  refine ⟨j, ?_⟩
  rw [toDouble, Double.ofScientific_eq s hc]
  simpa using hj

end Decimal

end DeskCalculator
