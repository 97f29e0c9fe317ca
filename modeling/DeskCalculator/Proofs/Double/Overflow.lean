import DeskCalculator.Double.Basic
import DeskCalculator.Proofs.Numeral.Rounding
import Mathlib.Algebra.Ring.Nat

/-!
# Quotients beyond the largest double

`Double.floorLog2` is the exponent of the leading binary place of a quotient. From `2 ^ 1024` on
there is no finite double (`Double.ofRatio_eq_infinite`).
-/

namespace DeskCalculator.Double

variable {n d : Nat}

theorem log2_add_le {j : Nat} (hd : d ≠ 0) (h : d * 2 ^ j ≤ n) : d.log2 + j ≤ n.log2 := by
  have hpos : 0 < d * 2 ^ j := Nat.mul_pos (Nat.pos_of_ne_zero hd) (Nat.two_pow_pos j)
  refine (Nat.le_log2 (by omega)).2 (Nat.le_trans ?_ h)
  rw [Nat.pow_add]
  exact Nat.mul_le_mul_right _ (Nat.log2_self_le hd)

theorem le_floorLog2 {j : Nat} (hd : d ≠ 0) (h : d * 2 ^ j ≤ n) : (j : Int) ≤ floorLog2 n d := by
  have hlog := log2_add_le hd h
  unfold floorLog2
  simp only
  split
  · omega
  · rename_i hlt
    by_cases hj : d.log2 + j = n.log2
    · have hk : (n.log2 : Int) - d.log2 = j := by omega
      rw [hk] at hlt
      simp only [Int.toNat_natCast, Int.toNat_neg_natCast] at hlt
      exact absurd (by simpa using h) hlt
    · omega

theorem mul_pow_floorLog2_le (hn : n ≠ 0) (h : 0 ≤ floorLog2 n d) :
    d * 2 ^ (floorLog2 n d).toNat ≤ n := by
  unfold floorLog2 at h ⊢
  simp only at h ⊢
  split at h
  · rename_i hle
    rw [if_pos hle]
    have hzero : (-((n.log2 : Int) - d.log2)).toNat = 0 := by omega
    rw [hzero] at hle
    simpa using hle
  · rename_i hlt
    rw [if_neg hlt]
    have hlog : d.log2 + 1 + ((n.log2 : Int) - d.log2 - 1).toNat = n.log2 := by omega
    calc d * 2 ^ ((n.log2 : Int) - d.log2 - 1).toNat
        ≤ 2 ^ (d.log2 + 1) * 2 ^ ((n.log2 : Int) - d.log2 - 1).toNat :=
          Nat.mul_le_mul_right _ (Nat.le_of_lt Nat.lt_log2_self)
      _ = 2 ^ n.log2 := by rw [← Nat.pow_add, hlog]
      _ ≤ n := Nat.log2_self_le hn

theorem ofRatio_eq_infinite (negative : Bool) {j : Nat} (hd : d ≠ 0) (hj : 1024 ≤ j)
    (h : d * 2 ^ j ≤ n) : ofRatio negative n d = infinite negative := by
  have hpos : 0 < d * 2 ^ j := Nat.mul_pos (Nat.pos_of_ne_zero hd) (Nat.two_pow_pos _)
  have hn : n ≠ 0 := by omega
  have hlog := le_floorLog2 hd h
  have hspec : d * 2 ^ (floorLog2 n d).toNat ≤ n := mul_pow_floorLog2_le hn (by omega)
  have hmin : max (floorLog2 n d - 52) minExponent = floorLog2 n d - 52 := by
    unfold minExponent
    omega
  unfold ofRatio
  rw [if_neg hn]
  simp only [hmin]
  generalize hq : floorLog2 n d - 52 = q
  have hdiv : d * Nat.pow 2 q.toNat ≤ n * Nat.pow 2 (-q).toNat := by
    have hzero : (-q).toNat = 0 := by omega
    rw [hzero]
    refine Nat.le_trans (Nat.mul_le_mul_left d ?_) (Nat.le_trans hspec (Nat.le_mul_of_pos_right _ ?_))
    · exact Nat.pow_le_pow_right (by decide) (by omega)
    · exact Nat.one_pos
  have hround : 0 < Rounding.halfEven.divide (n * Nat.pow 2 (-q).toNat) (d * Nat.pow 2 q.toNat) := by
    refine Nat.lt_of_lt_of_le (Nat.div_pos hdiv ?_) (Rounding.div_le_divide ..)
    exact Nat.mul_pos (Nat.pos_of_ne_zero hd) (Nat.pow_pos (by decide))
  generalize Rounding.halfEven.divide _ _ = m at hround ⊢
  unfold maxExponent
  split
  · exact (if_neg (by decide : Nat.pow 2 52 ≠ 0)).trans (if_pos (by omega))
  · rw [if_neg (by omega), if_pos (by omega)]

end DeskCalculator.Double
