import DeskCalculator.Proofs.Decimal.Results
import DeskCalculator.Proofs.Double.Shortest
import DeskCalculator.Proofs.Value.Number
import Mathlib.Algebra.Order.Floor.Semifield
import Mathlib.Data.Rat.Floor

/-!
# Decimals of one number

`1.50` and `1.5` are different decimals, and what is made of them may have different zeros at the
end, but not different numbers: rounding (`toRat?_round_congr`), division (`toRat?_div_congr`) and
the integer part depend on the number alone. The sign goes through rounding and division untouched.
-/

namespace DeskCalculator

open Decimal

namespace Context

variable {ctx : Context} {t : Bool} {c d n : Nat} {e f : Int}

/-! ## Rounding -/

theorem round_sign (ctx : Context) (n : Nat) (e : Int) :
    (∃ q g, ∀ s, ctx.round s n e = finite s q g) ∨ ∀ s, ctx.round s n e = infinite s := by
  by_cases hn : n = 0
  · subst hn
    exact .inl ⟨0, _, fun s => if_pos rfl⟩
  by_cases hmax : leadingExponent n e ≤ ctx.maxExponent
  · by_cases hlast : ctx.lastExponent n e ≤ e
    · exact .inl ⟨n, e, fun s => round_of_le hn hmax hlast⟩
    · simp only [round_of_lt hn hmax (Int.not_le.1 hlast)]
      split
      · split
        · exact .inr fun s => rfl
        · exact .inl ⟨_, _, fun s => rfl⟩
      · split
        · exact .inr fun s => rfl
        · exact .inl ⟨_, _, fun s => rfl⟩
  · exact .inr fun s => round_of_gt hn (Int.not_le.1 hmax)

theorem toRat?_round (ctx : Context) (s : Bool) (n : Nat) (e : Int) :
    (ctx.round s n e).toRat? =
      (ctx.round false n e).toRat?.map fun x => if s then -x else x := by
  rcases ctx.round_sign n e with ⟨q, g, h⟩ | h
  · simp [h, Decimal.toRat?]
  · simp [h, Decimal.toRat?]

theorem lastExponent_eq (n : Nat) (e : Int) :
    ctx.lastExponent n e = max ctx.tiny (leadingExponent n e + 1 - ctx.precision) := by
  unfold lastExponent leadingExponent
  omega

theorem represents_of_lastExponent_le (hmax : leadingExponent d f ≤ ctx.maxExponent)
    (h : ctx.lastExponent d f ≤ f) : ctx.Represents d f := by
  unfold lastExponent at h
  exact ⟨by omega, by omega, hmax⟩

theorem cut_mul_pow (j : Nat) (h : ctx.lastExponent (d * 10 ^ j) (f - j) = ctx.lastExponent d f)
    (hlead : leadingExponent (d * 10 ^ j) (f - j) = leadingExponent d f)
    (hlast : f < ctx.lastExponent d f) : ctx.cut (d * 10 ^ j) (f - j) = ctx.cut d f := by
  have hdropped : ctx.dropped (d * 10 ^ j) (f - j) = ctx.dropped d f + j := by
    unfold dropped
    omega
  have hdigits : Numeral.digitCount (d * 10 ^ j) = Numeral.digitCount d + j := by
    unfold leadingExponent at hlead
    omega
  unfold cut
  rw [hdropped, hdigits, Nat.pow_add, Rounding.divide_mul_mul _ (by positivity)]
  simp only [Nat.add_lt_add_iff_right]

theorem toRat?_round_mul_pow (s : Bool) (j : Nat) :
    (ctx.round s (d * 10 ^ j) (f - j)).toRat? = (ctx.round s d f).toRat? := by
  have hscaled : scaled (d * 10 ^ j) (f - j) = scaled d f := by
    rw [scaled_mul_pow, Int.sub_add_cancel]
  by_cases hd : d = 0
  · simp [hd, round, Decimal.toRat?, scaled]
  have hc : d * 10 ^ j ≠ 0 := Nat.mul_ne_zero hd (by positivity)
  have hlead := leadingExponent_eq hc hscaled
  by_cases hmax : leadingExponent d f ≤ ctx.maxExponent
  · by_cases hlast : ctx.lastExponent d f ≤ f
    · have hd := represents_of_lastExponent_le hmax hlast
      obtain ⟨q, g, hround, hq, -⟩ := round_of_scaled_eq hd hscaled s
      obtain ⟨q', g', hround', hq', -⟩ := round_of_scaled_eq hd rfl s
      rw [hround, hround', Decimal.toRat?, Decimal.toRat?, hq, hq']
    · have hlasts : ctx.lastExponent (d * 10 ^ j) (f - j) = ctx.lastExponent d f := by
        rw [lastExponent_eq, lastExponent_eq, hlead]
      rw [round_of_lt hc (by omega) (by omega), round_of_lt hd hmax (by omega), hlasts,
        cut_mul_pow j hlasts hlead (by omega)]
  · rw [round_of_gt hc (by omega), round_of_gt hd (by omega)]

/-- **Rounding** depends on the number alone. -/
theorem toRat?_round_congr (h : scaled c e = scaled d f) (s : Bool) :
    (ctx.round s c e).toRat? = (ctx.round s d f).toRat? := by
  rcases exists_zeros h with ⟨j, rfl, rfl⟩ | ⟨j, rfl, rfl⟩
  · exact toRat?_round_mul_pow s j
  · exact (toRat?_round_mul_pow s j).symm

/-! ## Division -/

theorem digitCount_mul_pow (hc : c ≠ 0) (j : Nat) :
    Numeral.digitCount (c * 10 ^ j) = Numeral.digitCount c + j := by
  have hlead := leadingExponent_eq (e := 0) (Nat.mul_ne_zero hc (by positivity))
    (scaled_mul_pow c j 0)
  unfold leadingExponent at hlead
  omega

theorem toRat?_divFinite_mul_pow (hc : c ≠ 0) (s : Bool) (j : Nat) :
    (ctx.divFinite s (c * 10 ^ j) (e - j) t d f).toRat? = (ctx.divFinite s c e t d f).toRat? := by
  unfold divFinite
  simp only [Nat.pow_eq]
  rw [digitCount_mul_pow hc]
  generalize hshift : (Numeral.digitCount d : Int) - Numeral.digitCount c + ctx.precision + 1 = shift
  rw [show (Numeral.digitCount d : Int) - ↑(Numeral.digitCount c + j) + ctx.precision + 1 =
    shift - j by omega, show e - j - f - (shift - j) = e - f - shift by omega]
  have hzeros : 0 < 10 ^ (j - shift.toNat) := by positivity
  have hnumerator : c * 10 ^ j * 10 ^ (shift - j).toNat =
      c * 10 ^ shift.toNat * 10 ^ (j - shift.toNat) := by
    rw [Nat.mul_assoc, Nat.mul_assoc, ← Nat.pow_add, ← Nat.pow_add]
    congr 2
    omega
  have hdenominator : d * 10 ^ (-(shift - j)).toNat =
      d * 10 ^ (-shift).toNat * 10 ^ (j - shift.toNat) := by
    rw [Nat.mul_assoc, ← Nat.pow_add]
    congr 2
    omega
  rw [hnumerator, hdenominator, Nat.mul_div_mul_right _ _ hzeros, Nat.mul_mod_mul_right]
  simp only [Nat.mul_eq_zero, hzeros.ne', or_false]
  split
  · refine toRat?_round_congr ?_ _
    rw [Double.scaled_div_trailingZeros, Double.scaled_div_trailingZeros]
  · rfl

/-- **Division** depends on the number of the dividend alone. -/
theorem toRat?_div_congr (h : scaled c e = scaled d f) (s : Bool) (b : Decimal) :
    (ctx.div (finite s c e) b).toRat? = (ctx.div (finite s d f) b).toRat? := by
  cases b with
  | finite t n g =>
    have hzero := eq_zero_congr h
    by_cases hn : n = 0
    · simp [div, hn, hzero]
    by_cases hd : d = 0
    · rw [div, div, if_neg hn, if_neg hn, if_pos hd, if_pos (hzero.2 hd)]
      exact toRat?_round_congr (by simp [scaled]) _
    have hc : c ≠ 0 := fun hc => hd (hzero.1 hc)
    rw [div, div, if_neg hn, if_neg hn, if_neg hc, if_neg hd]
    rcases exists_zeros h with ⟨j, rfl, rfl⟩ | ⟨j, rfl, rfl⟩
    · exact toRat?_divFinite_mul_pow hd s j
    · exact (toRat?_divFinite_mul_pow hc s j).symm
  | infinite t => rfl
  | nan t signaling payload => rfl

theorem toRat?_div_negative (c : Nat) (e : Int) (d : Nat) (f : Int) :
    (ctx.div (finite true c e) (finite false d f)).toRat? =
      (ctx.div (finite false c e) (finite false d f)).toRat?.map (- ·) := by
  have hround (n : Nat) (g : Int) : (ctx.round true n g).toRat? =
      (ctx.round false n g).toRat?.map (- ·) := ctx.toRat?_round true n g
  unfold div divFinite
  simp only [Bool.bne_false]
  split
  · split <;> rfl
  · split
    · exact hround _ _
    · split <;> exact hround _ _

theorem plus_of_ne_zero (ctx : Context) (s : Bool) (hc : c ≠ 0) (e : Int) :
    ctx.plus (finite s c e) = ctx.round s c e := by
  rw [plus, bne_iff_ne.2 hc, Bool.and_true]

theorem toRat?_plus (ctx : Context) (s : Bool) (c : Nat) (e : Int) :
    (ctx.plus (finite s c e)).toRat? = (ctx.round s c e).toRat? := by
  by_cases hc : c = 0
  · cases s <;> simp [plus, hc, round, Decimal.toRat?, scaled]
  · rw [ctx.plus_of_ne_zero s hc]

theorem toRat?_minus {a : Decimal} (h : ctx.Keeps a) :
    (ctx.minus a).toRat? = a.toRat?.map (- ·) := by
  cases a with
  | finite s c e =>
    obtain ⟨c', e', hround, hscaled, -⟩ := round_of_scaled_eq h rfl (!s && c != 0)
    rw [minus, hround]
    by_cases hc : c = 0
    · subst hc
      have hzero : scaled 0 e = 0 := scaled_eq_zero_iff.2 rfl
      simp [Decimal.toRat?, hscaled, hzero]
    · cases s <;> simp [Decimal.toRat?, hc, hscaled]
  | infinite s => rfl
  | nan s signaling payload => rfl

end Context

namespace Decimal

variable {c d : Nat} {e f : Int}

/-! ## The integer part -/

theorem isWhole_iff : isWhole c e ↔ ∃ n : Nat, scaled c e = n := by
  constructor
  · intro h
    by_cases hc : c = 0
    · exact ⟨0, by simp [hc, scaled]⟩
    · by_cases he : 0 ≤ e
      · obtain ⟨k, rfl⟩ := Int.eq_ofNat_of_zero_le he
        exact ⟨c * 10 ^ k, scaled_natCast c k⟩
      · obtain ⟨k, rfl⟩ : ∃ k : Nat, e = -k := ⟨(-e).toNat, by omega⟩
        obtain ⟨n, rfl⟩ : 10 ^ k ∣ c := by
          simp only [isWhole, Nat.pow_eq, neg_neg, Int.toNat_natCast] at h
          refine Nat.dvd_of_mod_eq_zero ?_
          simp_all
        refine ⟨n, ?_⟩
        rw [Nat.mul_comm, scaled_mul_pow, neg_add_cancel]
        simp [scaled]
  · rintro ⟨n, h⟩
    by_cases he : 0 ≤ e
    · simp [isWhole, he]
    · have hmul : c = n * 10 ^ (-e).toNat := by
        rw [← zero_sub e]
        exact eq_mul_pow (f := 0) (h.trans (by simp [scaled])) (by omega)
      by_cases hc : c = 0
      · simp [isWhole, hc]
      · have hn : 0 < n := by
          rcases Nat.eq_zero_or_pos n with rfl | hn
          · simp [hmul] at hc
          · exact hn
        have hlt : (-e).toNat < Numeral.digitCount c := by
          rw [Numeral.lt_digitCount_iff (by omega), hmul]
          exact Nat.le_mul_of_pos_left _ hn
        have hmod : c % 10 ^ (-e).toNat = 0 := by
          rw [hmul]
          exact Nat.mul_mod_left ..
        simp only [isWhole, Nat.pow_eq, hmod]
        simp
        omega

theorem isWhole_congr (h : scaled c e = scaled d f) : isWhole c e = isWhole d f := by
  rw [Bool.eq_iff_iff, isWhole_iff, isWhole_iff, h]

theorem natPart_eq (c : Nat) (e : Int) :
    (if 0 ≤ e then c * 10 ^ e.toNat else c / 10 ^ (-e).toNat) = ⌊scaled c e⌋₊ := by
  split
  · rename_i he
    obtain ⟨k, rfl⟩ := Int.eq_ofNat_of_zero_le he
    exact (Nat.floor_natCast (R := ℚ) _).symm.trans (congrArg _ (scaled_natCast c k).symm)
  · rename_i he
    obtain ⟨k, rfl⟩ : ∃ k : Nat, e = -k := ⟨(-e).toNat, by omega⟩
    rw [neg_neg, Int.toNat_natCast, ← Nat.floor_div_eq_div (K := ℚ), scaled, zpow_neg,
      zpow_natCast, div_eq_mul_inv]
    push_cast
    rfl

theorem toInt_congr (h : scaled c e = scaled d f) (s : Bool) :
    (finite s c e).toInt = (finite s d f).toInt := by
  simp only [toInt, Nat.pow_eq]
  rw [natPart_eq, natPart_eq, h]

theorem natAbs_toInt (s : Bool) {n : Nat} (h : scaled c e = n) :
    (finite s c e).toInt.natAbs = n := by
  rw [← Nat.floor_natCast (R := ℚ) n, ← h, ← natPart_eq]
  exact natAbs_signed s _

end Decimal

end DeskCalculator
