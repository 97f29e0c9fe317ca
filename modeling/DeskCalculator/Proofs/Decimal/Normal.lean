import DeskCalculator.Proofs.Decimal.Plain
import DeskCalculator.Proofs.Decimal.Representable
import DeskCalculator.Proofs.Double.Shortest

/-!
# Numbers without zeros at the end

A number has one coefficient that does not end in a zero (`Decimal.eq_of_scaled_eq`). This is what
`Decimal.normalize` leaves of a number (`Decimal.exists_normalize`), and what the places of a plain
text come down to, so that both depend on the number alone.
-/

namespace DeskCalculator

theorem Numeral.div_pow_trailingZeros_mod (n limit : Nat) :
    trailingZeros n limit = limit ∨ n / 10 ^ trailingZeros n limit % 10 ≠ 0 := by
  induction limit generalizing n with
  | zero => exact .inl rfl
  | succ limit ih =>
    rw [trailingZeros]
    split
    · rw [Nat.pow_succ', ← Nat.div_div_eq_div_mul, Nat.add_right_cancel_iff]
      exact ih (n / 10)
    · rename_i hmod
      exact .inr (by simpa using hmod)

namespace Decimal

variable {c d k l : Nat} {e f : Int}

theorem eq_zero_of_mul_pow_mod {j : Nat} (h : c * 10 ^ j % 10 ≠ 0) : j = 0 := by
  by_contra hj
  exact h (Nat.mod_eq_zero_of_dvd ((dvd_pow_self 10 hj).mul_left c))

theorem eq_of_scaled_eq (hc : c % 10 ≠ 0) (hd : d % 10 ≠ 0) (h : scaled c e = scaled d f) :
    c = d ∧ e = f := by
  rcases exists_zeros h with ⟨j, rfl, rfl⟩ | ⟨j, rfl, rfl⟩
  · obtain rfl := eq_zero_of_mul_pow_mod hc
    simp
  · obtain rfl := eq_zero_of_mul_pow_mod hd
    simp

/-- **The normal form** of a number other than zero. -/
theorem exists_normalize (s : Bool) (hc : c ≠ 0) (e : Int) : ∃ d f,
    (finite s c e).normalize = finite s d f ∧ d % 10 ≠ 0 ∧ scaled d f = scaled c e ∧ e ≤ f := by
  refine ⟨_, _, by simp only [normalize, if_neg hc, Nat.pow_eq], ?_,
    Double.scaled_div_trailingZeros c (Numeral.digitCount c) e, by omega⟩
  refine (Numeral.div_pow_trailingZeros_mod c _).resolve_left fun hall => ?_
  -- a number is shorter than the power of ten that its zeros would make up
  have hle := Nat.le_of_dvd (Nat.pos_of_ne_zero hc)
    (Double.pow_trailingZeros_dvd c (Numeral.digitCount c))
  rw [hall] at hle
  exact absurd (Numeral.lt_pow_digitCount c) (Nat.not_lt.2 hle)

theorem normalize_congr (s : Bool) (h : scaled c e = scaled d f) :
    (finite s c e).normalize = (finite s d f).normalize := by
  by_cases hc : c = 0
  · rw [normalize, normalize, if_pos hc, if_pos ((eq_zero_congr h).1 hc)]
  obtain ⟨c', e', hnormal, hc', hscaled, -⟩ := exists_normalize s hc e
  obtain ⟨d', f', hnormal', hd', hscaled', -⟩ := exists_normalize s (mt (eq_zero_congr h).2 hc) f
  obtain ⟨rfl, rfl⟩ := eq_of_scaled_eq hc' hd' (hscaled.trans (h.trans hscaled'.symm))
  rw [hnormal, hnormal']

/-- A number has one text in place that has no zero at the end of its places. -/
theorem IsPositional.eq_of_scaled_eq {w w' : Text} (hw : IsPositional w c k)
    (hw' : IsPositional w' d l) (hc : k = 0 ∨ c % 10 ≠ 0) (hd : l = 0 ∨ d % 10 ≠ 0)
    (h : scaled c (-(k : Int)) = scaled d (-(l : Int))) : w = w' := by
  rcases exists_zeros h with ⟨j, rfl, hj⟩ | ⟨j, rfl, hj⟩
  · obtain rfl : j = 0 := hc.elim (fun hk => by omega) eq_zero_of_mul_pow_mod
    obtain rfl : k = l := by omega
    rw [Nat.pow_zero, Nat.mul_one] at hw
    exact hw.eq hw'
  · obtain rfl : j = 0 := hd.elim (fun hl => by omega) eq_zero_of_mul_pow_mod
    obtain rfl : k = l := by omega
    rw [Nat.pow_zero, Nat.mul_one] at hw'
    exact hw.eq hw'

/-- **The plain text** depends on the sign and the number. -/
theorem plain_congr (s : Bool) (h : scaled c e = scaled d f) :
    (finite s c e).plain = (finite s d f).plain := by
  obtain ⟨w, c', k, hplain, hw, hnormal, hscaled, -⟩ := exists_plain_inPlace s c e
  obtain ⟨w', d', l, hplain', hw', hnormal', hscaled', -⟩ := exists_plain_inPlace s d f
  have hsame := hscaled.trans (h.trans hscaled'.symm)
  rw [hplain, hplain', hw.eq_of_scaled_eq hw' hnormal hnormal' hsame]

end Decimal

end DeskCalculator
