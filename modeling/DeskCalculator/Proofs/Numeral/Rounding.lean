import DeskCalculator.Numeral.Rounding

/-!
# Bounds of a rounded quotient

`Rounding.divide` gives the quotient rounded down or the number after it. It reaches a number `m`
only if the quotient is no more than a half below `m`, and an even number it does reach then: halves
go up or to the even neighbour.
-/

namespace DeskCalculator.Rounding

variable {mode : Rounding} {n d m : Nat}

theorem divide_cases (mode : Rounding) (n d : Nat) :
    (mode.divide n d = n / d ∧ 2 * (n % d) ≤ d) ∨ (mode.divide n d = n / d + 1 ∧ d ≤ 2 * (n % d)) := by
  unfold divide
  simp only
  split
  · exact .inl ⟨rfl, by omega⟩
  · split
    · exact .inr ⟨rfl, by omega⟩
    · cases mode with
      | halfUp => exact .inr ⟨rfl, by omega⟩
      | halfEven =>
        rcases Nat.mod_two_eq_zero_or_one (n / d) with h | h
        · exact .inl ⟨by simp only [h, Nat.add_zero], by omega⟩
        · exact .inr ⟨by simp only [h], by omega⟩

theorem div_le_divide (mode : Rounding) (n d : Nat) : n / d ≤ mode.divide n d := by
  rcases divide_cases mode n d with h | h <;> omega

theorem divide_le (h : n < m * d) : mode.divide n d ≤ m := by
  have := Nat.div_lt_of_lt_mul (Nat.mul_comm m d ▸ h)
  rcases divide_cases mode n d with h | h <;> omega

theorem two_mul_le_of_le_divide (h : m ≤ mode.divide n d) : 2 * (m * d) ≤ 2 * n + d := by
  have hn : n / d * d + n % d = n := Nat.div_add_mod' n d
  rcases divide_cases mode n d with ⟨hq, _⟩ | ⟨hq, _⟩
  · have := Nat.mul_le_mul_right d (hq ▸ h)
    omega
  · have := Nat.mul_le_mul_right d (hq ▸ h)
    rw [Nat.succ_mul] at this
    omega

theorem le_divide_of_even (mode : Rounding) (hd : 0 < d) (hm : m % 2 = 0)
    (h : 2 * (m * d) ≤ 2 * n + d) : m ≤ mode.divide n d := by
  have hn : n / d * d + n % d = n := Nat.div_add_mod' n d
  have hmod := Nat.mod_lt n hd
  have hle {k : Nat} (hk : 2 * n + d < 2 * ((k + 1) * d)) : m ≤ k := by
    have := Nat.lt_of_mul_lt_mul_right (show m * d < (k + 1) * d by omega)
    omega
  have hnext : m ≤ n / d + 1 := hle (by rw [Nat.add_mul, Nat.add_mul]; omega)
  unfold divide
  simp only
  split
  · exact hle (by rw [Nat.add_mul]; omega)
  · split
    · exact hnext
    · cases mode with
      | halfUp => exact hnext
      | halfEven =>
        show m ≤ n / d + n / d % 2
        omega

end DeskCalculator.Rounding
