import DeskCalculator.Proofs.Decimal.Notation
import DeskCalculator.Proofs.Decimal.Scaled
import DeskCalculator.Proofs.Expression.Grammar
import DeskCalculator.Value.Display

/-!
# The plain text of a decimal

The plain text of a finite decimal is its sign and a numeral of the same value: digits, and a point
with places behind it where they are needed (`exists_plain_inPlace`). A numeral is a single lexeme,
and reading it gives the decimal with its digits and places.
-/

namespace DeskCalculator

namespace Decimal

/-- A numeral with its digits as a whole number and its places behind the point. -/
inductive IsNumeral : Text → Nat → Nat → Prop where
  | whole {digits : Text} : digits ≠ [] → (∀ c ∈ digits, c.isDigit) →
    IsNumeral digits (Text.toNat digits) 0
  | pointed {digits places : Text} : digits ++ places ≠ [] → (∀ c ∈ digits ++ places, c.isDigit) →
    IsNumeral (digits ++ '.' :: places) (Text.toNat (digits ++ places)) places.length

theorem IsNumeral.isWrittenAs {w : Text} {c k : Nat} (h : IsNumeral w c k) :
    (Lexeme.number w).IsWrittenAs w := by
  cases h with
  | whole hne hdigits => exact .whole hne hdigits
  | pointed hne hdigits => exact .pointed hne hdigits

theorem IsNumeral.read? {w : Text} {c k : Nat} (h : IsNumeral w c k)
    (hstorable : isStorable c (-(k : Int))) :
    Decimal.read? w = some (finite false c (-(k : Int))) := by
  cases h with
  | whole hne hdigits => exact read?_of_whole hne hdigits hstorable
  | pointed hne hdigits => exact read?_of_pointed hne hdigits hstorable

theorem IsPositional.isNumeral {w : Text} {c k : Nat} (h : IsPositional w c k) :
    IsNumeral w c k := by
  obtain @⟨front, back, hfront, hback⟩ := h
  have hdigits : ∀ d ∈ front ++ back, d.isDigit := fun d hd =>
    (List.mem_append.1 hd).elim (hfront.isDigit d) (hback d)
  cases back with
  | nil =>
    rw [List.append_nil] at hdigits
    simpa [pointed] using IsNumeral.whole hfront.ne_nil hdigits
  | cons d back => exact .pointed (by simp) hdigits

theorem stripFraction_append (front : Text) {places : Text} (h : '.' ∉ places) : ∃ kept k,
    places = kept ++ List.replicate k '0' ∧ (∀ c ∈ kept.getLast?, c ≠ '0') ∧
    stripFraction (front ++ '.' :: places) = if kept = [] then front else front ++ '.' :: kept := by
  induction places using List.reverseRecOn with
  | nil => exact ⟨[], 0, rfl, by simp, by simp [stripFraction]⟩
  | append_singleton places c ih =>
    rw [List.mem_append, List.mem_singleton, not_or] at h
    by_cases hc : c = '0'
    · obtain ⟨kept, k, hplaces, hlast, hstrip⟩ := ih h.1
      refine ⟨kept, k + 1, ?_, hlast, ?_⟩
      · rw [hplaces, hc, List.append_assoc, ← List.replicate_succ']
      · rw [← hstrip, hc]
        simp [stripFraction]
    · refine ⟨places ++ [c], 0, by simp, by simpa using hc, ?_⟩
      have hdrop : (front ++ '.' :: (places ++ [c])).reverse.dropWhile (· = '0') =
          c :: (front ++ '.' :: places).reverse := by
        simp [hc]
      rw [stripFraction, hdrop, if_neg (by simp)]
      split
      · rename_i heq
        exact absurd (List.cons.inj heq).1.symm h.2
      · simp

theorem not_mem_signText_append {s : Bool} {digits : Text} (h : ∀ c ∈ digits, c.isDigit) :
    '.' ∉ signText s ++ digits := by
  intro hmem
  rcases List.mem_append.1 hmem with hmem | hmem
  · cases s <;> simp [signText] at hmem
  · exact absurd (h _ hmem) (by decide)

theorem plain_of_digits {d : Decimal} {s : Bool} {digits : Text}
    (h : ∀ c ∈ digits, c.isDigit) (hfixed : d.fixed = signText s ++ digits) :
    d.plain = signText s ++ digits := by
  have : ¬ d.fixed.contains '.' := by
    rw [hfixed, List.contains_iff_mem]
    exact not_mem_signText_append h
  rw [plain, if_neg this, hfixed]

theorem plain_of_nonneg (s : Bool) (c : Nat) {e : Int} (he : 0 ≤ e) : ∃ w,
    (finite s c e).plain = signText s ++ w ∧ IsPositional w (c * 10 ^ e.toNat) 0 := by
  obtain ⟨w, hfixed, hw⟩ := isPositional_fixed s c e
  rw [show (-e).toNat = 0 by omega] at hw
  refine ⟨w, plain_of_digits ?_ hfixed, hw⟩
  rw [hw.eq (isPositional_ofNat _)]
  exact fun _ => Text.isDigit_of_mem_ofNat

theorem plain_of_neg (s : Bool) (c : Nat) {e : Int} (he : e < 0) : ∃ w c' k,
    (finite s c e).plain = signText s ++ w ∧ IsPositional w c' k ∧ (k = 0 ∨ c' % 10 ≠ 0) ∧
    scaled c' (-(k : Int)) = scaled c e ∧ e ≤ -(k : Int) := by
  obtain ⟨front, back, hpoint, hfront, hlength, hdigits, hvalue⟩ :=
    withPoint_eq c (show (-e).toNat ≠ 0 by omega)
  have hfixed : (finite s c e).fixed = signText s ++ front ++ '.' :: back := by
    rw [fixed, if_neg (by omega), if_neg (by omega), hpoint, List.append_assoc]
  have hback : '.' ∉ back := by
    intro hmem
    exact absurd (hdigits '.' (List.mem_append_right _ hmem)) (by decide)
  obtain ⟨kept, k, rfl, hlast, hstrip⟩ := stripFraction_append (signText s ++ front) hback
  have hplain : (finite s c e).plain =
      if kept = [] then signText s ++ front else signText s ++ front ++ '.' :: kept := by
    rw [plain, if_pos (by simp [hfixed]), hfixed, hstrip]
  rw [← List.append_assoc] at hvalue hdigits
  rw [Text.toNat_append_zeros] at hvalue
  rw [List.length_append, List.length_replicate] at hlength
  have hkeptDigits : ∀ d ∈ front ++ kept, d.isDigit := fun d hd =>
    hdigits d (List.mem_append_left _ hd)
  have hscaled : scaled (Text.toNat (front ++ kept)) (-(kept.length : Int)) = scaled c e := by
    rw [← hvalue, scaled_mul_pow]
    congr 1
    omega
  have hw : IsPositional (front ++ pointed kept) (Text.toNat (front ++ kept)) kept.length :=
    .intro hfront fun d hd => hkeptDigits d (List.mem_append_right _ hd)
  refine ⟨_, _, _, ?_, hw, ?_, hscaled, by omega⟩
  · cases kept with
    | nil => simpa [pointed] using hplain
    | cons d kept => simpa [pointed] using hplain
  · by_cases hkept : kept = []
    · exact .inl (by rw [hkept, List.length_nil])
    · have hsome := List.getLast?_eq_some_getLast hkept
      refine .inr (Text.toNat_mod_ten hkeptDigits ?_ (hlast _ hsome))
      rw [List.getLast?_append, hsome, Option.some_or]

/-- **The plain text** of a finite decimal is its sign and its digits in place, with no zero at the
end of the places and no more places than its exponent tells. -/
theorem exists_plain_inPlace (s : Bool) (c : Nat) (e : Int) : ∃ w c' k,
    (finite s c e).plain = signText s ++ w ∧ IsPositional w c' k ∧ (k = 0 ∨ c' % 10 ≠ 0) ∧
    scaled c' (-(k : Int)) = scaled c e ∧ min e 0 ≤ -(k : Int) := by
  by_cases he : 0 ≤ e
  · obtain ⟨w, hplain, hw⟩ := plain_of_nonneg s c he
    refine ⟨w, _, 0, hplain, hw, .inl rfl, ?_, by omega⟩
    have hscaled := scaled_toNat c e
    rwa [show (-e).toNat = 0 by omega] at hscaled
  · obtain ⟨w, c', k, hplain, hw, hnormal, hscaled, hk⟩ := plain_of_neg s c (e := e) (by omega)
    exact ⟨w, c', k, hplain, hw, hnormal, hscaled, by omega⟩

theorem plain_eq (s : Bool) (c : Nat) (e : Int) : ∃ w c' k,
    (finite s c e).plain = signText s ++ w ∧ IsNumeral w c' k ∧
    scaled c' (-(k : Int)) = scaled c e ∧ min e 0 ≤ -(k : Int) := by
  obtain ⟨w, c', k, hplain, hw, -, hscaled, hle⟩ := exists_plain_inPlace s c e
  exact ⟨w, c', k, hplain, hw.isNumeral, hscaled, hle⟩

end Decimal

end DeskCalculator
