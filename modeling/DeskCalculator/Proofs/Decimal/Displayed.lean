import DeskCalculator.Proofs.Decimal.Representable
import DeskCalculator.Proofs.Decimal.Scientific
import DeskCalculator.Value.Display

/-!
# Displayed texts, read back

A text of the display is read without the commas that group its digits. Whatever the notation, it
reads as a decimal of the number that was written (`readDisplayed?_exponential`,
`exists_readDisplayed?_fixed`, `readDisplayed?_group`), as long as decimals reach so far.
-/

namespace DeskCalculator

namespace Text

theorem filter_comma_eq_self {t : Text} (h : ',' ∉ t) : t.filter (· ≠ ',') = t :=
  List.filter_eq_self.2 fun _ hc => decide_eq_true (ne_of_mem_of_not_mem hc h)

theorem filter_comma_go {digits : Text} (h : ',' ∉ digits) :
    (group.go digits).filter (· ≠ ',') = digits := by
  fun_induction group.go digits with
  | case1 a b c d rest ih =>
    rw [List.mem_cons, List.mem_cons, List.mem_cons, not_or, not_or, not_or] at h
    obtain ⟨ha, hb, hc, hrest⟩ := h
    have hkept : [a, b, c].filter (· ≠ ',') = [a, b, c] :=
      filter_comma_eq_self (by simp [ha, hb, hc])
    show ([a, b, c] ++ ',' :: group.go (d :: rest)).filter (· ≠ ',') = [a, b, c] ++ d :: rest
    rw [List.filter_append, hkept, List.filter_cons_of_neg (by simp), ih hrest]
  | case2 short => exact filter_comma_eq_self h

theorem filter_comma_group {digits : Text} (h : ',' ∉ digits) :
    (group digits).filter (· ≠ ',') = digits := by
  rw [group, List.filter_reverse, filter_comma_go (by simpa using h), List.reverse_reverse]

end Text

namespace Decimal

variable {w rest : Text} {c k : Nat} {e : Int}

def readDisplayed? (t : Text) : Option Decimal := read? (t.filter (· ≠ ','))

theorem filter_comma_signText (s : Bool) (t : Text) :
    (signText s ++ t).filter (· ≠ ',') = signText s ++ t.filter (· ≠ ',') := by
  cases s <;> rfl

theorem comma_not_mem_ofNat (n : Nat) : ',' ∉ Text.ofNat n := fun h =>
  absurd (Text.isDigit_of_mem_ofNat h) (by decide)

theorem IsPositional.comma_not_mem (h : IsPositional w c k) : ',' ∉ w := fun hmem =>
  (h.isNumeralPart _ hmem).ne (by decide) rfl

theorem IsExponent.comma_not_mem (h : IsExponent rest e) : ',' ∉ rest := by
  cases h with
  | nil => simp
  | marked hletter =>
    unfold exponentText
    split <;> rcases hletter with rfl | rfl <;> simp [comma_not_mem_ofNat]

theorem readDisplayed?_of_isPositional (s : Bool) (hw : IsPositional w c k)
    (hrest : IsExponent rest e) (h : isStorable c (e - k)) :
    readDisplayed? (signText s ++ (w ++ rest)) = some (finite s c (e - k)) := by
  have hcomma : ',' ∉ w ++ rest := by
    rw [List.mem_append, not_or]
    exact ⟨hw.comma_not_mem, hrest.comma_not_mem⟩
  rw [readDisplayed?, filter_comma_signText, Text.filter_comma_eq_self hcomma]
  exact read?_of_isPositional s hw hrest h

theorem readDisplayed?_inPlace (s : Bool) (hw : IsPositional w c k) (h : isStorable c (-k)) :
    readDisplayed? (signText s ++ w) = some (finite s c (-k)) := by
  have hread := readDisplayed?_of_isPositional s hw .nil ((Int.zero_sub k).symm ▸ h)
  rwa [List.append_nil, Int.zero_sub] at hread

/-- **Grouped digits.** -/
theorem readDisplayed?_group (s : Bool) {n : Nat} (h : isStorable n 0) :
    readDisplayed? (signText s ++ Text.group (Text.ofNat n)) = some (finite s n 0) := by
  have hread := readDisplayed?_inPlace s (isPositional_ofNat n) h
  rw [readDisplayed?, filter_comma_signText] at hread ⊢
  rwa [Text.filter_comma_group (comma_not_mem_ofNat n),
    ← Text.filter_comma_eq_self (comma_not_mem_ofNat n)]

/-- **One digit before the point.** -/
theorem readDisplayed?_exponential (s : Bool) (h : isStorable c e) :
    readDisplayed? (finite s c e).exponential = some (finite s c e) := by
  have hlength : 0 < (Text.ofNat c).length := List.length_pos_iff.2 (Text.ofNat_ne_nil c)
  have hexponent : e + (Text.ofNat c).length - 1 - ((Text.ofNat c).length - 1 : Nat) = e := by omega
  have hread := readDisplayed?_of_isPositional s (isPositional_withLeadingPoint c)
    (.marked (.inl rfl) (e + (Text.ofNat c).length - 1)) (hexponent.symm ▸ h)
  rwa [hexponent, ← List.append_assoc] at hread

/-- **All digits in place.** Zeros before the point make the coefficient longer. -/
theorem exists_readDisplayed?_fixed (s : Bool) (hc : c ≠ 0) (h : isStorable c e) : ∃ c' e',
    readDisplayed? (finite s c e).fixed = some (finite s c' e') ∧ scaled c' e' = scaled c e := by
  obtain ⟨w, hfixed, hw⟩ := isPositional_fixed s c e
  have hscaled := scaled_toNat c e
  have hne : c * 10 ^ e.toNat ≠ 0 := Nat.mul_ne_zero hc (by positivity)
  have hstorable : isStorable (c * 10 ^ e.toNat) (-((-e).toNat : Int)) := by
    have htiny : widest.tiny ≤ 0 := by decide
    rw [isStorable_iff] at h ⊢
    rw [leadingExponent_eq hne hscaled]
    omega
  exact ⟨_, _, hfixed ▸ readDisplayed?_inPlace s hw hstorable, hscaled⟩

theorem exists_readDisplayed?_positionalOrExponential (s : Bool) (hc : c ≠ 0)
    (h : isStorable c e) : ∃ c' e',
    readDisplayed? (finite s c e).positionalOrExponential = some (finite s c' e') ∧
      scaled c' e' = scaled c e := by
  unfold positionalOrExponential
  simp only
  split
  · exact exists_readDisplayed?_fixed s hc h
  · exact ⟨c, e, readDisplayed?_exponential s h, rfl⟩

end Decimal

end DeskCalculator
