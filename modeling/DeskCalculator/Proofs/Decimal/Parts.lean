import DeskCalculator.Proofs.Decimal.Plain
import DeskCalculator.Proofs.Decimal.Whole
import DeskCalculator.Proofs.Expression.Lexing

/-!
# The parts of a numeral

A text that is read as a finite decimal consists of a sign, digits in place and an exponent, the
first and the last of which may be missing, once its blanks and underscores are off and its digits
are ASCII ones (`isFiniteNumeral_of_ofPlainNumeral?`). There is one lemma for each part.
-/

namespace DeskCalculator.Decimal

variable {t sign w rest : Text} {s : Bool} {c k : Nat} {e x : Int}

/-- A sign before a number, if there is one, and whether it is a minus. -/
inductive IsSign : Text → Bool → Prop where
  | none : IsSign [] false
  | plus : IsSign ['+'] false
  | minus : IsSign ['-'] true

/-- What may stand behind the digits: nothing, or a letter and an integer with any zeros. -/
inductive IsScale : Text → Int → Prop where
  | nil : IsScale [] 0
  | marked {letter : Char} {sign digits : Text} {s : Bool} : letter = 'e' ∨ letter = 'E' →
      IsSign sign s → digits ≠ [] → (∀ d ∈ digits, d.isDigit) →
      IsScale (letter :: (sign ++ digits)) (signed s (Text.toNat digits))

/-- A finite numeral and the decimal that it writes. -/
inductive IsFiniteNumeral : Text → Decimal → Prop where
  | mk {sign w rest : Text} {s : Bool} {c k : Nat} {x : Int} : IsSign sign s → IsNumeral w c k →
      IsScale rest x → IsFiniteNumeral (sign ++ (w ++ rest)) (finite s c (x - k))

/-! ## Reading the parts -/

theorem exists_sign_of_readSign (t : Text) :
    ∃ sign, IsSign sign (readSign t).1 ∧ t = sign ++ (readSign t).2 := by
  unfold readSign
  split
  · exact ⟨['-'], .minus, rfl⟩
  · exact ⟨['+'], .plus, rfl⟩
  · exact ⟨[], .none, rfl⟩

theorem readDigits_eq (t : Text) :
    t = (readDigits t).1 ++ (readDigits t).2 ∧ ∀ d ∈ (readDigits t).1, d.isDigit := by
  rw [readDigits, List.span_eq_takeWhile_dropWhile]
  exact ⟨List.takeWhile_append_dropWhile.symm, List.all_eq_true.1 List.all_takeWhile⟩

theorem isScale_of_readExponent? (h : readExponent? t = some x) : IsScale t x := by
  unfold readExponent? at h
  split at h
  · cases h
    exact .nil
  · rename_i letter rest
    split at h
    · rename_i hletter
      obtain ⟨sign, hsign, hrest⟩ := exists_sign_of_readSign rest
      generalize readSign rest = front at h hsign hrest
      obtain ⟨negative, digits⟩ := front
      obtain ⟨_, hread, rfl⟩ := Option.map_eq_some_iff.1 h
      obtain ⟨n, hn, ⟨⟩⟩ := Option.bind_eq_some_iff.1 hread
      unfold allDigits? at hn
      split at hn
      · rename_i hdigits
        cases hn
        rw [hrest]
        exact .marked hletter hsign hdigits.1 (List.all_eq_true.1 hdigits.2)
      · cases hn
    · cases h

theorem readFraction_cases (t : Text) : readFraction t = ([], t) ∨
    ∃ places rest, t = '.' :: (places ++ rest) ∧ readFraction t = (places, rest) ∧
      ∀ d ∈ places, d.isDigit := by
  unfold readFraction
  split
  · rename_i rest
    obtain ⟨hrest, hdigits⟩ := readDigits_eq rest
    exact .inr ⟨_, _, congrArg _ hrest, rfl, hdigits⟩
  · exact .inl rfl

theorem exists_numeral_of_readFinite? (h : readFinite? t = some (c, e)) :
    ∃ w rest k x, t = w ++ rest ∧ IsNumeral w c k ∧ IsScale rest x ∧ e = x - (k : Int) := by
  obtain ⟨ht, hwhole⟩ := readDigits_eq t
  unfold readFinite? at h
  generalize readDigits t = front at ht hwhole h
  obtain ⟨whole, rest⟩ := front
  dsimp only at ht hwhole
  rcases readFraction_cases rest with hnone | ⟨places, rest', rfl, hplaces, hdigits⟩
  · simp only [hnone, List.append_nil] at h
    obtain ⟨x, hx, h⟩ := Option.bind_eq_some_iff.1 h
    split at h
    · cases h
    · rename_i hne
      cases h
      exact ⟨whole, rest, 0, x, ht, .whole hne hwhole, isScale_of_readExponent? hx, rfl⟩
  · simp only [hplaces] at h
    obtain ⟨x, hx, h⟩ := Option.bind_eq_some_iff.1 h
    split at h
    · cases h
    · rename_i hne
      cases h
      refine ⟨whole ++ '.' :: places, rest', _, x, by simp [ht], .pointed hne fun d hd => ?_,
        isScale_of_readExponent? hx, rfl⟩
      exact (List.mem_append.1 hd).elim (hwhole d) (hdigits d)

/-- **A finite decimal is read from a finite numeral only**, and from one that writes it. -/
theorem isFiniteNumeral_of_ofPlainNumeral? (h : ofPlainNumeral? t = some (finite s c e)) :
    IsFiniteNumeral t (finite s c e) ∧ isStorable c e := by
  obtain ⟨sign, hsign, ht⟩ := exists_sign_of_readSign t
  unfold ofPlainNumeral? at h
  generalize readSign t = front at hsign ht h
  obtain ⟨negative, rest⟩ := front
  simp only at hsign ht h
  split at h
  · cases h
  · split at h
    · simp at h
    · split at h
      · simp at h
      · obtain ⟨⟨c, e⟩, hread, h⟩ := Option.bind_eq_some_iff.1 h
        simp only at h
        split at h
        · rename_i hstorable
          cases h
          obtain ⟨w, rest', k, x, rfl, hw, hrest, rfl⟩ := exists_numeral_of_readFinite? hread
          exact ⟨ht ▸ .mk hsign hw hrest, hstorable⟩
        · cases h

/-! ## The characters of a numeral -/

def IsFiniteNumeralPart (d : Char) : Prop :=
  d.isDigit ∨ d = '.' ∨ d = '+' ∨ d = '-' ∨ d = 'e' ∨ d = 'E'

instance (d : Char) : Decidable (IsFiniteNumeralPart d) := inferInstanceAs (Decidable (_ ∨ _))

theorem IsFiniteNumeralPart.isPlainPart {d : Char} (h : IsFiniteNumeralPart d) : IsPlainPart d := by
  rcases h with h | rfl | rfl | rfl | rfl | rfl
  · exact IsNumeralPart.isPlainPart (.inl h)
  all_goals decide

theorem IsSign.parts (h : IsSign sign s) : ∀ d ∈ sign, IsFiniteNumeralPart d := by
  cases h <;> simp [IsFiniteNumeralPart]

theorem IsNumeral.parts (h : IsNumeral w c k) : ∀ d ∈ w, IsFiniteNumeralPart d := by
  intro d hd
  have hpart := Token.isNumberPart_of_isWrittenAs h.isWrittenAs d hd
  simp only [Token.isNumberPart, Bool.or_eq_true, beq_iff_eq] at hpart
  exact hpart.imp_right fun hpoint => by simp [hpoint]

theorem IsScale.parts (h : IsScale rest x) : ∀ d ∈ rest, IsFiniteNumeralPart d := by
  cases h with
  | nil => simp
  | marked hletter hsign _ hdigits =>
    refine List.forall_mem_cons.2 ⟨?_, fun d hd => ?_⟩
    · rcases hletter with rfl | rfl <;> simp [IsFiniteNumeralPart]
    · exact (List.mem_append.1 hd).elim (hsign.parts d) fun hd => .inl (hdigits d hd)

theorem IsFiniteNumeral.parts {d : Decimal} (h : IsFiniteNumeral t d) :
    ∀ a ∈ t, IsFiniteNumeralPart a := by
  obtain ⟨hsign, hw, hrest⟩ := h
  intro a ha
  simp only [List.mem_append] at ha
  exact ha.elim (hsign.parts a) (Or.rec (hw.parts a) (hrest.parts a))

end DeskCalculator.Decimal
