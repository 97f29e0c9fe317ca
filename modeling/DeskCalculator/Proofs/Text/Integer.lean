import DeskCalculator.Proofs.Decimal.Reading
import DeskCalculator.Proofs.Numeral.DigitCount

/-!
# Integers as text, read back

An integer that is not too long is read from its text again (`read?_ofInt`), and nothing that can be
read is too long (`not_isTooLong_of_read?`).
-/

namespace DeskCalculator.Text

variable {c : Char} {digits : Text} {n : Nat}

/-! ## Digits -/

theorem asciiDigit?_of_isDigit (h : c.isDigit) : digit? c = some (c.toNat - '0'.toNat) := by
  have : c.toNat < 128 := Nat.lt_of_le_of_lt (Decimal.IsNumeralPart.toNat (.inl h)).2 (by decide)
  rw [digit?, if_pos this, asciiDigit?, if_pos h]

theorem digit?_lt {d : Nat} (h : digit? c = some d) : d < 10 := by
  unfold digit? asciiDigit? wideDigit? at h
  split at h
  · split at h
    · rename_i hdigit
      have := Decimal.IsNumeralPart.toNat (.inl hdigit)
      cases h
      show c.toNat - 48 < 10
      omega
    · cases h
  · obtain ⟨z, hz, rfl⟩ := Option.map_eq_some_iff.1 h
    have := List.find?_some hz
    simp at this
    omega

theorem head_ofNat_ne (hn : n ≠ 0) : (ofNat n).head? ≠ some '0' := by
  have hdigit : ∀ d < 10, d ≠ 0 → Nat.digitChar d ≠ '0' := by decide
  unfold ofNat
  induction n using Nat.strongRecOn with
  | ind n ih =>
    by_cases hlt : n < 10
    · rw [Nat.toDigits_of_lt_base hlt]
      simpa using hdigit n hlt hn
    · rw [Nat.toDigits_of_base_le (by decide) (Nat.le_of_not_lt hlt), List.head?_append,
        Option.or_of_isSome (by simp)]
      exact ih (n / 10) (by omega) (by omega)

theorem length_ofNat_le_iff {k : Nat} (hk : 0 < k) : (ofNat n).length ≤ k ↔ n < 10 ^ k :=
  Nat.length_toDigits_le_iff (by decide) hk

theorem ofInt_eq (n : Int) : ofInt n = Decimal.signText (n < 0) ++ ofNat n.natAbs := by
  cases n with
  | ofNat n => simp [ofInt, Decimal.signText]
  | negSucc n => simp [ofInt, Decimal.signText, Int.negSucc_lt_zero]

namespace Integer

/-! ## Reading digits -/

theorem digits?_true (h : ∀ c ∈ digits, c.isDigit) :
    digits? true digits = some (digits.map fun c => c.toNat - '0'.toNat) := by
  induction digits with
  | nil => rfl
  | cons c digits ih =>
    have hc : c ≠ '_' := by
      rintro rfl
      exact absurd (h _ List.mem_cons_self) (by decide)
    rw [digits?.eq_def]
    split
    · contradiction
    · rename_i heq
      exact absurd (List.cons.inj heq).1 hc
    · rename_i heq
      obtain ⟨rfl, rfl⟩ := List.cons.inj heq
      rw [asciiDigit?_of_isDigit (h _ List.mem_cons_self),
        ih fun d hd => h d (List.mem_cons_of_mem _ hd)]
      rfl

theorem readDigits?_of_isDigit (hne : digits ≠ []) (h : ∀ c ∈ digits, c.isDigit)
    (hlength : digits.length ≤ maxDigits) : readDigits? digits = some (toNat digits) := by
  have hfirst : digits? false digits = digits? true digits := by
    cases digits with
    | nil => exact absurd rfl hne
    | cons c digits =>
      have hc : c ≠ '_' := by
        rintro rfl
        exact absurd (h _ List.mem_cons_self) (by decide)
      simp [digits?]
  rw [readDigits?, hfirst, digits?_true h]
  simp only [Option.bind_eq_bind, Option.bind_some, List.length_map, if_pos hlength]
  rw [ofDigits, List.foldl_map, toNat, Nat.ofDigitChars_eq_foldl]

theorem isDigit_digits? {afterDigit : Bool} {t : Text} {ds : List Nat}
    (h : digits? afterDigit t = some ds) : ∀ d ∈ ds, d < 10 := by
  induction t generalizing afterDigit ds with
  | nil =>
    rw [digits?] at h
    split at h <;> cases h
    simp
  | cons c t ih =>
    rw [digits?.eq_def] at h
    split at h
    · contradiction
    · split at h
      · rename_i heq _
        obtain ⟨-, rfl⟩ := List.cons.inj heq
        exact ih h
      · cases h
    · rename_i heq
      obtain ⟨rfl, rfl⟩ := List.cons.inj heq
      obtain ⟨d, hd, h⟩ := Option.bind_eq_some_iff.1 h
      obtain ⟨ds, hds, h⟩ := Option.bind_eq_some_iff.1 h
      cases h
      exact List.forall_mem_cons.2 ⟨digit?_lt hd, ih hds⟩

theorem foldl_lt {ds : List Nat} (h : ∀ d ∈ ds, d < 10) (n : Nat) :
    ds.foldl (fun n d => 10 * n + d) n < (n + 1) * 10 ^ ds.length := by
  induction ds generalizing n with
  | nil => simp
  | cons d ds ih =>
    obtain ⟨hd, hds⟩ := List.forall_mem_cons.1 h
    calc ds.foldl (fun n d => 10 * n + d) (10 * n + d)
        < (10 * n + d + 1) * 10 ^ ds.length := ih hds _
      _ ≤ (10 * (n + 1)) * 10 ^ ds.length := Nat.mul_le_mul_right _ (by omega)
      _ = (n + 1) * 10 ^ (ds.length + 1) := by rw [Nat.pow_succ']; ac_rfl

theorem readDigits?_lt {t : Text} (h : readDigits? t = some n) : n < 10 ^ maxDigits := by
  obtain ⟨ds, hds, h⟩ := Option.bind_eq_some_iff.1 h
  split at h
  · rename_i hlength
    cases h
    calc ofDigits ds < (0 + 1) * 10 ^ ds.length := foldl_lt (isDigit_digits? hds) 0
      _ = 10 ^ ds.length := by rw [Nat.zero_add, Nat.one_mul]
      _ ≤ 10 ^ maxDigits := Nat.pow_le_pow_right (by decide) hlength
  · cases h

/-! ## Integers -/

theorem trimBy_of_isPlainPart {t : Text} (h : ∀ c ∈ t, Decimal.IsPlainPart c) :
    trimBy (fun c => isAsciiBlank c || isWideBlank c) t = t := by
  refine trimBy_eq fun c hc => ?_
  have hblank := (h c hc).isBlank
  simp only [isBlank, Bool.or_eq_false_iff] at hblank ⊢
  exact ⟨hblank.1.1, hblank.2⟩

/-- **An integer is read back** from its text. -/
theorem read?_ofInt {z : Int} (h : ¬ isTooLong z) : read? (ofInt z) = some z := by
  have hlt : z.natAbs < 10 ^ maxDigits := Nat.lt_of_not_le fun hle => h (isTooLong_iff.2 hle)
  have hdigit : ∀ c ∈ ofNat z.natAbs, c.isDigit := fun c => isDigit_of_mem_ofNat
  have hdigits : readDigits? (ofNat z.natAbs) = some z.natAbs := by
    rw [readDigits?_of_isDigit (ofNat_ne_nil _) hdigit ((length_ofNat_le_iff (by decide)).2 hlt),
      toNat_ofNat]
  have hplain : ∀ c ∈ ofInt z, Decimal.IsPlainPart c := by
    rw [ofInt_eq]
    intro c hc
    rcases List.mem_append.1 hc with hc | hc
    · unfold Decimal.signText at hc
      split at hc
      · rw [List.mem_singleton.1 hc]
        decide
      · cases hc
    · exact Decimal.IsNumeralPart.isPlainPart (.inl (hdigit c hc))
  rw [read?, trimBy_of_isPlainPart hplain, ofInt_eq]
  by_cases hneg : z < 0
  · simp only [hneg, decide_true, Decimal.signText, if_true, List.singleton_append, hdigits]
    show some (-(z.natAbs : Int)) = some z
    congr 1
    omega
  · simp only [hneg, decide_false, Decimal.signText, Bool.false_eq_true, if_false, List.nil_append]
    split
    · rename_i heq
      exact absurd (hdigit _ (heq ▸ List.mem_cons_self)) (by decide)
    · rename_i heq
      exact absurd (hdigit _ (heq ▸ List.mem_cons_self)) (by decide)
    · rw [hdigits, Option.map_some]
      congr 1
      exact Int.natAbs_of_nonneg (Int.not_lt.1 hneg)

/-- **What is read is not too long.** -/
theorem not_isTooLong_of_read? {t : Text} {z : Int} (h : read? t = some z) : ¬ isTooLong z := by
  have hlt : ∃ t' n, readDigits? t' = some n ∧ z.natAbs = n := by
    unfold read? at h
    split at h
    · obtain ⟨_, hcast, rfl⟩ := Option.map_eq_some_iff.1 h
      obtain ⟨n, hn, ⟨⟩⟩ := Option.bind_eq_some_iff.1 hcast
      exact ⟨_, n, hn, Int.natAbs_neg _⟩
    · obtain ⟨n, hn, rfl⟩ := Option.map_eq_some_iff.1 h
      exact ⟨_, n, hn, Int.natAbs_natCast n⟩
    · obtain ⟨n, hn, rfl⟩ := Option.map_eq_some_iff.1 h
      exact ⟨_, n, hn, Int.natAbs_natCast n⟩
  obtain ⟨t', n, hn, hz⟩ := hlt
  have := readDigits?_lt hn
  rw [isTooLong_iff, hz]
  omega

end Integer

end DeskCalculator.Text
