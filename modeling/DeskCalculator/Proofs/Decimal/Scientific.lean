import DeskCalculator.Proofs.Decimal.Notation

/-!
# The scientific text of a decimal, read back

A decimal that fits the widest range of exponents is read from its scientific text again with all its
particulars (`read?_text`): the digits and the exponent of a finite one, the sign of zero, the payload
of a NaN. Nothing else can be read (`isStorable_of_read?`).
-/

namespace DeskCalculator.Decimal

variable {w rest : Text} {c k : Nat}

/-- A decimal that can be read from a text: a finite one fits the widest range of exponents. -/
def IsStorable : Decimal → Prop
  | finite _ c e => isStorable c e
  | _ => True

/-! ## Finite numerals -/

theorem readFraction_pointed {back : Text} (hback : ∀ c ∈ back, c.isDigit)
    (hrest : ∀ c ∈ rest.head?, c.isDigit = false ∧ c ≠ '.') :
    readFraction (pointed back ++ rest) = (back, rest) := by
  cases back with
  | nil =>
    cases rest with
    | nil => rfl
    | cons c rest =>
      show readFraction (c :: rest) = ([], c :: rest)
      unfold readFraction
      split
      · rename_i heq
        exact absurd (List.cons.inj heq).1 (hrest c rfl).2
      · rfl
  | cons c back => exact readDigits_append hback fun d hd => (hrest d hd).1

theorem readFinite?_of_isPositional (h : IsPositional w c k)
    (hrest : ∀ c ∈ rest.head?, c.isDigit = false ∧ c ≠ '.') :
    readFinite? (w ++ rest) = (readExponent? rest).map fun (e : Int) => (c, e - k) := by
  obtain @⟨front, back, hfront, hback⟩ := h
  have hdigits : readDigits (front ++ (pointed back ++ rest)) = (front, pointed back ++ rest) := by
    refine readDigits_append hfront.isDigit fun d hd => ?_
    cases back with
    | nil => exact (hrest d hd).1
    | cons c back =>
      cases hd
      rfl
  rw [List.append_assoc, readFinite?, hdigits]
  simp only [readFraction_pointed hback hrest]
  cases readExponent? rest <;> simp [hfront.ne_nil]

theorem allDigits?_ofNat (n : Nat) : allDigits? (Text.ofNat n) = some n := by
  have hall : (Text.ofNat n).all Char.isDigit :=
    List.all_eq_true.2 fun c => Text.isDigit_of_mem_ofNat
  rw [allDigits?, if_pos ⟨Text.ofNat_ne_nil n, hall⟩, Text.toNat_ofNat]

/-- What may stand behind the digits: nothing, or the exponent after its letter. -/
inductive IsExponent : Text → Int → Prop where
  | nil : IsExponent [] 0
  | marked {letter : Char} (h : letter = 'e' ∨ letter = 'E') (e : Int) :
    IsExponent (letter :: exponentText e) e

theorem IsExponent.read {e : Int} (h : IsExponent rest e) : readExponent? rest = some e := by
  cases h with
  | nil => rfl
  | marked hletter =>
    unfold exponentText
    split
    · have hneg : -(e.natAbs : Int) = e := by omega
      simp only [readExponent?, if_pos hletter, readSign, allDigits?_ofNat]
      exact congrArg some hneg
    · have hpos : (e.natAbs : Int) = e := by omega
      simp only [readExponent?, if_pos hletter, readSign, allDigits?_ofNat]
      exact congrArg some hpos

theorem IsExponent.head {e : Int} (h : IsExponent rest e) :
    ∀ d ∈ rest.head?, d.isDigit = false ∧ d ≠ '.' := by
  cases h with
  | nil => simp
  | marked hletter =>
    rintro _ ⟨⟩
    rcases hletter with rfl | rfl <;> decide

theorem IsPositional.isNumeralPart (h : IsPositional w c k) : ∀ d ∈ w, IsNumeralPart d := by
  obtain @⟨front, back, hfront, hback⟩ := h
  intro d hd
  rcases List.mem_append.1 hd with hd | hd
  · exact .inl (hfront.isDigit d hd)
  · cases back with
    | nil => cases hd
    | cons b back =>
      rcases List.mem_cons.1 hd with rfl | hd
      · exact .inr rfl
      · exact .inl (hback d hd)

theorem IsPositional.ne_nil (h : IsPositional w c k) : w ≠ [] := by
  obtain @⟨front, back, hfront, hback⟩ := h
  simp [hfront.ne_nil]

theorem isPlainPart_of_mem_signText {s : Bool} {c : Char} (h : c ∈ signText s) : IsPlainPart c := by
  cases s with
  | false => cases h
  | true =>
    rw [List.mem_singleton.1 h]
    decide

theorem isPlainPart_of_mem_ofNat {n : Nat} {c : Char} (h : c ∈ Text.ofNat n) : IsPlainPart c :=
  IsNumeralPart.isPlainPart (.inl (Text.isDigit_of_mem_ofNat h))

theorem IsExponent.isPlainPart {e : Int} (h : IsExponent rest e) : ∀ d ∈ rest, IsPlainPart d := by
  cases h with
  | nil => simp
  | @marked letter hletter =>
    have hplain : IsPlainPart letter := by rcases hletter with rfl | rfl <;> decide
    refine List.forall_mem_cons.2 ⟨hplain, ?_⟩
    unfold exponentText
    split <;> exact List.forall_mem_cons.2 ⟨by decide, fun d hd => isPlainPart_of_mem_ofNat hd⟩

/-- **A number in place** is read back, whether an exponent follows or not. -/
theorem read?_of_isPositional (s : Bool) {e : Int} (hw : IsPositional w c k)
    (hrest : IsExponent rest e) (h : isStorable c (e - k)) :
    read? (signText s ++ (w ++ rest)) = some (finite s c (e - k)) := by
  have hplain : ∀ d ∈ signText s ++ (w ++ rest), IsPlainPart d := by
    intro d hd
    rcases List.mem_append.1 hd with hd | hd
    · exact isPlainPart_of_mem_signText hd
    · rcases List.mem_append.1 hd with hd | hd
      · exact (hw.isNumeralPart d hd).isPlainPart
      · exact hrest.isPlainPart d hd
  have hfirst : ∃ d ∈ (w ++ rest).head?, IsNumeralPart d := by
    obtain ⟨d, hd, hpart⟩ := exists_head hw.isNumeralPart hw.ne_nil
    exact ⟨d, by simp [List.head?_append, Option.mem_def.1 hd], hpart⟩
  rw [read?, plainNumeral?_eq hplain]
  show ofPlainNumeral? (signText s ++ (w ++ rest)) = _
  rw [ofPlainNumeral?_eq s hfirst, readFinite?_of_isPositional hw hrest.head, hrest.read]
  simp [h]

/-- The text of a finite decimal without its sign: a number in place, and an exponent if need be. -/
theorem text_finite (s : Bool) (c : Nat) (e : Int) : ∃ w k rest,
    (finite s c e).text = signText s ++ (w ++ rest) ∧ IsPositional w c k ∧
    IsExponent rest (e + k) := by
  unfold text
  simp only
  split
  · refine ⟨_, _, [], by rw [List.append_nil], isPositional_withPoint c _, ?_⟩
    rw [show e + (-e).toNat = 0 by omega]
    exact .nil
  · have hlength : 0 < (Text.ofNat c).length := List.length_pos_iff.2 (Text.ofNat_ne_nil c)
    refine ⟨_, _, _, rfl, isPositional_withLeadingPoint c, ?_⟩
    rw [show e + ((Text.ofNat c).length - 1 : Nat) = e + (Text.ofNat c).length - 1 by omega]
    exact .marked (.inr rfl) _

theorem read?_finite (s : Bool) {c : Nat} {e : Int} (h : isStorable c e) :
    read? (finite s c e).text = some (finite s c e) := by
  obtain ⟨w, k, rest, htext, hw, hrest⟩ := text_finite s c e
  have hexponent : e + k - k = e := Int.add_sub_cancel e k
  rw [htext, read?_of_isPositional s hw hrest (hexponent.symm ▸ h), hexponent]

/-! ## Infinities and NaNs -/

theorem readPayload?_text (payload : Nat) :
    readPayload? (if payload = 0 then [] else Text.ofNat payload) = some payload := by
  by_cases h : payload = 0
  · rw [if_pos h, h]
    rfl
  · rw [if_neg h]
    match hdigits : Text.ofNat payload with
    | [] => exact absurd hdigits (Text.ofNat_ne_nil payload)
    | d :: digits =>
      rw [readPayload?, ← hdigits, allDigits?_ofNat]
      simp

theorem ofPlainNumeral?_nan (s : Bool) {digits : Text} {payload : Nat}
    (h : readPayload? digits = some payload) :
    ofPlainNumeral? (signText s ++ 'N' :: 'a' :: 'N' :: digits) = some (nan s false payload) := by
  have hlower : Text.lower ('N' :: 'a' :: 'N' :: digits) = 'n' :: 'a' :: 'n' :: Text.lower digits := rfl
  simp only [ofPlainNumeral?]
  rw [readSign_append s (by rintro _ ⟨⟩; decide), hlower, if_neg (by simp [Text.ofString]),
    if_pos (by simp [Text.startsWith, Text.ofString])]
  exact congrArg (Option.map (nan s false)) h

theorem ofPlainNumeral?_sNaN (s : Bool) {digits : Text} {payload : Nat}
    (h : readPayload? digits = some payload) :
    ofPlainNumeral? (signText s ++ 's' :: 'N' :: 'a' :: 'N' :: digits) =
      some (nan s true payload) := by
  have hlower : Text.lower ('s' :: 'N' :: 'a' :: 'N' :: digits) =
    's' :: 'n' :: 'a' :: 'n' :: Text.lower digits := rfl
  simp only [ofPlainNumeral?]
  rw [readSign_append s (by rintro _ ⟨⟩; decide), hlower, if_neg (by simp [Text.ofString]),
    if_neg (by simp [Text.startsWith, Text.ofString]),
    if_pos (by simp [Text.startsWith, Text.ofString])]
  exact congrArg (Option.map (nan s true)) h

theorem isPlainPart_special {s : Bool} {word digits : Text} (hword : ∀ c ∈ word, IsPlainPart c)
    (hdigits : ∀ c ∈ digits, IsPlainPart c) : ∀ c ∈ signText s ++ (word ++ digits), IsPlainPart c := by
  intro c hc
  rcases List.mem_append.1 hc with hc | hc
  · exact isPlainPart_of_mem_signText hc
  · exact (List.mem_append.1 hc).elim (hword c) (hdigits c)

theorem read?_infinite (s : Bool) : read? (infinite s).text = some (infinite s) := by
  cases s <;> decide

theorem read?_nan (s signaling : Bool) (payload : Nat) :
    read? (nan s signaling payload).text = some (nan s signaling payload) := by
  have hpayload := readPayload?_text payload
  have hdigits : ∀ c ∈ (if payload = 0 then [] else Text.ofNat payload), IsPlainPart c := by
    split
    · simp
    · exact fun c => isPlainPart_of_mem_ofNat
  show read? (signText s ++ Text.ofString (if signaling then "sNaN" else "NaN") ++
    if payload = 0 then [] else Text.ofNat payload) = _
  rw [read?, List.append_assoc]
  generalize (if payload = 0 then [] else Text.ofNat payload) = digits at hpayload hdigits ⊢
  cases signaling with
  | false =>
    rw [plainNumeral?_eq (isPlainPart_special (isPlainPart_of_all rfl) hdigits)]
    exact ofPlainNumeral?_nan s hpayload
  | true =>
    rw [plainNumeral?_eq (isPlainPart_special (isPlainPart_of_all rfl) hdigits)]
    exact ofPlainNumeral?_sNaN s hpayload

/-- **A decimal is read back** from its scientific text. -/
theorem read?_text {d : Decimal} (h : d.IsStorable) : read? d.text = some d := by
  cases d with
  | finite s c e => exact read?_finite s h
  | infinite s => exact read?_infinite s
  | nan s signaling payload => exact read?_nan s signaling payload

theorem isStorable_of_read? {t : Text} {d : Decimal} (h : read? t = some d) : d.IsStorable := by
  obtain ⟨plain, -, h⟩ := Option.bind_eq_some_iff.1 h
  unfold ofPlainNumeral? at h
  simp only at h
  split at h
  · cases h
    trivial
  · split at h
    · obtain ⟨_, -, rfl⟩ := Option.map_eq_some_iff.1 h
      trivial
    · split at h
      · obtain ⟨_, -, rfl⟩ := Option.map_eq_some_iff.1 h
        trivial
      · obtain ⟨⟨c, e⟩, -, h⟩ := Option.bind_eq_some_iff.1 h
        simp only at h
        split at h
        · rename_i hstorable
          cases h
          exact hstorable
        · cases h

end DeskCalculator.Decimal
