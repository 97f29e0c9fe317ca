import DeskCalculator.Json.Reader
import DeskCalculator.Json.Writer
import DeskCalculator.Proofs.Decimal.Notation
import DeskCalculator.Proofs.Double.Shortest

/-!
# Numbers in JSON

A number is read back as it was written, if what follows cannot belong to it: an integer that is not
too long (`readNumber_ofNat`), and a double in the canonical form (`readNumber_text`), whose text has
a point or an exponent and the digits of `Double.shortest`.
-/

namespace DeskCalculator.Json

open Decimal (IsPositional pointed signText scaled)

variable {s : Bool} {w rest : Text} {c k : Nat} {e : Int}

/-! ## Parts of a number -/

/-- What cannot belong to a number before it. -/
def EndsNumber (rest : Text) : Prop :=
  ∀ c ∈ rest.head?, c.isDigit = false ∧ c ≠ '.' ∧ c ≠ 'e' ∧ c ≠ 'E'

theorem readWhole_append {front : Text} (hfront : front.IsWhole)
    (hrest : ∀ c ∈ rest.head?, c.isDigit = false) :
    readWhole (front ++ rest) = some (front, rest) := by
  have hspan : (front ++ rest).span Char.isDigit = (front, rest) :=
    Decimal.readDigits_append hfront.isDigit hrest
  cases front with
  | nil => exact absurd rfl hfront.ne_nil
  | cons c front =>
    by_cases hc : c = '0'
    · subst hc
      obtain ⟨-, rfl⟩ := List.cons.inj (hfront.head.resolve_right (by simp))
      rfl
    · rw [List.cons_append] at hspan ⊢
      rw [readWhole.eq_def]
      split
      · rename_i heq
        exact absurd (List.cons.inj heq).1 hc
      · rename_i heq
        obtain ⟨rfl, rfl⟩ := List.cons.inj heq
        rw [if_pos (hfront.isDigit c List.mem_cons_self), hspan]
      · contradiction

theorem readFraction_pointed {back : Text} (hback : ∀ c ∈ back, c.isDigit)
    (hrest : ∀ c ∈ rest.head?, c.isDigit = false ∧ c ≠ '.') :
    readFraction (pointed back ++ rest) = if back = [] then none else some (back, rest) := by
  cases back with
  | nil =>
    cases rest with
    | nil => rfl
    | cons c rest =>
      rw [if_pos rfl]
      show readFraction (c :: rest) = none
      rw [readFraction.eq_def]
      split
      · rename_i heq
        exact absurd (List.cons.inj heq).1 (hrest c rfl).2
      · rfl
  | cons c back =>
    have hspan : (c :: back ++ rest).span Char.isDigit = (c :: back, rest) :=
      Decimal.readDigits_append hback fun d hd => (hrest d hd).1
    rw [if_neg (by simp)]
    show readFraction ('.' :: (c :: back ++ rest)) = _
    simp only [readFraction, hspan]

theorem readExponent_of_endsNumber (hrest : EndsNumber rest) : readExponent rest = none := by
  cases rest with
  | nil => rfl
  | cons c rest =>
    obtain ⟨-, -, he, hE⟩ := hrest c rfl
    exact if_neg (by simp [he, hE])

theorem readExponent_sign {digits : Text} (s : Bool) (hne : digits ≠ []) (h : ∀ c ∈ digits, c.isDigit)
    (hrest : ∀ c ∈ rest.head?, c.isDigit = false) :
    readExponent ('e' :: (if s then '-' else '+') :: (digits ++ rest)) =
      some (if s then -(Text.toNat digits : Int) else Text.toNat digits, rest) := by
  have hspan : (digits ++ rest).span Char.isDigit = (digits, rest) :=
    Decimal.readDigits_append h hrest
  cases digits with
  | nil => exact absurd rfl hne
  | cons d digits =>
    cases s <;> simp only [readExponent, hspan, true_or, if_true, Bool.false_eq_true, if_false]

theorem readExponent_exponentText (e : Int) (hrest : ∀ c ∈ rest.head?, c.isDigit = false) :
    readExponent ('e' :: (Double.exponentText e ++ rest)) = some (e, rest) := by
  let digits := List.replicate (2 - (Text.ofNat e.natAbs).length) '0' ++ Text.ofNat e.natAbs
  have hne : digits ≠ [] := by simp [digits, Text.ofNat_ne_nil]
  have hdigits : ∀ c ∈ digits, c.isDigit := fun c hc =>
    (List.mem_append.1 hc).elim Text.isDigit_of_mem_zeros Text.isDigit_of_mem_ofNat
  have hvalue : Text.toNat digits = e.natAbs := by
    rw [Text.toNat_zeros_append, Text.toNat_ofNat]
  have hread := readExponent_sign (decide (e < 0)) hne hdigits hrest
  rw [hvalue] at hread
  simp only [decide_eq_true_eq] at hread
  refine hread.trans (congrArg (fun n => some (n, rest)) ?_)
  split <;> omega

/-! ## Whole numbers -/

theorem readNumber_ofNat {n : Nat} (hn : n < 10 ^ Text.Integer.maxDigits) (s : Bool)
    (hrest : EndsNumber rest) : readNumber s (Text.ofNat n ++ rest) =
      some (integer (if s then -(n : Int) else n), rest) := by
  have hwhole := readWhole_append (Text.isWhole_ofNat n) fun c hc => (hrest c hc).1
  have hfraction : readFraction rest = none :=
    @readFraction_pointed rest [] (by simp) fun c hc => ⟨(hrest c hc).1, (hrest c hc).2.1⟩
  have hlength : (Text.ofNat n).length ≤ Text.Integer.maxDigits :=
    (Text.length_ofNat_le_iff (by decide)).2 hn
  simp only [readNumber, hwhole, hfraction, readExponent_of_endsNumber hrest, hlength, if_true,
    Text.toNat_ofNat, Option.bind_eq_bind, Option.bind_some]
  rfl

/-! ## Numbers with a point or an exponent -/

theorem readNumber_places (h : IsPositional w c k) (hk : k ≠ 0) (s : Bool)
    (hrest : EndsNumber rest) : readNumber s (w ++ rest) =
      some (number (Double.ofScientific s c (-(k : Int))), rest) := by
  obtain @⟨front, back, hfront, hback⟩ := h
  have hne : back ≠ [] := by simpa using hk
  have hfraction := readFraction_pointed hback fun c hc => ⟨(hrest c hc).1, (hrest c hc).2.1⟩
  rw [if_neg hne] at hfraction
  have hwhole : readWhole (front ++ (pointed back ++ rest)) = some (front, pointed back ++ rest) := by
    refine readWhole_append hfront ?_
    cases back with
    | nil => exact absurd rfl hne
    | cons d back => rintro _ ⟨⟩; rfl
  simp only [List.append_assoc, readNumber, hwhole, hfraction, readExponent_of_endsNumber hrest,
    Option.bind_eq_bind, Option.bind_some, Option.getD_some, Option.getD_none, Int.zero_sub]
  rfl

theorem readNumber_exponent (h : IsPositional w c k) (s : Bool) (e : Int)
    (hrest : ∀ c ∈ rest.head?, c.isDigit = false) :
    readNumber s (w ++ 'e' :: (Double.exponentText e ++ rest)) =
      some (number (Double.ofScientific s c (e - k)), rest) := by
  obtain @⟨front, back, hfront, hback⟩ := h
  have hfraction := @readFraction_pointed ('e' :: (Double.exponentText e ++ rest)) _ hback
    (by rintro _ ⟨⟩; decide)
  have hwhole := @readWhole_append (pointed back ++ 'e' :: (Double.exponentText e ++ rest)) _ hfront
    (by cases back <;> rintro _ ⟨⟩ <;> rfl)
  simp only [List.append_assoc, readNumber, hwhole, hfraction, Option.bind_eq_bind, Option.bind_some]
  by_cases hne : back = []
  · subst hne
    simp only [if_true, pointed, List.nil_append, readExponent_exponentText e hrest]
    simp
  · simp only [hne, if_false, readExponent_exponentText e hrest]
    simp

/-! ## The text of a double -/

theorem isPositional_zeros (hc : c ≠ 0) (k : Nat) :
    IsPositional (Text.ofNat c ++ List.replicate k '0' ++ ['.', '0']) (c * 10 ^ (k + 1)) 1 := by
  have hfront : (Text.ofNat c ++ List.replicate k '0').IsWhole :=
    .append (Text.head_ofNat_ne hc) (Text.ofNat_ne_nil c) (fun _ => Text.isDigit_of_mem_ofNat)
      fun _ => Text.isDigit_of_mem_zeros
  have hvalue : Text.toNat (Text.ofNat c ++ List.replicate k '0' ++ ['0']) = c * 10 ^ (k + 1) := by
    rw [List.append_assoc, ← List.replicate_succ', Text.toNat_append_zeros, Text.toNat_ofNat]
  exact .of_eq hfront (List.all_eq_true.1 rfl) hvalue

theorem readNumber_digitsText (hc : c ≠ 0) (s : Bool) (hrest : EndsNumber rest) :
    ∃ c' e', readNumber s (Double.digitsText c e ++ rest) =
        some (number (Double.ofScientific s c' e'), rest) ∧
      scaled c' e' = scaled c e ∧ min e (-1) ≤ e' := by
  have hhead : ∀ d ∈ rest.head?, d.isDigit = false := fun d hd => (hrest d hd).1
  unfold Double.digitsText
  simp only
  split
  · split
    · rename_i he
      refine ⟨_, _, readNumber_places (isPositional_zeros hc e.toNat) (by decide) s hrest, ?_,
        by omega⟩
      rw [Decimal.scaled_mul_pow]
      congr 1
      push_cast
      omega
    · refine ⟨_, _, readNumber_places (Decimal.isPositional_withPoint c (-e).toNat) (by omega) s hrest,
        ?_, by omega⟩
      congr 1
      omega
  · rw [List.append_assoc, List.cons_append]
    have hlength : 0 < (Text.ofNat c).length := List.length_pos_iff.2 (Text.ofNat_ne_nil c)
    refine ⟨_, _, readNumber_exponent (Decimal.isPositional_withLeadingPoint c) s _ hhead, ?_,
      by omega⟩
    congr 1
    omega

theorem text_of_ne_zero {m : Nat} (hm0 : m ≠ 0) (s : Bool) (q : Int) :
    ∃ digits, digits = Double.shortest (.finite s m q) ∧
      ∃ stripped, stripped = Double.stripZeros digits.1 digits.2 ∧
      (Double.finite s m q).text = signText s ++ Double.digitsText stripped.1 stripped.2 := by
  refine ⟨_, rfl, _, rfl, ?_⟩
  rw [Double.text, if_neg hm0]

/-- **The text of a double** in the canonical form is read as the same double. -/
theorem exists_text {m : Nat} {q : Int} (hm : Double.IsNormal m q) (s : Bool) :
    ∃ w, (Double.finite s m q).text = signText s ++ w ∧
      ∀ rest, EndsNumber rest → readNumber s (w ++ rest) = some (number (.finite s m q), rest) := by
  by_cases hm0 : m = 0
  · have hq : q = Double.minExponent := hm.le_or_eq.resolve_left (by omega)
    subst hm0 hq
    have hzero : IsPositional ['0', '.', '0'] 0 1 :=
      @IsPositional.intro ['0'] ['0'] (Text.isWhole_singleton rfl) (List.all_eq_true.1 rfl)
    exact ⟨_, rfl, fun rest hrest => readNumber_places hzero (by decide) s hrest⟩
  · obtain ⟨digits, hdigits, stripped, hstripped, htext⟩ := text_of_ne_zero hm0 s q
    have hback : Double.ReadsBack m q digits := hdigits ▸ Double.shortest_readsBack hm hm0 s
    have hscaled : scaled stripped.1 stripped.2 = scaled digits.1 digits.2 :=
      hstripped ▸ Double.scaled_stripZeros digits.1 digits.2
    refine ⟨_, htext, fun rest hrest => ?_⟩
    obtain ⟨c, e, hread, hscaled', he⟩ :=
      readNumber_digitsText (hback.ne_zero hm0 hscaled) s hrest
    rw [hread, hback.ofScientific_eq (hscaled'.trans hscaled)]

/-! ## Numbers as values -/

theorem isDigit_head_of_readNumber {t : Text} {r : Json × Text} (h : readNumber s t = some r) :
    ∃ c ∈ t.head?, c.isDigit := by
  obtain ⟨whole, hwhole, -⟩ := Option.bind_eq_some_iff.1 h
  cases t with
  | nil => cases hwhole
  | cons c t =>
    refine ⟨c, rfl, ?_⟩
    rw [readWhole.eq_def] at hwhole
    split at hwhole
    · rename_i heq
      rw [(List.cons.inj heq).1]
      rfl
    · rename_i heq
      obtain ⟨rfl, -⟩ := List.cons.inj heq
      by_contra hdigit
      rw [if_neg hdigit] at hwhole
      cases hwhole
    · contradiction

theorem readValue_of_readNumber {t : Text} {r : Json × Text} (h : readNumber s t = some r)
    (fuel : Nat) : readValue (fuel + 1) (signText s ++ t) = some r := by
  obtain ⟨c, hc, hdigit⟩ := isDigit_head_of_readNumber h
  cases t with
  | nil => cases hc
  | cons d t =>
    cases hc
    have hne : ∀ d, d.isDigit = false → d ≠ c := by
      rintro d hd rfl
      rw [hdigit] at hd
      cases hd
    have hI := hne 'I' rfl
    cases s with
    | true =>
      show readValue (fuel + 1) ('-' :: c :: t) = some r
      simp only [readValue]
      split <;> simp_all
    | false =>
      show readValue (fuel + 1) (c :: t) = some r
      simp only [readValue]
      split <;> simp_all

end DeskCalculator.Json
