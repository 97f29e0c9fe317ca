import DeskCalculator.Decimal.Numeral
import Mathlib.Algebra.Ring.Nat
import Mathlib.Data.List.TakeDrop
import Mathlib.Data.List.TakeWhile

/-!
# Reading digits

A numeral of an expression is a row of digits, with or without a point among them. Reading it gives
the decimal with these digits and as many places as stand behind the point, if decimals reach so far
(`read?_of_whole`, `read?_of_pointed`).
-/

namespace DeskCalculator

/-! ## The digits of a whole number -/

namespace Text

theorem isDigit_of_mem_ofNat {n : Nat} {c : Char} (h : c ∈ ofNat n) : c.isDigit :=
  Nat.isDigit_of_mem_toDigits (by decide) (by decide) h

theorem ofNat_ne_nil (n : Nat) : ofNat n ≠ [] := Nat.toDigits_ne_nil

theorem toNat_ofNat (n : Nat) : toNat (ofNat n) = n := by
  simp [toNat, ofNat]

/-! ## Blanks at the ends -/

theorem dropWhile_eq_self {blank : Char → Bool} {t : Text} (h : ∀ c ∈ t, blank c = false) :
    t.dropWhile blank = t := by
  cases t with
  | nil => rfl
  | cons c t => simp [h c List.mem_cons_self]

theorem exists_trimBy (blank : Char → Bool) (t : Text) : ∃ front back,
    t = front ++ trimBy blank t ++ back ∧ (∀ c ∈ front, blank c) ∧ ∀ c ∈ back, blank c := by
  have hfront : t = t.takeWhile blank ++ t.dropWhile blank := List.takeWhile_append_dropWhile.symm
  generalize hrest : t.dropWhile blank = rest at hfront
  have hback : rest = (rest.reverse.dropWhile blank).reverse ++
      (rest.reverse.takeWhile blank).reverse := by
    rw [← List.reverse_append, List.takeWhile_append_dropWhile, List.reverse_reverse]
  refine ⟨t.takeWhile blank, (rest.reverse.takeWhile blank).reverse, ?_, ?_, ?_⟩
  · rw [trimBy, hrest, List.append_assoc, ← hback, ← hfront]
  · exact List.all_eq_true.1 List.all_takeWhile
  · intro c hc
    exact List.all_eq_true.1 List.all_takeWhile c (List.mem_reverse.1 hc)

theorem trimBy_between {blank : Char → Bool} {front t back : Text} (hfront : ∀ c ∈ front, blank c)
    (hback : ∀ c ∈ back, blank c) (h : ∀ c ∈ t, blank c = false) :
    trimBy blank (front ++ t ++ back) = t := by
  have hreverse : ∀ c ∈ t.reverse, blank c = false := by simpa using h
  have hdrop : (t ++ back).reverse.dropWhile blank = t.reverse := by
    rw [List.reverse_append, List.dropWhile_append_of_pos (by simpa using hback),
      dropWhile_eq_self hreverse]
  rw [trimBy, List.append_assoc, List.dropWhile_append_of_pos hfront]
  cases t with
  | nil =>
    have hnil : back.dropWhile blank = [] := List.dropWhile_eq_nil_iff.2 hback
    simp [hnil]
  | cons c t =>
    rw [List.cons_append, List.dropWhile_cons_of_neg (by simp [h c List.mem_cons_self]),
      ← List.cons_append, hdrop, List.reverse_reverse]

theorem trimBy_eq {blank : Char → Bool} {t : Text} (h : ∀ c ∈ t, blank c = false) :
    trimBy blank t = t := by
  have hnone : ∀ c ∈ ([] : Text), blank c := by simp
  simpa using trimBy_between hnone hnone h

end Text

namespace Decimal

/-! ## The characters of a numeral -/

/-- A character that stays when blanks and underscores are taken off. -/
def IsPlainPart (c : Char) : Prop := 0x20 < c.toNat ∧ c.toNat < 0x7F ∧ c ≠ '_'

instance (c : Char) : Decidable (IsPlainPart c) := inferInstanceAs (Decidable (_ ∧ _ ∧ _))

theorem isPlainPart_of_all {t : Text} (h : t.all (IsPlainPart ·)) : ∀ c ∈ t, IsPlainPart c :=
  fun c hc => of_decide_eq_true (List.all_eq_true.1 h c hc)

theorem IsPlainPart.isBlank {c : Char} (h : IsPlainPart c) : Text.isBlank c = false := by
  obtain ⟨hlow, hhigh, -⟩ := h
  simp [Text.isBlank, Text.isAsciiBlank, Text.isWideBlank]
  omega

def IsNumeralPart (c : Char) : Prop := c.isDigit ∨ c = '.'

theorem IsNumeralPart.toNat {c : Char} (h : IsNumeralPart c) : 46 ≤ c.toNat ∧ c.toNat ≤ 57 := by
  rcases h with h | rfl
  · simp only [Char.isDigit, ge_iff_le, Bool.and_eq_true, decide_eq_true_eq,
      UInt32.le_iff_toNat_le] at h
    change 48 ≤ c.toNat ∧ c.toNat ≤ 57 at h
    omega
  · decide

theorem IsNumeralPart.ne {c d : Char} (h : IsNumeralPart c) (hd : d.toNat < 46 ∨ 57 < d.toNat) :
    c ≠ d := by
  rintro rfl
  have := h.toNat
  omega

theorem IsNumeralPart.isPlainPart {c : Char} (h : IsNumeralPart c) : IsPlainPart c := by
  have := h.toNat
  exact ⟨by omega, by omega, h.ne (by decide)⟩

/-! ## Plain numerals -/

theorem mapM_eq_self {α : Type} {f : α → Option α} {l : List α} (h : ∀ a ∈ l, f a = some a) :
    l.mapM f = some l := by
  induction l with
  | nil => rfl
  | cons a l ih =>
    rw [List.mapM_cons, h a List.mem_cons_self, ih fun b hb => h b (List.mem_cons_of_mem _ hb)]
    rfl

theorem exists_of_mem_mapM {α β : Type} {f : α → Option β} {l : List α} {l' : List β} {a : α}
    (h : l.mapM f = some l') (ha : a ∈ l) : ∃ b ∈ l', f a = some b := by
  induction l generalizing l' with
  | nil => cases ha
  | cons first l ih =>
    rw [List.mapM_cons] at h
    obtain ⟨b, hb, h⟩ := Option.bind_eq_some_iff.1 h
    obtain ⟨rest, hrest, ⟨⟩⟩ := Option.bind_eq_some_iff.1 h
    rcases List.mem_cons.1 ha with rfl | ha
    · exact ⟨b, List.mem_cons_self, hb⟩
    · obtain ⟨b', hb', hf⟩ := ih hrest ha
      exact ⟨b', List.mem_cons_of_mem _ hb', hf⟩

theorem plainNumeral?_of_ascii {t : Text} (h : ∀ c ∈ Text.trim t, 0 < c.toNat ∧ c.toNat < 128) :
    plainNumeral? t = some ((Text.trim t).filter (· ≠ '_')) :=
  mapM_eq_self fun c hc => if_pos (h c (List.mem_filter.1 hc).1)

theorem cases_of_plainNumeral? {t plain : Text} {c : Char} (h : plainNumeral? t = some plain)
    (hc : c ∈ Text.trim t) : c = '_' ∨ c ∈ plain ∨ Text.isBlank c ∨ (Text.wideDigit? c).isSome := by
  by_cases hline : c = '_'
  · exact .inl hline
  · obtain ⟨d, hd, hread⟩ := exists_of_mem_mapM h (List.mem_filter.2 ⟨hc, by simpa using hline⟩)
    refine .inr ?_
    split at hread
    · cases hread
      exact .inl hd
    · split at hread
      · exact .inr (.inl (by assumption))
      · obtain ⟨n, hn, -⟩ := Option.map_eq_some_iff.1 hread
        exact .inr (.inr (Option.isSome_of_mem hn))

section Plain

variable {t : Text} (h : ∀ c ∈ t, IsPlainPart c)
include h

theorem trim_eq : Text.trim t = t := Text.trimBy_eq fun c hc => (h c hc).isBlank

theorem plainNumeral?_eq : plainNumeral? t = some t := by
  have hfilter : t.filter (· ≠ '_') = t :=
    List.filter_eq_self.2 fun c hc => by simpa using (h c hc).2.2
  rw [plainNumeral?_of_ascii, trim_eq h, hfilter]
  intro c hc
  obtain ⟨hlow, hhigh, -⟩ := h c (trim_eq h ▸ hc)
  omega

end Plain

theorem exists_head {P : Char → Prop} {t : Text} (h : ∀ c ∈ t, P c) (hne : t ≠ []) :
    ∃ c ∈ t.head?, P c := by
  cases t with
  | nil => exact absurd rfl hne
  | cons c t => exact ⟨c, rfl, h c List.mem_cons_self⟩

theorem readSign_append (s : Bool) {t : Text} (h : ∀ c ∈ t.head?, c ≠ '-' ∧ c ≠ '+') :
    readSign (signText s ++ t) = (s, t) := by
  cases s with
  | true => rfl
  | false =>
    cases t with
    | nil => rfl
    | cons c t =>
      obtain ⟨hminus, hplus⟩ := h c rfl
      show readSign (c :: t) = (false, c :: t)
      unfold readSign
      split
      · rename_i heq
        exact absurd (List.cons.inj heq).1 hminus
      · rename_i heq
        exact absurd (List.cons.inj heq).1 hplus
      · rfl

theorem ofPlainNumeral?_eq (s : Bool) {t : Text} (h : ∃ c ∈ t.head?, IsNumeralPart c) :
    ofPlainNumeral? (signText s ++ t) =
      (readFinite? t).bind fun (c, e) => if isStorable c e then some (finite s c e) else none := by
  obtain ⟨c, hhead, hc⟩ := h
  cases t with
  | nil => cases hhead
  | cons c t =>
    cases hhead
    have hsign : readSign (signText s ++ c :: t) = (s, c :: t) :=
      readSign_append s (by rintro _ ⟨⟩; exact ⟨hc.ne (by decide), hc.ne (by decide)⟩)
    have hlower : Text.lower (c :: t) = c :: Text.lower t := by
      have : ¬ 'A' ≤ c := by
        rw [Char.le_def, UInt32.le_iff_toNat_le]
        change ¬ 65 ≤ c.toNat
        have := hc.toNat
        omega
      simp [Text.lower, this]
    have hi : c ≠ 'i' := hc.ne (by decide)
    have hn : 'n' ≠ c := (hc.ne (by decide)).symm
    have hs : 's' ≠ c := (hc.ne (by decide)).symm
    simp [ofPlainNumeral?, hsign, hlower, Text.ofString, Text.startsWith, hi, hn, hs]

/-! ## Numerals -/

theorem isStorable_iff {c : Nat} {e : Int} :
    isStorable c e ↔ widest.tiny ≤ e ∧ leadingExponent c e ≤ widest.maxExponent := by
  have hzero : Numeral.digitCount 0 = 1 := by decide
  unfold isStorable leadingExponent
  by_cases hc : c = 0
  · simp [hc, hzero]
  · simp [hc]

theorem readDigits_append {digits rest : Text} (h : ∀ c ∈ digits, c.isDigit)
    (hrest : ∀ c ∈ rest.head?, c.isDigit = false) :
    readDigits (digits ++ rest) = (digits, rest) := by
  rw [readDigits, List.span_eq_takeWhile_dropWhile, List.takeWhile_append_of_pos h,
    List.dropWhile_append_of_pos h]
  cases rest with
  | nil => simp
  | cons c rest => simp [hrest c rfl]

/-- **A row of digits** is read as the whole number that it writes. -/
theorem read?_of_whole {digits : Text} (hne : digits ≠ []) (h : ∀ c ∈ digits, c.isDigit)
    (hstorable : isStorable (Text.toNat digits) 0) :
    read? digits = some (finite false (Text.toNat digits) 0) := by
  have hpart : ∀ c ∈ digits, IsNumeralPart c := fun c hc => .inl (h c hc)
  have hdigits : readDigits digits = (digits, []) := by
    simpa using @readDigits_append digits [] h (by simp)
  have hfinite : readFinite? digits = some (Text.toNat digits, 0) := by
    simp [readFinite?, hdigits, readFraction, readExponent?, hne]
  rw [read?, plainNumeral?_eq fun c hc => (hpart c hc).isPlainPart]
  show ofPlainNumeral? (signText false ++ digits) = _
  rw [ofPlainNumeral?_eq false (exists_head hpart hne), hfinite]
  simp [hstorable]

/-- **Digits around a point** are read as the number that all of them write, with the places behind
the point. -/
theorem read?_of_pointed {digits places : Text} (hne : digits ++ places ≠ [])
    (h : ∀ c ∈ digits ++ places, c.isDigit)
    (hstorable : isStorable (Text.toNat (digits ++ places)) (-(places.length : Int))) :
    read? (digits ++ '.' :: places) =
      some (finite false (Text.toNat (digits ++ places)) (-(places.length : Int))) := by
  have hpart : ∀ c ∈ digits ++ '.' :: places, IsNumeralPart c := by
    intro c hc
    rcases List.mem_append.1 hc with hc | hc
    · exact .inl (h c (List.mem_append_left _ hc))
    · rcases List.mem_cons.1 hc with rfl | hc
      · exact .inr rfl
      · exact .inl (h c (List.mem_append_right _ hc))
  have hdigits : readDigits (digits ++ '.' :: places) = (digits, '.' :: places) :=
    readDigits_append (fun c hc => h c (List.mem_append_left _ hc)) (by rintro _ ⟨⟩; rfl)
  have hplaces : readDigits places = (places, []) := by
    simpa using @readDigits_append places [] (fun c hc => h c (List.mem_append_right _ hc)) (by simp)
  have hfinite : readFinite? (digits ++ '.' :: places) =
      some (Text.toNat (digits ++ places), -(places.length : Int)) := by
    simp [readFinite?, hdigits, readFraction, hplaces, readExponent?] at hne ⊢
    exact hne
  rw [read?, plainNumeral?_eq fun c hc => (hpart c hc).isPlainPart]
  show ofPlainNumeral? (signText false ++ (digits ++ '.' :: places)) = _
  rw [ofPlainNumeral?_eq false (exists_head hpart (by simp)), hfinite]
  simp [hstorable]

end Decimal

end DeskCalculator
