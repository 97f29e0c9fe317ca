import DeskCalculator.Proofs.Expression.Tiling
import Mathlib.Data.List.Forall2

/-!
# Scanning what has been scanned

What a scan finds can be written down and scanned again: the lexemes one after the other, with
blanks between them, are scanned into the same lexemes, for whether a minus negates only depends on
the lexeme before it (`isSome_placement_of_scanFrom`). Nor does it matter to a scan whether letters
are capitals (`scanFrom_lower`) and signs typographic. `scan_rewritten` says all of this of whole
texts.
-/

namespace DeskCalculator

/-- A text that lists lexemes, with one blank or more between neighbours. A negation is listed as a
minus. -/
inductive Lexeme.Lists : List Lexeme → Text → Prop where
  | nil : Lists [] []
  | singleton (l : Lexeme) : Lists [l] l.unsigned.text
  | cons {l m : Lexeme} {ls : List Lexeme} {blanks rest : Text} : blanks ≠ [] →
      (∀ c ∈ blanks, Text.isAsciiBlank c) → Lists (m :: ls) rest →
      Lists (l :: m :: ls) (l.unsigned.text ++ (blanks ++ rest))

namespace Text

/-- The second text is the first one with some letters made capitals and some signs typographic. -/
def Rewrites (t u : Text) : Prop :=
  t.Forall₂ (fun c d => d = c ∨ d = c.toUpper ∨ Token.plainSign d = c) u

/-! ## Small letters and capitals -/

/-- What holds of the ASCII characters and of those beyond them holds of all. -/
theorem forall_char {P : Char → Prop} (hascii : ∀ n < 128, P (Char.ofNat n))
    (hbeyond : ∀ c : Char, 128 ≤ c.toNat → P c) (c : Char) : P c := by
  by_cases hc : c.toNat < 128
  · rw [← Char.ofNat_toNat c]
    exact hascii c.toNat hc
  · exact hbeyond c (Nat.le_of_not_lt hc)

theorem casing_of_beyond {c : Char} (h : 128 ≤ c.toNat) : c.toLower = c ∧ c.toUpper = c := by
  have hval : c.val.toNat = c.toNat := rfl
  constructor
  · refine dif_neg fun hcapital => ?_
    have := UInt32.le_iff_toNat_le.1 hcapital.2
    simp at this
    omega
  · refine dif_neg fun hsmall => ?_
    have := UInt32.le_iff_toNat_le.1 hsmall.2
    simp at this
    omega

section Casing

variable {α : Type} {f : Char → α}

theorem congr_toLower (h : ∀ n < 128, f (Char.ofNat n).toLower = f (Char.ofNat n)) (c : Char) :
    f c.toLower = f c :=
  forall_char (P := fun c => f c.toLower = f c) h
    (fun _ hc => congrArg f (casing_of_beyond hc).1) c

theorem congr_toUpper (h : ∀ n < 128, f (Char.ofNat n).toUpper = f (Char.ofNat n)) (c : Char) :
    f c.toUpper = f c :=
  forall_char (P := fun c => f c.toUpper = f c) h
    (fun _ hc => congrArg f (casing_of_beyond hc).2) c

end Casing

theorem toLower_of_not_isAlpha {c : Char} : ¬ c.isAlpha → c.toLower = c :=
  forall_char (P := fun c => ¬ c.isAlpha → c.toLower = c) (by decide +kernel)
    (fun _ hc _ => (casing_of_beyond hc).1) c

theorem lower_eq_map (t : Text) : lower t = t.map Char.toLower := by
  refine List.map_congr_left fun c _ => ?_
  refine forall_char
    (P := fun c => (if 'A' ≤ c ∧ c ≤ 'Z' then Char.ofNat (c.toNat + 32) else c) = c.toLower)
    (by decide +kernel) (fun c hc => ?_) c
  have hbeyond : ¬ c ≤ 'Z' := fun hle => by
    have : c.toNat ≤ 'Z'.toNat := UInt32.le_iff_toNat_le.1 hle
    simp at this
    omega
  rw [(casing_of_beyond hc).1, if_neg fun hcapital => hbeyond hcapital.2]

@[simp] theorem lower_lower (t : Text) : lower (lower t) = lower t := by
  rw [lower_eq_map, lower_eq_map, List.map_map]
  exact List.map_congr_left fun c _ => congr_toLower (f := Char.toLower) (by decide +kernel) c

theorem lower_cons (c : Char) (t : Text) : lower (c :: t) = c.toLower :: lower t := by
  simp [lower_eq_map]

@[simp] theorem length_lower (t : Text) : (lower t).length = t.length := List.length_map _

end Text

namespace Token

section Classes

variable (c : Char)

theorem isNameStart_toLower : isNameStart c.toLower = isNameStart c :=
  Text.congr_toLower (by decide +kernel) c

theorem isNumberPart_toLower : isNumberPart c.toLower = isNumberPart c :=
  Text.congr_toLower (by decide +kernel) c

theorem isNamePart_toLower : isNamePart c.toLower = isNamePart c :=
  Text.congr_toLower (by decide +kernel) c

end Classes

theorem isName_lower {c : Char} {rest : Text} (hc : isNameStart c)
    (hrest : ∀ d ∈ rest, isNamePart d) :
    isNameStart c.toLower ∧ ∀ d ∈ Text.lower rest, isNamePart d := by
  refine ⟨(isNameStart_toLower c).trans hc, fun d hd => ?_⟩
  rw [Text.lower_eq_map] at hd
  obtain ⟨b, hb, rfl⟩ := List.mem_map.1 hd
  exact (isNamePart_toLower b).trans (hrest b hb)

/-! ## Capitals -/

section Capitals

variable {position : Nat} {c : Char} {rest : Text}

theorem takeWhile_lower {p : Char → Bool} (h : ∀ c, p (Char.toLower c) = p c) (t : Text) :
    (Text.lower t).takeWhile p = Text.lower (t.takeWhile p) := by
  rw [Text.lower_eq_map, Text.lower_eq_map, List.takeWhile_map, funext (f := p ∘ Char.toLower) h]

theorem ofName_lower (name : Text) : ofName (Text.lower name) = ofName name := by
  simp [ofName]

theorem first_lower (position : Nat) (c : Char) (rest : Text) :
    first position c.toLower (Text.lower rest) = first position c rest := by
  by_cases hname : isNameStart c
  · have hlower : isNameStart c.toLower := (isNameStart_toLower c).trans hname
    have hrun : c.toLower :: (Text.lower rest).takeWhile isNamePart =
        Text.lower (c :: rest.takeWhile isNamePart) := by
      rw [takeWhile_lower isNamePart_toLower, Text.lower_cons]
    simp only [first, isNumberPart_of_isNameStart, hname, hlower, Bool.false_eq_true, if_false,
      if_true, hrun, ofName_lower, Text.length_lower]
  · have hrun : (Text.lower rest).takeWhile isNumberPart = rest.takeWhile isNumberPart := by
      rw [takeWhile_lower isNumberPart_toLower,
        lower_of_isNumberPart (List.all_eq_true.1 List.all_takeWhile)]
    rw [Text.toLower_of_not_isAlpha hname]
    simp only [first, hname, hrun, Bool.false_eq_true, if_false]

/-- **Capitals** do not matter to a scan. -/
theorem scanFrom_lower (t : Text) : ∀ (position : Nat) (previous : Option Lexeme) (skip : Nat),
    scanFrom position previous skip (Text.lower t) = scanFrom position previous skip t := by
  induction t with
  | nil => exact fun _ _ _ => rfl
  | cons c rest ih =>
    intro position previous skip
    rw [Text.lower_cons]
    cases skip with
    | succ skip => exact ih _ _ _
    | zero =>
      have hfirst := first_lower position c rest
      cases hfound : first position c rest with
      | error p => rw [scanFrom_of_error hfound, scanFrom_of_error (hfirst.trans hfound)]
      | ok found =>
        obtain ⟨lexeme, more⟩ := found
        cases lexeme with
        | none => rw [scanFrom_of_none hfound, scanFrom_of_none (hfirst.trans hfound), ih]
        | some l => rw [scanFrom_of_some hfound, scanFrom_of_some (hfirst.trans hfound), ih]

end Capitals

theorem plainSign_plainSign (c : Char) : plainSign (plainSign c) = plainSign c :=
  forall_plainSign (P := fun c d => plainSign d = plainSign c) rfl rfl rfl (fun _ => rfl) c

theorem toLower_plainSign_of_rewrites {c d : Char}
    (h : d = c ∨ d = c.toUpper ∨ plainSign d = c) :
    (plainSign d).toLower = (plainSign c).toLower := by
  rcases h with rfl | rfl | rfl
  · rfl
  · exact Text.congr_toUpper (f := fun c => (plainSign c).toLower) (by decide +kernel) c
  · rw [plainSign_plainSign]

theorem scan_of_rewrites {t u : Text} (h : t.Rewrites u) : scan u = scan t := by
  have hsame : Text.lower (u.map plainSign) = Text.lower (t.map plainSign) := by
    rw [Text.lower_eq_map, Text.lower_eq_map, List.map_map, List.map_map]
    induction h with
    | nil => rfl
    | cons hc _ ih =>
      rw [List.map_cons, List.map_cons, ih]
      exact congrArg (· :: _) (toLower_plainSign_of_rewrites hc)
  rw [scan, scan, ← scanFrom_lower, hsame, scanFrom_lower]

/-! ## Lexemes in their places -/

theorem ne_negate_of_first {position more : Nat} {c : Char} {rest : Text} {l : Lexeme}
    (h : first position c rest = .ok (some l, more)) : l ≠ .operator .negate := by
  unfold first at h
  split at h
  · simp only at h
    split at h <;> cases h
    nofun
  · split at h
    · cases h
      unfold ofName
      simp only
      split <;> nofun
    · split at h
      · cases h
      · split at h
        · rename_i l' hsign
          cases h
          revert hsign
          unfold ofSign?
          split <;> rintro ⟨⟩ <;> nofun
        · cases h

theorem fits_inPlace {l : Lexeme} (hl : l ≠ .operator .negate) (previous : Option Lexeme) :
    (inPlace previous l).fits (previous.all Lexeme.beforeOperand) := by
  unfold inPlace
  split
  · rename_i hminus
    simp [Lexeme.fits, hminus.2]
  · rename_i hminus
    unfold Lexeme.fits
    split
    · contradiction
    · simpa using hminus
    · rfl

theorem isSome_placement_of_scanFrom {position skip : Nat} {previous : Option Lexeme} {t : Text}
    {tokens : List Token} (h : scanFrom position previous skip t = .ok tokens) :
    (Lexeme.placement (previous.all Lexeme.beforeOperand) (tokens.map Token.lexeme)).isSome := by
  fun_induction scanFrom position previous skip t generalizing tokens with
  | case1 => cases h; rfl
  | case2 _ _ _ _ _ ih => exact ih h
  | case3 => cases h
  | case4 _ _ _ _ _ _ ih => exact ih h
  | case5 => simp_all
  | case6 =>
    rename_i hfirst _ _ htokens ih
    cases h
    rw [List.map_cons, Lexeme.placement, if_pos (fits_inPlace (ne_negate_of_first hfirst) _)]
    exact ih htokens

end Token

/-! ## Listing lexemes -/

theorem Lexeme.IsWrittenAs.listed {l : Lexeme} {word : Text} (h : l.IsWrittenAs word) :
    l.IsWrittenAs l.unsigned.text := by
  cases h with
  | whole hne hdigits => exact .whole hne hdigits
  | pointed hne hdigits => exact .pointed hne hdigits
  | constant hc hrest hname =>
    obtain ⟨hstart, hparts⟩ := Token.isName_lower hc hrest
    have hsmall := IsWrittenAs.constant hstart hparts
    rw [← Text.lower_cons, Text.lower_lower] at hsmall
    exact hsmall hname
  | function hc hrest hname =>
    obtain ⟨hstart, hparts⟩ := Token.isName_lower hc hrest
    have hsmall := IsWrittenAs.function hstart hparts
    rw [← Text.lower_cons, Text.lower_lower] at hsmall
    exact hsmall hname
  | @sign _ c hc =>
    obtain ⟨d, hd, htext⟩ : ∃ d ∈ l.signs, l.unsigned.text = [d] := by
      cases l with
      | operator s | postfixed s =>
        cases s <;> first | exact ⟨_, List.mem_cons_self, rfl⟩ | cases hc
      | opening | closing | comma => exact ⟨_, List.mem_cons_self, rfl⟩
      | _ => cases hc
    rw [htext]
    exact .sign hd

theorem Spells.blanks_append {ls : List Lexeme} {blanks t : Text}
    (hblank : ∀ c ∈ blanks, Text.isAsciiBlank c) (h : Spells ls t) : Spells ls (blanks ++ t) := by
  have hall {more : Text} (hmore : ∀ c ∈ more, Text.isAsciiBlank c) :
      ∀ c ∈ blanks ++ more, Text.isAsciiBlank c := by
    intro c hc
    exact (List.mem_append.1 hc).elim (hblank c) (hmore c)
  cases h with
  | nil hmore => exact .nil (hall hmore)
  | cons hmore hword hrest hspells =>
    rw [← List.append_assoc, ← List.append_assoc]
    exact .cons (hall hmore) hword hrest hspells

theorem Lexeme.Lists.spells {ls : List Lexeme} {u : Text} (h : Lexeme.Lists ls u)
    (hwritten : ∀ l ∈ ls, ∃ word, l.IsWrittenAs word) : Spells ls u := by
  induction h with
  | nil => exact .nil (by simp)
  | singleton l =>
    obtain ⟨word, hword⟩ := hwritten l List.mem_cons_self
    have hnil : Spells [] [] := .nil (by simp)
    simpa using @Spells.cons l [] [] _ [] (by simp) hword.listed (by simp) hnil
  | @cons l m ls blanks rest hne hblank _ ih =>
    rw [List.forall_mem_cons] at hwritten
    obtain ⟨⟨word, hword⟩, hrest⟩ := hwritten
    have hends : ∀ c ∈ (blanks ++ rest).head?, l.goesOnWith c = false := by
      obtain ⟨b, blanks, rfl⟩ := List.exists_cons_of_ne_nil hne
      rintro _ ⟨⟩
      obtain ⟨hnumber, hname⟩ := Token.classes_of_isAsciiBlank (hblank b List.mem_cons_self)
      cases l <;> first | exact hnumber | exact hname | rfl
    have hspells := (ih hrest).blanks_append hblank
    exact @Spells.cons l (m :: ls) [] _ _ (by simp) hword.listed hends hspells

/-- **Scanning again.** The lexemes of a text, listed with blanks between them, are scanned into the
same lexemes; and the text scans into the same tokens when letters are made capitals and signs
typographic. -/
theorem Token.scan_rewritten {t : Text} {tokens : List Token} (h : Token.scan t = .ok tokens) :
    (∀ u, Lexeme.Lists (tokens.map Token.lexeme) u →
      ∃ again, Token.scan u = .ok again ∧ again.map Token.lexeme = tokens.map Token.lexeme) ∧
    ∀ u, t.Rewrites u → Token.scan u = .ok tokens := by
  have hplace := isSome_placement_of_scanFrom h
  have hwritten : ∀ l ∈ tokens.map Token.lexeme, ∃ word, l.IsWrittenAs word := by
    intro l hl
    obtain ⟨token, htoken, rfl⟩ := List.mem_map.1 hl
    obtain ⟨-, word, hword⟩ := (tiles_of_scanFrom (Nat.zero_le _) h).stands rfl token htoken
    exact ⟨word, hword.written⟩
  exact ⟨fun u hu => scan_of_spells hplace (hu.spells hwritten),
    fun u hu => (scan_of_rewrites hu).trans h⟩

/-- In `2*-sin 30` the second sign negates. It still does when the lexemes are listed and when the
text is written with capitals, a cross and a typographic minus. -/
theorem Token.scan_rewritten_negation :
    let tokens : List Token := [⟨.number ['2'], 0⟩, ⟨.operator .times, 1⟩, ⟨.operator .negate, 2⟩,
      ⟨.function ['s', 'i', 'n'], 3⟩, ⟨.number ['3', '0'], 7⟩]
    let t : Text := ['2', '*', '-', 's', 'i', 'n', ' ', '3', '0']
    Token.scan t = .ok tokens ∧
      (∃ again,
        Token.scan ['2', ' ', '*', '\t', ' ', '-', ' ', 's', 'i', 'n', '\n', '3', '0'] = .ok again ∧
        again.map Token.lexeme = tokens.map Token.lexeme) ∧
      Token.scan ['2', '×', '−', 'S', 'i', 'N', ' ', '3', '0'] = .ok tokens := by
  intro tokens t
  have hscan : Token.scan t = .ok tokens := rfl
  obtain ⟨hlists, hrewrites⟩ := Token.scan_rewritten hscan
  refine ⟨hscan, hlists _ ?_, hrewrites _ ?_⟩
  · refine @Lexeme.Lists.cons _ _ _ [' '] _ (by simp) (by simp [Text.isAsciiBlank]) ?_
    refine @Lexeme.Lists.cons _ _ _ ['\t', ' '] _ (by simp) (by simp [Text.isAsciiBlank]) ?_
    refine @Lexeme.Lists.cons _ _ _ [' '] _ (by simp) (by simp [Text.isAsciiBlank]) ?_
    exact @Lexeme.Lists.cons _ _ _ ['\n'] _ (by simp) (by simp [Text.isAsciiBlank]) (.singleton _)
  · unfold Text.Rewrites
    decide

end DeskCalculator
