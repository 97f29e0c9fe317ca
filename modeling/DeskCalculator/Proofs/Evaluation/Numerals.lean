import DeskCalculator.Proofs.Decimal.Displayed
import DeskCalculator.Proofs.Decimal.Parts
import DeskCalculator.Proofs.Evaluation.Continuation
import DeskCalculator.Proofs.Evaluation.Words
import DeskCalculator.Proofs.Expression.Rescanning
import DeskCalculator.Proofs.Expression.Splicing

/-!
# Numerals that have a value

A text may be read as a decimal and also be evaluated. Where both succeed the text has no commas and
no underscores, and its digits are ASCII ones, so that it is a numeral with blanks around it
(`Evaluation.exists_numeral`). An expression has no exponents, and `e` is a constant in it: a
numeral with an exponent only has a value where it reads as a sum, behind a plus
(`Evaluation.tree_cases`).
-/

namespace DeskCalculator

open Decimal

/-! ## What a text that is read consists of -/

namespace Decimal

/-- A character of a numeral, or one that does not count or is made plain when it is read. -/
def IsTypedPart (a : Char) : Prop :=
  a = ',' ∨ a = '_' ∨ Text.isBlank a ∨ (Text.wideDigit? a).isSome ∨ IsFiniteNumeralPart a

instance (a : Char) : Decidable (IsTypedPart a) := inferInstanceAs (Decidable (_ ∨ _))

theorem isTypedPart_of_read? {t : Text} {s : Bool} {c : Nat} {x : Int}
    (h : read? (Text.trim (t.filter (· ≠ ','))) = some (finite s c x)) :
    ∀ a ∈ t, IsTypedPart a := by
  obtain ⟨plain, hplain, hread⟩ := Option.bind_eq_some_iff.1 h
  have hparts := (isFiniteNumeral_of_ofPlainNumeral? hread).1.parts
  have htrim {t : Text} {a : Char} (h : a ∈ t) : Text.isBlank a ∨ a ∈ Text.trim t := by
    obtain ⟨front, back, heq, hfront, hback⟩ := Text.exists_trimBy Text.isBlank t
    rw [heq, List.mem_append, List.mem_append] at h
    rcases h with (h | h) | h
    · exact .inl (hfront a h)
    · exact .inr h
    · exact .inl (hback a h)
  intro a ha
  by_cases hcomma : a = ','
  · exact .inl hcomma
  have hkept : a ∈ t.filter (· ≠ ',') := List.mem_filter.2 ⟨ha, by simpa using hcomma⟩
  refine .inr ?_
  rcases htrim hkept with hblank | ha
  · exact .inr (.inl hblank)
  rcases htrim ha with hblank | ha
  · exact .inr (.inl hblank)
  rcases cases_of_plainNumeral? hplain ha with hline | hmem | hblank | hwide
  · exact .inl hline
  · exact .inr (.inr (.inr (hparts a hmem)))
  · exact .inr (.inl hblank)
  · exact .inr (.inr (.inl hwide))

theorem IsFiniteNumeral.trim_eq {front w back : Text} {d : Decimal} (hw : IsFiniteNumeral w d)
    (hfront : ∀ a ∈ front, Text.isAsciiBlank a) (hback : ∀ a ∈ back, Text.isAsciiBlank a) :
    Text.trim (front ++ w ++ back) = w := by
  have hblank {a : Char} (ha : Text.isAsciiBlank a) : Text.isBlank a := by simp [Text.isBlank, ha]
  exact Text.trimBy_between (fun a ha => hblank (hfront a ha)) (fun a ha => hblank (hback a ha))
    fun a ha => (hw.parts a ha).isPlainPart.isBlank

theorem exists_trim_of_classes {t : Text} (h : ∀ a ∈ t, Text.isAsciiBlank a ∨ IsPlainPart a) :
    ∃ front back, t = front ++ Text.trim t ++ back ∧ (∀ a ∈ front, Text.isAsciiBlank a) ∧
      ∀ a ∈ back, Text.isAsciiBlank a := by
  obtain ⟨front, back, ht, hfront, hback⟩ := Text.exists_trimBy Text.isBlank t
  have hblank {a : Char} (ha : a ∈ t) (hblank : Text.isBlank a) : Text.isAsciiBlank a :=
    (h a ha).resolve_right fun hpart => by simp [hpart.isBlank] at hblank
  refine ⟨front, back, ht, fun a ha => hblank ?_ (hfront a ha), fun a ha => hblank ?_ (hback a ha)⟩
  · rw [ht]
    exact List.mem_append_left _ (List.mem_append_left _ ha)
  · rw [ht]
    exact List.mem_append_right _ ha

theorem plainNumeral?_of_classes {t : Text} (h : ∀ a ∈ t, Text.isAsciiBlank a ∨ IsPlainPart a) :
    plainNumeral? t = some (Text.trim t) := by
  have hline : ¬ Text.isAsciiBlank '_' := by decide
  have hsub : Text.trim t ⊆ t := by
    obtain ⟨front, back, ht, -⟩ := exists_trim_of_classes h
    intro a ha
    rw [ht]
    exact List.mem_append_left _ (List.mem_append_right _ ha)
  rw [plainNumeral?_of_ascii, List.filter_eq_self.2]
  · intro a ha
    rcases h a (hsub ha) with hblank | hpart
    · simpa using fun heq : a = '_' => hline (heq ▸ hblank)
    · simpa using hpart.2.2
  · intro a ha
    rcases h a (hsub ha) with hblank | ⟨hlow, hhigh, -⟩
    · simp only [Text.isAsciiBlank, Bool.or_eq_true, Bool.and_eq_true, beq_iff_eq,
        decide_eq_true_eq] at hblank
      omega
    · omega

end Decimal

namespace Evaluation

variable {desk : Desk} {t : Text} {v : Value} {tokens : List Token} {e : Tree} {s : Bool} {c : Nat}
  {x : Int}

/-- A text that is read without its commas and has a value has none, nor other characters that do
not stand for themselves. -/
theorem classes_of_read? (h : Evaluation desk t v tokens e)
    (hread : read? (Text.trim (t.filter (· ≠ ','))) = some (finite s c x)) :
    ',' ∉ t ∧ ∀ a ∈ t, Text.isAsciiBlank a ∨ IsPlainPart a := by
  have hparts := isTypedPart_of_read? hread
  have hsigns : ¬ IsTypedPart '×' ∧ ¬ IsTypedPart '÷' ∧ ¬ IsTypedPart '−' ∧ ¬ IsTypedPart '(' := by
    decide
  have hmap : t.map Token.plainSign = t := by
    refine (List.map_congr_left fun a ha => ?_).trans (List.map_id' t)
    rcases Token.plainSign_cases a with ⟨hsign, -⟩ | hself
    · refine absurd (hparts a ha) ?_
      rcases hsign with rfl | rfl | rfl <;> simp [hsigns]
    · exact hself
  have hcomma := h.comma_not_mem
  have hline := h.underscore_not_mem
  have hprintable := @h.blank_or_printable
  rw [hmap] at hcomma hline hprintable
  refine ⟨hcomma fun hopening => hsigns.2.2.2 (hparts '(' hopening), fun a ha => ?_⟩
  refine (hprintable ha).imp_right ?_
  rintro ⟨hlow, hhigh⟩
  exact ⟨hlow, hhigh, fun heq => hline (heq ▸ ha)⟩

/-- **A numeral with blanks around it** is all that is read as a decimal, its commas dropped, and
has a value too. -/
theorem exists_numeral (h : Evaluation desk t v tokens e)
    (hread : read? (Text.trim (t.filter (· ≠ ','))) = some (finite s c x)) :
    ∃ front w back, t = front ++ w ++ back ∧ (∀ a ∈ front, Text.isAsciiBlank a) ∧
      (∀ a ∈ back, Text.isAsciiBlank a) ∧ IsFiniteNumeral w (finite s c x) ∧ isStorable c x := by
  obtain ⟨hcomma, hclasses⟩ := h.classes_of_read? hread
  rw [Text.filter_comma_eq_self hcomma] at hread
  -- the blanks go twice, here and when the rest is read
  obtain ⟨front, back, ht, hfront, hback⟩ := exists_trim_of_classes hclasses
  generalize Text.trim t = u at ht hread
  have hclasses : ∀ a ∈ u, Text.isAsciiBlank a ∨ IsPlainPart a := fun a ha =>
    hclasses a (ht ▸ List.mem_append_left _ (List.mem_append_right _ ha))
  obtain ⟨front', back', hu, hfront', hback'⟩ := exists_trim_of_classes hclasses
  rw [read?, plainNumeral?_of_classes hclasses] at hread
  obtain ⟨hnumeral, hstorable⟩ := isFiniteNumeral_of_ofPlainNumeral? hread
  refine ⟨front ++ front', Text.trim u, back' ++ back, ?_, ?_, ?_, hnumeral, hstorable⟩
  · calc t = front ++ u ++ back := ht
      _ = front ++ (front' ++ Text.trim u ++ back') ++ back := by rw [← hu]
      _ = _ := by simp only [List.append_assoc]
  · exact fun a ha => (List.mem_append.1 ha).elim (hfront a) (hfront' a)
  · exact fun a ha => (List.mem_append.1 ha).elim (hback' a) (hback a)

end Evaluation

/-! ## The lexemes of a numeral -/

/-- The lexemes that are read behind the digits of a numeral: none, the letter of an exponent with
its digits as a name, or the constant e and a number to add or to subtract. -/
inductive Decimal.ScaleReads : Text → List Lexeme → Prop where
  | nil : ScaleReads [] []
  | name {letter : Char} {digits : Text} : letter = 'e' ∨ letter = 'E' → digits ≠ [] →
      (∀ d ∈ digits, d.isDigit) →
      ScaleReads (letter :: digits) [.function (Text.lower (letter :: digits))]
  | sum {letter : Char} {digits : Text} {op : BinaryOperator} : letter = 'e' ∨ letter = 'E' →
      op = .plus ∨ op = .minus → digits ≠ [] → (∀ d ∈ digits, d.isDigit) →
      ScaleReads (letter :: (op.symbol.text ++ digits))
        [.constant ['e'], .operator op.symbol, .number digits]

/-- The lexemes that are read before the digits of a numeral. -/
inductive Decimal.SignReads : Text → Bool → List Lexeme → Prop where
  | none : SignReads [] false []
  | plus : SignReads ['+'] false [.operator .plus]
  | minus : SignReads ['-'] true [.operator .negate]

section Sign

variable {sign front t : Text} {s : Bool} {ls ms : List Lexeme}

theorem Decimal.IsSign.exists_reads (h : IsSign sign s) : ∃ ls, SignReads sign s ls := by
  cases h with
  | none => exact ⟨_, .none⟩
  | plus => exact ⟨_, .plus⟩
  | minus => exact ⟨_, .minus⟩

theorem Decimal.SignReads.spells (h : SignReads sign s ls)
    (hfront : ∀ a ∈ front, Text.isAsciiBlank a) (hspells : Spells ms t) :
    Spells (ls ++ ms) (front ++ (sign ++ t)) := by
  have hword {l : Lexeme} {a : Char} (ha : a ∈ l.signs) (hl : ∀ b, l.goesOnWith b = false) :
      Spells (l :: ms) (front ++ ([a] ++ t)) := by
    rw [← List.append_assoc]
    exact .cons hfront (.sign ha) (fun b _ => hl b) hspells
  cases h with
  | none => exact hspells.blanks_append hfront
  | plus => exact hword (by decide) fun _ => rfl
  | minus => exact hword (by decide) fun _ => rfl

end Sign

section Scale

variable {rest : Text} {x : Int} {ls : List Lexeme}

theorem Decimal.IsScale.exists_reads (h : IsScale rest x) : ∃ ls, ScaleReads rest ls := by
  cases h with
  | nil => exact ⟨_, .nil⟩
  | marked hletter hsign hne hdigits =>
    cases hsign with
    | none => exact ⟨_, .name hletter hne hdigits⟩
    | plus => exact ⟨_, @ScaleReads.sum _ _ .plus hletter (.inl rfl) hne hdigits⟩
    | minus => exact ⟨_, @ScaleReads.sum _ _ .minus hletter (.inr rfl) hne hdigits⟩

theorem Decimal.not_all_isAlpha_lower {letter : Char} {digits : Text} (hne : digits ≠ [])
    (hdigits : ∀ d ∈ digits, d.isDigit) : ¬ (Text.lower (letter :: digits)).all Char.isAlpha := by
  intro hall
  obtain ⟨d, hd⟩ := List.exists_mem_of_ne_nil _ hne
  have halpha := Text.isAlpha_of_mem_lower hall d (List.mem_cons_of_mem _ hd)
  have hpart := Token.isNumberPart_of_isNameStart halpha
  simp [Token.isNumberPart, hdigits d hd] at hpart

theorem Decimal.ScaleReads.spells (h : ScaleReads rest ls) {back : Text}
    (hback : ∀ a ∈ back, Text.isAsciiBlank a) : Spells ls (rest ++ back) := by
  have hnone : ∀ a ∈ ([] : Text), Text.isAsciiBlank a := by simp
  have hends : ∀ a ∈ back.head?, Token.isNumberPart a = false ∧ Token.isNamePart a = false :=
    fun a ha => Token.classes_of_isAsciiBlank (hback a (List.mem_of_mem_head? ha))
  cases h with
  | nil => exact .nil hback
  | @name letter digits hletter hne hdigits =>
    have hstart : Token.isNameStart letter := by rcases hletter with rfl | rfl <;> decide
    have hparts : ∀ d ∈ digits, Token.isNamePart d := fun d hd => by
      simp [Token.isNamePart, Char.isAlphanum, hdigits d hd]
    have hname : Text.lower (letter :: digits) ∉ Token.constantNames := by
      have hletters : ∀ name ∈ Token.constantNames, name.all Char.isAlpha := by decide
      exact fun hmem => not_all_isAlpha_lower hne hdigits (hletters _ hmem)
    exact @Spells.cons _ _ [] _ _ hnone (.function hstart hparts hname)
      (fun a ha => (hends a ha).2) (.nil hback)
  | @sum letter digits op hletter hop hne hdigits =>
    have hnumber : Spells [.number digits] (digits ++ back) :=
      @Spells.cons _ _ [] _ _ hnone (.whole hne hdigits) (fun a ha => (hends a ha).1) (.nil hback)
    have hsign : Spells [.operator op.symbol, .number digits]
        (op.symbol.text ++ (digits ++ back)) := by
      rcases hop with rfl | rfl
      · exact @Spells.cons _ _ [] ['+'] _ hnone (.sign (by decide)) (fun _ _ => rfl) hnumber
      · exact @Spells.cons _ _ [] ['-'] _ hnone (.sign (by decide)) (fun _ _ => rfl) hnumber
    have hwritten : (Lexeme.constant ['e']).IsWrittenAs [letter] := by
      rcases hletter with rfl | rfl
      · exact @Lexeme.IsWrittenAs.constant 'e' [] (by decide) (by simp) (by decide)
      · exact @Lexeme.IsWrittenAs.constant 'E' [] (by decide) (by simp) (by decide)
    have hstops : ∀ a ∈ (op.symbol.text ++ (digits ++ back)).head?,
        (Lexeme.constant ['e']).goesOnWith a = false := by
      rcases hop with rfl | rfl <;> rintro _ ⟨⟩ <;> decide
    simpa using @Spells.cons _ _ [] [letter] _ hnone hwritten hstops hsign

end Scale

/-! ## How a numeral is evaluated -/

namespace Decimal

/-- A numeral behind a plus with a signed exponent, and the tree that it is evaluated as: the digits
of the exponent are added to the sum of the number and the constant e, or subtracted from it. -/
inductive IsPlusScaled : Text → Tree → Prop where
  | mk {w digits : Text} {letter : Char} {op : BinaryOperator} {c k : Nat} : IsNumeral w c k →
      letter = 'e' ∨ letter = 'E' → op = .plus ∨ op = .minus → digits ≠ [] →
      (∀ d ∈ digits, d.isDigit) →
      IsPlusScaled ('+' :: (w ++ letter :: (op.symbol.text ++ digits)))
        (.binary op (.binary .plus (.number w) (.constant ['e'])) (.number digits))

theorem ScaleReads.spells_number {w rest back : Text} {c k : Nat} {ls : List Lexeme}
    (h : ScaleReads rest ls) (hw : IsNumeral w c k) (hback : ∀ a ∈ back, Text.isAsciiBlank a) :
    Spells (.number w :: ls) (w ++ (rest ++ back)) := by
  have hnone : ∀ a ∈ ([] : Text), Text.isAsciiBlank a := by simp
  refine @Spells.cons _ _ [] _ _ hnone hw.isWrittenAs ?_ (h.spells hback)
  have hletter {letter : Char} (h : letter = 'e' ∨ letter = 'E') :
      Token.isNumberPart letter = false := by rcases h with rfl | rfl <;> decide
  intro a ha
  show Token.isNumberPart a = false
  cases h with
  | nil => exact (Token.classes_of_isAsciiBlank (hback a (List.mem_of_mem_head? ha))).1
  | name hl =>
    cases ha
    exact hletter hl
  | sum hl =>
    cases ha
    exact hletter hl

end Decimal

namespace Evaluation

variable {desk : Desk} {t : Text} {v : Value} {tokens : List Token} {e : Tree} {ls : List Lexeme}

theorem lexemes_eq (h : Evaluation desk t v tokens e) (hspells : Spells ls t)
    (hplace : (Lexeme.placement true ls).isSome) : tokens.map Token.lexeme = ls := by
  obtain ⟨tokens', hscan, hls⟩ := Token.scan_of_spells hplace hspells
  obtain rfl := Except.ok.inj (hscan.symm.trans h.scan)
  exact hls

theorem items_eq (h : Evaluation desk t v tokens e) (hls : tokens.map Token.lexeme = ls)
    {items : List Item} (hitems : Postfix.itemsFrom {} (ls.map (⟨·, 0⟩)) = .ok items) :
    e.items = items := by
  have hmap : tokens.map Token.lexeme = (ls.map (Token.mk · 0)).map Token.lexeme := by
    simp [hls, Function.comp_def]
  have hkind := Postfix.kind_itemsFrom {} hmap
  rw [hitems] at hkind
  exact Except.ok.inj (h.arranged.symm.trans (mapError_eq_ok_iff.1 hkind))

theorem isSome_ofName?_of_mem (h : Evaluation desk t v tokens e)
    (hls : tokens.map Token.lexeme = ls) {name : Text} (hname : .function name ∈ ls) :
    (Function.ofName? name).isSome := by
  rw [← hls] at hname
  obtain ⟨token, ht, hname⟩ := List.mem_map.1 hname
  exact h.isKnown ht hname

/-- **How a numeral is evaluated.** A numeral with a value has no exponent and no plus before it, or
both, and then it is a sum with the constant e. -/
theorem tree_cases {front w back : Text} {d : Decimal}
    (h : Evaluation desk (front ++ w ++ back) v tokens e)
    (hfront : ∀ a ∈ front, Text.isAsciiBlank a) (hback : ∀ a ∈ back, Text.isAsciiBlank a)
    (hw : IsFiniteNumeral w d) :
    (∃ s u c k, w = signText s ++ u ∧ IsNumeral u c k ∧ d = .finite s c (-(k : Int)) ∧
      e = .signed s u) ∨
    IsPlusScaled w e := by
  obtain @⟨sign, u, rest, s, c, k, x, hsign, hu, hscale⟩ := hw
  obtain ⟨head, hhead⟩ := hsign.exists_reads
  obtain ⟨tail, htail⟩ := hscale.exists_reads
  have hspells : Spells (head ++ .number u :: tail) (front ++ (sign ++ (u ++ rest)) ++ back) := by
    simpa using hhead.spells hfront (htail.spells_number hu hback)
  have hplace : (Lexeme.placement true (head ++ .number u :: tail)).isSome := by
    cases hhead <;> cases htail with
    | sum _ hop => rcases hop with rfl | rfl <;> rfl
    | _ => rfl
  have hls := h.lexemes_eq hspells hplace
  have hgain := e.gain_items
  cases htail with
  | @name letter digits hletter hne hdigits =>
    obtain ⟨f, hf⟩ := Option.isSome_iff_exists.1 (h.isSome_ofName?_of_mem hls
      (List.mem_append_right _ (List.mem_cons_of_mem _ List.mem_cons_self)))
    have hletters := f.name_letters.2.1
    rw [← Function.lower_eq_name hf] at hletters
    exact absurd hletters (not_all_isAlpha_lower hne hdigits)
  | nil =>
    cases hscale
    cases hhead with
    | none =>
      have hitems : e.items = (Tree.signed false u).items := h.items_eq hls rfl
      exact .inl ⟨false, u, c, k, by simp [signText], hu, by simp, Tree.items_injective hitems⟩
    | minus =>
      have hitems : e.items = (Tree.signed true u).items := h.items_eq hls rfl
      exact .inl ⟨true, u, c, k, by simp [signText], hu, by simp, Tree.items_injective hitems⟩
    | plus =>
      have hitems : e.items = [.number u, .operator .plus] := h.items_eq hls rfl
      rw [hitems] at hgain
      simp [Item.gain] at hgain
  | @sum letter digits op hletter hop hne hdigits =>
    cases hhead with
    | none =>
      have hitems : e.items =
          [.number u, .constant ['e'], .number digits, .operator op.symbol] := by
        rcases hop with rfl | rfl <;> exact h.items_eq hls rfl
      rw [hitems] at hgain
      rcases hop with rfl | rfl <;> simp [Item.gain, BinaryOperator.symbol] at hgain
    | minus =>
      have hitems : e.items = [.number u, .constant ['e'], .operator .negate, .number digits,
          .operator op.symbol] := by
        rcases hop with rfl | rfl <;> exact h.items_eq hls rfl
      rw [hitems] at hgain
      rcases hop with rfl | rfl <;> simp [Item.gain, BinaryOperator.symbol] at hgain
    | plus =>
      have hitems : e.items = (Tree.binary op (.binary .plus (.number u) (.constant ['e']))
          (.number digits)).items := by
        rcases hop with rfl | rfl <;> exact h.items_eq hls rfl
      rw [Tree.items_injective hitems]
      exact .inr (.mk hu hletter hop hne hdigits)

end Evaluation

end DeskCalculator
