import DeskCalculator.Evaluation

/-!
# Typographic signs

Two texts are alike if they differ only in whether the signs for times, division and minus are
typographic or plain. Alike texts have the same tokens, so that they have the same value
(`Text.Alike.compute_eq`). They are still alike without the blanks around them, and in quotes.
-/

namespace DeskCalculator

/-- Texts that differ only in whether signs are typographic or plain. -/
def Text.Alike (t u : Text) : Prop := t.map Token.plainSign = u.map Token.plainSign

namespace Token

theorem plainSign_cases (c : Char) :
    (c = '×' ∨ c = '÷' ∨ c = '−') ∧ plainSign c ≠ c ∨ plainSign c = c := by
  unfold plainSign
  split
  · rename_i h
    subst h
    exact .inl ⟨.inl rfl, by decide⟩
  · split
    · rename_i h
      subst h
      exact .inl ⟨.inr (.inl rfl), by decide⟩
    · split
      · rename_i h
        subst h
        exact .inl ⟨.inr (.inr rfl), by decide⟩
      · exact .inr rfl

/-- What holds of the three typographic signs, and of a character that stays, holds of all. -/
theorem forall_plainSign {P : Char → Char → Prop} (htimes : P '×' '*') (hdivide : P '÷' '/')
    (hminus : P '−' '-') (hrest : ∀ c, P c c) (c : Char) : P c (plainSign c) := by
  rcases plainSign_cases c with ⟨rfl | rfl | rfl, -⟩ | h
  · exact htimes
  · exact hdivide
  · exact hminus
  · rw [h]
    exact hrest c

theorem isBlank_plainSign (c : Char) : Text.isBlank (plainSign c) = Text.isBlank c :=
  forall_plainSign (P := fun c d => Text.isBlank d = Text.isBlank c) (by decide) (by decide)
    (by decide) (fun _ => rfl) c

theorem eq_colon_iff (c : Char) : plainSign c = ':' ↔ c = ':' :=
  forall_plainSign (P := fun c d => d = ':' ↔ c = ':') (by decide) (by decide) (by decide)
    (fun _ => Iff.rfl) c

end Token

namespace Text

open Token (plainSign)

variable {t u : Text}

theorem alike_refl (t : Text) : t.Alike t := rfl

namespace Alike

theorem symm (h : t.Alike u) : u.Alike t := Eq.symm h

theorem append {t' u' : Text} (h : t.Alike u) (h' : t'.Alike u') : (t ++ t').Alike (u ++ u') := by
  unfold Alike at h h' ⊢
  rw [List.map_append, List.map_append, h, h']

theorem length_eq (h : t.Alike u) : t.length = u.length := by
  simpa using congrArg List.length h

theorem eq_nil_iff (h : t.Alike u) : t = [] ↔ u = [] := by
  rw [← List.length_eq_zero_iff, h.length_eq, List.length_eq_zero_iff]

/-! ## Blanks -/

theorem trim_map (t : Text) : Text.trim (t.map plainSign) = (Text.trim t).map plainSign := by
  have hblank : isBlank ∘ plainSign = isBlank := funext Token.isBlank_plainSign
  have hdrop : ∀ l : Text, (l.map plainSign).dropWhile isBlank =
      (l.dropWhile isBlank).map plainSign := by
    intro l
    rw [List.dropWhile_map, hblank]
  simp only [Text.trim, trimBy, hdrop, ← List.map_reverse]

theorem trim (h : t.Alike u) : (Text.trim t).Alike (Text.trim u) := by
  unfold Alike at h ⊢
  rw [← trim_map, ← trim_map, h]

theorem isAllBlank_eq (h : t.Alike u) : isAllBlank t = isAllBlank u := by
  have hmap : ∀ l : Text, isAllBlank (l.map plainSign) = isAllBlank l := by
    intro l
    simp [isAllBlank, Token.isBlank_plainSign, Function.comp_def]
  rw [← hmap t, ← hmap u, h]

theorem head?_eq_colon_iff (h : t.Alike u) : t.head? = some ':' ↔ u.head? = some ':' := by
  have hmap : ∀ l : Text, (l.map plainSign).head? = some ':' ↔ l.head? = some ':' := by
    intro l
    simp [Token.eq_colon_iff]
  rw [← hmap t, ← hmap u, h]

/-! ## Quotes -/

/-- A character is printable if it lies in a range of the table, which is told by its place there. -/
theorem isPrintable_of_range {c : Char} (i : Nat) (hi : i < printableRanges.size)
    (hc : 0x7F ≤ c.toNat)
    (hrange : printableRanges[i].1 ≤ c.toNat ∧ c.toNat ≤ printableRanges[i].2) : isPrintable c := by
  rw [isPrintable, if_neg (by omega)]
  exact Array.any_eq_true.2 ⟨i, hi, by simp [hrange]⟩

theorem escape_of_isPrintable {quote c : Char} (h : isPrintable c)
    (hplain : c ≠ quote ∧ c ≠ '\\' ∧ c ≠ '\n' ∧ c ≠ '\r' ∧ c ≠ '\t') :
    escape quote c = [c] := by
  simp [escape, h, hplain]

theorem map_escape_plainSign {quote : Char} (hquote : quote = '\'' ∨ quote = '"') (c : Char) :
    (escape quote (plainSign c)).map plainSign = (escape quote c).map plainSign := by
  have hsign {typographic plain : Char} (hc : isPrintable typographic) (hd : isPrintable plain)
      (hplain : ∀ q ∈ ['\'', '"', '\\', '\n', '\r', '\t'], typographic ≠ q ∧ plain ≠ q)
      (heq : plainSign plain = plainSign typographic) :
      (escape quote plain).map plainSign = (escape quote typographic).map plainSign := by
    have hq : typographic ≠ quote ∧ plain ≠ quote := hplain quote (by
      rcases hquote with rfl | rfl <;> simp)
    simp only [List.forall_mem_cons] at hplain
    obtain ⟨-, -, h₁, h₂, h₃, h₄, -⟩ := hplain
    rw [escape_of_isPrintable hc ⟨hq.1, h₁.1, h₂.1, h₃.1, h₄.1⟩,
      escape_of_isPrintable hd ⟨hq.2, h₁.2, h₂.2, h₃.2, h₄.2⟩, List.map_singleton,
      List.map_singleton, heq]
  refine Token.forall_plainSign (P := fun c d =>
    (escape quote d).map plainSign = (escape quote c).map plainSign) ?_ ?_ ?_ (fun _ => rfl) c
  · exact hsign (isPrintable_of_range 2 (by decide +kernel) (by decide) (by decide +kernel))
      (by decide) (by simp) rfl
  · exact hsign (isPrintable_of_range 2 (by decide +kernel) (by decide) (by decide +kernel))
      (by decide) (by simp) rfl
  · exact hsign (isPrintable_of_range 253 (by decide +kernel) (by decide) (by decide +kernel))
      (by decide) (by simp) rfl

theorem contains_map (t : Text) {c : Char} (hc : ∀ d, plainSign d = c ↔ d = c) :
    (t.map plainSign).contains c = t.contains c := by
  rw [Bool.eq_iff_iff]
  simp [hc]

theorem quoteFor_map (t : Text) : quoteFor (t.map plainSign) = quoteFor t := by
  have hsingle (d : Char) : plainSign d = '\'' ↔ d = '\'' :=
    Token.forall_plainSign (P := fun c d => d = '\'' ↔ c = '\'') (by decide) (by decide)
      (by decide) (fun _ => Iff.rfl) d
  have hdouble (d : Char) : plainSign d = '"' ↔ d = '"' :=
    Token.forall_plainSign (P := fun c d => d = '"' ↔ c = '"') (by decide) (by decide)
      (by decide) (fun _ => Iff.rfl) d
  simp only [quoteFor, contains_map t hsingle, contains_map t hdouble]

theorem quoted_map (t : Text) : (quoted (t.map plainSign)).Alike (quoted t) := by
  have hquote : quoteFor t = '\'' ∨ quoteFor t = '"' := by
    unfold quoteFor
    split
    · exact .inr rfl
    · exact .inl rfl
  simp only [Alike, quoted, quoteFor_map, List.map_append, List.map_cons, List.map_flatMap,
    List.flatMap_map, map_escape_plainSign hquote]

theorem quoted (h : t.Alike u) : (Text.quoted t).Alike (Text.quoted u) := by
  have htext : t.map plainSign = u.map plainSign := h
  have := (quoted_map t).symm.trans (htext ▸ quoted_map u)
  exact this

/-! ## Values -/

theorem scan_eq (h : t.Alike u) : Token.scan t = Token.scan u :=
  congrArg (Token.scanFrom 0 none 0) h

/-- **Alike texts** have the same value, or the same problem. -/
theorem compute_eq (h : t.Alike u) (desk : Desk) : desk.compute t = desk.compute u := by
  simp only [Desk.compute, Item.ofText, h.scan_eq]

end Alike

end Text

end DeskCalculator
