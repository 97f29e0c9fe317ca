import DeskCalculator.Evaluation
import DeskCalculator.Proofs.Decimal.Reading
import DeskCalculator.Proofs.Expression.Nesting
import DeskCalculator.Proofs.Expression.Origins
import DeskCalculator.Proofs.Stack.Step
import DeskCalculator.Proofs.Stack.TreeRun

/-!
# The words of a text with a value

A text with a value goes through all stages of an evaluation (`exists_evaluation`): it has tokens,
these have the postfix order of a tree, and the run of this order gives the value. That says which
words the text consists of. Each of its names is that of a constant or a function
(`Evaluation.isKnown`), so that there is no underscore in it, and there is no comma where no
parenthesis opens.
-/

namespace DeskCalculator

/-! ## Words and their characters -/

namespace Token

variable {position : Nat} {t word : Text} {tokens : List Token} {token : Token} {l : Lexeme}
  {c : Char}

theorem printable_of_isNumberPart (hc : isNumberPart c) : 0x20 < c.toNat ∧ c.toNat < 0x7F := by
  have hpart : Decimal.IsNumeralPart c := by simpa [isNumberPart, Decimal.IsNumeralPart] using hc
  have := hpart.toNat
  omega

theorem printable_of_isNamePart (hc : isNamePart c) : 0x20 < c.toNat ∧ c.toNat < 0x7F := by
  have hcode : c.toNat = c.val.toNat := rfl
  by_cases hline : c = '_'
  · subst hline
    decide
  · simp only [isNamePart, Char.isAlphanum, isAlpha_eq, Char.isDigit, hline, Bool.or_eq_true,
      Bool.and_eq_true, decide_eq_true_eq, beq_iff_eq, or_false, UInt32.le_iff_toNat_le] at hc
    simp at hc
    omega

theorem IsWord.printable (h : IsWord word) : ∀ c ∈ word, 0x20 < c.toNat ∧ c.toNat < 0x7F := by
  cases h with
  | run _ hrun => exact fun c hc => printable_of_isNumberPart (hrun c hc)
  | @name first rest hstart hparts =>
    have hfirst : isNamePart first := by
      simp only [isNameStart] at hstart
      simp [isNamePart, Char.isAlphanum, hstart]
    exact List.forall_mem_cons.2
      ⟨printable_of_isNamePart hfirst, fun d hd => printable_of_isNamePart (hparts d hd)⟩
  | symbol hsymbol =>
    have hall : symbols.all fun c => 0x20 < c.toNat && c.toNat < 0x7F := rfl
    simpa using List.all_eq_true.1 hall _ hsymbol

theorem Tiles.exists_word (h : Tiles position t tokens) (hc : c ∈ t) :
    Text.isAsciiBlank c ∨
      ∃ token ∈ tokens, ∃ word, IsWord word ∧ token.lexeme.IsWrittenAs word ∧ c ∈ word := by
  induction h with
  | nil => cases hc
  | blank hblank _ ih =>
    rcases List.mem_cons.1 hc with rfl | hc
    · exact .inl hblank
    · exact ih hc
  | word hlongest hwritten _ ih =>
    rcases List.mem_append.1 hc with hc | hc
    · exact .inr ⟨_, List.mem_cons_self, _, hlongest.isWord, hwritten, hc⟩
    · refine (ih hc).imp_right ?_
      rintro ⟨token, ht, hword⟩
      exact ⟨token, List.mem_cons_of_mem _ ht, hword⟩

theorem Tiles.word_subset (h : Tiles position t tokens) (ht : token ∈ tokens) :
    ∃ word, token.lexeme.IsWrittenAs word ∧ word ⊆ t := by
  induction h with
  | nil => cases ht
  | blank _ _ ih =>
    obtain ⟨word, hwritten, hsub⟩ := ih ht
    exact ⟨word, hwritten, List.subset_cons_of_subset _ hsub⟩
  | word _ hwritten _ ih =>
    rcases List.mem_cons.1 ht with rfl | ht
    · exact ⟨_, hwritten, List.subset_append_left _ _⟩
    · obtain ⟨word, hwritten, hsub⟩ := ih ht
      exact ⟨word, hwritten, List.subset_append_of_subset_right _ hsub⟩

theorem eq_comma_of_isWrittenAs (h : l.IsWrittenAs word) (hc : ',' ∈ word) : l = .comma := by
  cases h with
  | whole hne hdigits =>
    exact absurd (isNumberPart_of_isWrittenAs (.whole hne hdigits) _ hc) (by decide)
  | pointed hne hdigits =>
    exact absurd (isNumberPart_of_isWrittenAs (.pointed hne hdigits) _ hc) (by decide)
  | constant hstart hparts | function hstart hparts =>
    rcases List.mem_cons.1 hc with rfl | hc
    · exact absurd hstart (by decide)
    · exact absurd (hparts _ hc) (by decide)
  | sign hsign =>
    rw [← List.mem_singleton.1 hc] at hsign
    cases l with
    | operator symbol | postfixed symbol => cases symbol <;> simp [Lexeme.signs] at hsign
    | _ => simp_all [Lexeme.signs]

theorem opening_mem_of_isWrittenAs (h : Lexeme.opening.IsWrittenAs word) : '(' ∈ word := by
  cases h with
  | sign hsign => exact List.mem_singleton.2 (List.mem_singleton.1 hsign).symm

theorem exists_function_of_isWrittenAs (h : l.IsWrittenAs word) (hc : '_' ∈ word) :
    ∃ name, l = .function name ∧ '_' ∈ name := by
  have hlower : '_' ∈ Text.lower word := List.mem_map.2 ⟨'_', hc, by decide⟩
  cases h with
  | whole hne hdigits =>
    exact absurd (isNumberPart_of_isWrittenAs (.whole hne hdigits) _ hc) (by decide)
  | pointed hne hdigits =>
    exact absurd (isNumberPart_of_isWrittenAs (.pointed hne hdigits) _ hc) (by decide)
  | constant _ _ hname =>
    have hnone : ∀ name ∈ constantNames, '_' ∉ name := by decide
    exact absurd hlower (hnone _ hname)
  | function => exact ⟨_, rfl, hlower⟩
  | sign hsign =>
    rw [← List.mem_singleton.1 hc] at hsign
    cases l with
    | operator symbol | postfixed symbol => cases symbol <;> simp [Lexeme.signs] at hsign
    | _ => simp [Lexeme.signs] at hsign

end Token

/-- Where no group is open and none is opened there is no comma. -/
theorem Postfix.comma_not_mem_of_steps {tokens : List Token} {s s' : State}
    (hproper : ∀ token ∈ tokens, token.lexeme.IsProper) (h : steps s tokens = .ok s')
    (hs : calls s.stack = []) (hopening : ∀ token ∈ tokens, token.lexeme ≠ .opening) :
    ∀ token ∈ tokens, token.lexeme ≠ .comma := by
  induction tokens generalizing s with
  | nil => simp
  | cons token tokens ih =>
    rw [List.forall_mem_cons] at hproper hopening
    have hnone : ((calls s.stack).length : Int) = 0 := by rw [hs, List.length_nil, Nat.cast_zero]
    obtain ⟨hstray, hstep⟩ := step_of_calls hproper.1 hnone
    rw [steps] at h
    cases hfirst : token.stray? 0 with
    | some p =>
      rw [hstray p hfirst] at h
      cases h
    | none =>
      obtain ⟨s₁, hs₁, hcalls⟩ := hstep hfirst
      rw [hs₁] at h
      have hcomma : token.lexeme ≠ .comma := fun heq => by simp [Token.stray?, heq] at hfirst
      have hclosing : token.lexeme ≠ .closing := fun heq => by simp [Token.stray?, heq] at hfirst
      have hnesting : token.nesting = 0 := by
        unfold Token.nesting
        split
        · exact absurd ‹_› hopening.1
        · exact absurd ‹_› hclosing
        · rfl
      rw [hnesting] at hcalls
      have hempty : calls s₁.stack = [] := List.length_eq_zero_iff.1 (by omega)
      exact List.forall_mem_cons.2 ⟨hcomma, ih hproper.2 h hempty hopening.2⟩

/-! ## The stages of an evaluation -/

/-- The stages of an evaluation that gives a value. -/
structure Evaluation (desk : Desk) (t : Text) (v : Value) (tokens : List Token) (e : Tree) :
    Prop where
  scan : Token.scan t = .ok tokens
  arranged : Postfix.ofTokens tokens = .ok e.items
  isApplicable : e.IsApplicable
  run : Stack.run desk e.items = .ok v

theorem Desk.exists_evaluation {desk : Desk} {t : Text} {v : Value} (h : desk.compute t = .ok v) :
    ∃ tokens e, Evaluation desk t v tokens e := by
  unfold compute Item.ofText at h
  cases hscan : Token.scan t with
  | error p => simp [hscan] at h
  | ok tokens =>
    simp only [hscan] at h
    cases hitems : Postfix.ofTokens tokens with
    | error e => simp [hitems] at h
    | ok items =>
      simp only [hitems] at h
      have hproper := Postfix.isProper_of_ofTokens (Token.isProper_of_scan hscan) hitems
      obtain ⟨e, rfl, happ⟩ := Stack.exists_tree_of_run hproper h
      exact ⟨tokens, e, hscan, hitems, happ, h⟩

theorem Tree.mem_itemsAll {item : Item} {es : List Tree} :
    item ∈ itemsAll es ↔ ∃ e ∈ es, item ∈ e.items := by
  induction es with
  | nil => simp [itemsAll]
  | cons e es ih => simp [itemsAll, ih]

theorem Tree.IsApplicable.isSome_ofName? {e : Tree} (h : e.IsApplicable) {name : Text}
    {arity : Option Int} (hcall : Item.call name arity ∈ e.items) :
    (Function.ofName? name).isSome := by
  induction e with
  | number t | constant c => simp [items] at hcall
  | negate e ih | postfixed sign e ih =>
    refine ih h ?_
    simpa [items] using hcall
  | binary op a b iha ihb =>
    rcases (by simpa [items] using hcall : _ ∈ a.items ∨ _ ∈ b.items) with hcall | hcall
    · exact iha h.1 hcall
    · exact ihb h.2 hcall
  | call f arguments ih =>
    obtain ⟨⟨g, hg, -⟩, hall⟩ := h
    rw [items, List.mem_append, mem_itemsAll, List.mem_singleton] at hcall
    rcases hcall with ⟨e, he, hcall⟩ | hcall
    · exact ih e he (allApplicable_iff.1 hall e he) hcall
    · cases hcall
      exact Option.isSome_of_mem hg

namespace Evaluation

variable {desk : Desk} {t : Text} {v : Value} {tokens : List Token} {token : Token} {e : Tree}

theorem isFinite (h : Evaluation desk t v tokens e) : v.isFinite :=
  (Stack.run_eq_ok_iff.1 h.run).2

theorem result_eq (h : Evaluation desk t v tokens e) : e.result desk = .ok v := by
  rcases Nat.lt_or_ge Stack.maxEntries (e.height desk) with hlt | hle
  · have hrun := h.run
    rw [Stack.run_items_overflow h.isApplicable hlt] at hrun
    cases hrun
  · rw [← Stack.run_items h.isApplicable hle, h.run]

theorem tiles (h : Evaluation desk t v tokens e) :
    Token.Tiles 0 (t.map Token.plainSign) tokens :=
  Token.tiles_of_scanFrom (Nat.zero_le _) h.scan

theorem isKnown (h : Evaluation desk t v tokens e) (ht : token ∈ tokens) {name : Text}
    (hname : token.lexeme = .function name) : (Function.ofName? name).isSome := by
  obtain ⟨traced, htraced, hitems⟩ := Postfix.Traced.exists_of_ofTokens h.arranged
  obtain ⟨output, rfl, hkeeps⟩ :=
    Postfix.Traced.exists_keeps_of_ofTokens h.tiles.covers.increasing htraced
  have hmem : token ∈ output.map Prod.snd := by
    have hall : (output.map Prod.snd).Perm (tokens.filter (·.lexeme.hasItem)) := by
      simpa [Postfix.Traced.waiting] using hkeeps.all
    exact hall.mem_iff.2 (List.mem_filter.2 ⟨ht, by rw [hname]; rfl⟩)
  obtain ⟨⟨item, _⟩, ha, rfl⟩ := List.mem_map.1 hmem
  have hitem : item ∈ e.items := hitems ▸ List.mem_map.2 ⟨_, List.mem_reverse.2 ha, rfl⟩
  have hproper := Postfix.isProper_of_ofTokens (Token.isProper_of_scan h.scan) h.arranged item hitem
  have hentry : item.entry = (Text.ofString "func", name) := by
    rw [hkeeps.items _ ha, Token.entry, hname]
    rfl
  cases item with
  | call f arity =>
    obtain rfl : f = name := congrArg Prod.snd hentry
    exact h.isApplicable.isSome_ofName? hitem
  | unknown => exact hproper.elim
  | _ => simp [Item.entry, Item.kindName, Text.ofString] at hentry

theorem comma_not_mem (h : Evaluation desk t v tokens e) (hopening : '(' ∉ t.map Token.plainSign) :
    ',' ∉ t.map Token.plainSign := by
  intro hcomma
  rcases h.tiles.exists_word hcomma with hblank | ⟨token, ht, word, -, hwritten, hmem⟩
  · exact absurd hblank (by decide)
  have hnone : ∀ token ∈ tokens, token.lexeme ≠ .opening := by
    intro token ht heq
    obtain ⟨word, hwritten, hsub⟩ := h.tiles.word_subset ht
    exact hopening (hsub (Token.opening_mem_of_isWrittenAs (heq ▸ hwritten)))
  have harranged := h.arranged
  unfold Postfix.ofTokens at harranged
  split at harranged
  · rename_i s hs
    exact Postfix.comma_not_mem_of_steps (Token.isProper_of_scan h.scan) hs rfl hnone token ht
      (Token.eq_comma_of_isWrittenAs hwritten hmem)
  · cases harranged

theorem underscore_not_mem (h : Evaluation desk t v tokens e) : '_' ∉ t.map Token.plainSign := by
  intro hline
  rcases h.tiles.exists_word hline with hblank | ⟨token, ht, word, -, hwritten, hmem⟩
  · exact absurd hblank (by decide)
  obtain ⟨name, hname, hmem⟩ := Token.exists_function_of_isWrittenAs hwritten hmem
  obtain ⟨f, hf⟩ := Option.isSome_iff_exists.1 (h.isKnown ht hname)
  have hfind : f.name = name := by simpa [Function.ofName?] using List.find?_some hf
  have hnone : ∀ f ∈ Function.all, '_' ∉ f.name := by decide
  exact hnone f (List.mem_of_find?_eq_some hf) (hfind ▸ hmem)

/-- A character is an ASCII blank or a printable ASCII character. -/
theorem blank_or_printable (h : Evaluation desk t v tokens e) {c : Char}
    (hc : c ∈ t.map Token.plainSign) :
    Text.isAsciiBlank c ∨ (0x20 < c.toNat ∧ c.toNat < 0x7F) := by
  refine (h.tiles.exists_word hc).imp_right ?_
  rintro ⟨token, -, word, hword, -, hc⟩
  exact hword.printable c hc

end Evaluation

end DeskCalculator
