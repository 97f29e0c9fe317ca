import DeskCalculator.Proofs.Expression.Items
import DeskCalculator.Proofs.Expression.Lexing

/-!
# Scanning a text in pieces

Where one piece of a text ends in a sign, no lexeme goes over into the next piece, so the scan of
the whole is the scan of the first piece followed by that of the second (`scan_append`). What is
read behind such a seam does not depend on the position and only on whether an operand starts there
(`lexemes_scanFrom`).
-/

namespace DeskCalculator

/-- A lexeme behind an operand that ends it: a binary operator, a closing parenthesis or a comma. -/
inductive Lexeme.EndsOperand : Lexeme → Prop where
  | operator (op : BinaryOperator) : EndsOperand (.operator op.symbol)
  | closing : EndsOperand .closing
  | comma : EndsOperand .comma

/-- A text that is blank or ends in an operator, an opening parenthesis or a comma. -/
inductive Text.AwaitsOperand : Text → Prop where
  | blank {t : Text} : (∀ c ∈ t, isAsciiBlank c) → AwaitsOperand t
  | sign {front blanks : Text} {c : Char} {l : Lexeme} :
    Token.ofSign? (Token.plainSign c) = some l → l.beforeOperand → (∀ b ∈ blanks, isAsciiBlank b) → AwaitsOperand (front ++ c :: blanks)

/-- A text that is blank or starts with a binary operator, a closing parenthesis or a comma. -/
inductive Text.EndsOperand : Text → Prop where
  | blank {t : Text} : (∀ c ∈ t, isAsciiBlank c) → EndsOperand t
  | sign {blanks rest : Text} {c : Char} {l : Lexeme} : (∀ b ∈ blanks, isAsciiBlank b) →
    Token.ofSign? (Token.plainSign c) = some l → l.EndsOperand → EndsOperand (blanks ++ c :: rest)

namespace Token

/-! ## Signs -/

theorem classes_of_ofSign {c : Char} {l : Lexeme} (h : ofSign? c = some l) :
    isNumberPart c = false ∧ isNameStart c = false ∧ isNamePart c = false ∧
      Text.isAsciiBlank c = false := by
  unfold ofSign? at h
  split at h
  case h_11 => cases h
  all_goals decide

theorem classes_of_plainSign {c : Char} {l : Lexeme} (h : ofSign? (plainSign c) = some l) :
    isNumberPart c = false ∧ isNamePart c = false := by
  unfold plainSign at h
  split at h
  · subst_vars
    decide
  · split at h
    · subst_vars
      decide
    · split at h
      · subst_vars
        decide
      · obtain ⟨hnumber, -, hname, -⟩ := classes_of_ofSign h
        exact ⟨hnumber, hname⟩

theorem first_of_ofSign {c : Char} {l : Lexeme} (h : ofSign? c = some l) (position : Nat)
    (rest : Text) : first position c rest = .ok (some l, 0) := by
  obtain ⟨hnumber, hname, -, hblank⟩ := classes_of_ofSign h
  simp [first, hnumber, hname, hblank, h]

theorem takeWhile_append_of_neg {p : Char → Bool} {c : Char} (h : p c = false) (front rest : Text) :
    (front ++ c :: rest).takeWhile p = front.takeWhile p := by
  induction front with
  | nil => simp [h]
  | cons d front ih => simp [List.takeWhile_cons, ih]

theorem first_append {c : Char} {l : Lexeme} (h : ofSign? c = some l) (position : Nat) (d : Char)
    (front rest : Text) : first position d (front ++ c :: rest) = first position d front := by
  obtain ⟨hnumber, -, hname, -⟩ := classes_of_ofSign h
  simp only [first, takeWhile_append_of_neg hnumber, takeWhile_append_of_neg hname]

theorem le_length_of_first {position more : Nat} {d : Char} {front : Text} {l : Option Lexeme}
    (h : first position d front = .ok (l, more)) : more ≤ front.length := by
  have hle (p : Char → Bool) : (front.takeWhile p).length ≤ front.length :=
    (List.takeWhile_prefix p).length_le
  unfold first at h
  split at h
  · simp only at h
    split at h
    · cases h
      exact hle _
    · cases h
  · split at h
    · cases h
      exact hle _
    · split at h
      · cases h
        exact Nat.zero_le _
      · split at h
        · cases h
          exact Nat.zero_le _
        · cases h

/-- **The scan up to a sign** fails, or it finds tokens of which the sign is the last, whatever
follows. -/
theorem scanFrom_append {c : Char} {l : Lexeme} (h : ofSign? c = some l) (front : Text) :
    ∀ {position skip : Nat} {previous : Option Lexeme}, skip ≤ front.length →
      (∃ p, ∀ rest, scanFrom position previous skip (front ++ c :: rest) = .error p) ∨
      ∃ tokens before, ∀ rest, scanFrom position previous skip (front ++ c :: rest) =
        (scanFrom (position + front.length + 1) (some (inPlace before l)) 0 rest).map
          (tokens ++ ⟨inPlace before l, position + front.length⟩ :: ·) := by
  induction front with
  | nil =>
    intro position skip previous hskip
    obtain rfl : skip = 0 := by simpa using hskip
    exact .inr ⟨[], previous, fun rest => scanFrom_of_some (first_of_ofSign h _ rest)⟩
  | cons d front ih =>
    intro position skip previous hskip
    have hposition : position + (d :: front).length = position + 1 + front.length := by
      simp only [List.length_cons]
      omega
    rw [hposition]
    cases skip with
    | succ skip => exact ih (by simpa using hskip)
    | zero =>
      have hsame (rest : Text) := first_append h position d front rest
      cases hfirst : first position d front with
      | error p => exact .inl ⟨p, fun rest => scanFrom_of_error ((hsame rest).trans hfirst)⟩
      | ok found =>
        obtain ⟨lexeme, more⟩ := found
        have hmore := le_length_of_first hfirst
        cases lexeme with
        | none =>
          simp only [List.cons_append, scanFrom_of_none ((hsame _).trans hfirst)]
          exact ih hmore
        | some lexeme =>
          simp only [List.cons_append, scanFrom_of_some ((hsame _).trans hfirst)]
          rcases ih hmore with ⟨p, hp⟩ | ⟨tokens, before, htokens⟩
          · exact .inl ⟨p, fun rest => by rw [hp]; rfl⟩
          · refine .inr ⟨⟨inPlace previous lexeme, position⟩ :: tokens, before, fun rest => ?_⟩
            rw [htokens]
            cases scanFrom (position + 1 + front.length + 1) (some (inPlace before l)) 0 rest <;> rfl

/-- Tokens behind which an operand starts: none, or a last one that is an operator, an opening
parenthesis or a comma. -/
def AwaitOperand (tokens : List Token) : Prop :=
  ∀ token ∈ tokens.getLast?, token.lexeme.IsProper ∧ token.lexeme.beforeOperand

theorem AwaitOperand.all_beforeOperand {tokens : List Token} (h : AwaitOperand tokens) :
    (tokens.getLast?.map Token.lexeme).all Lexeme.beforeOperand := by
  cases hlast : tokens.getLast? with
  | none => rfl
  | some token => exact (h token hlast).2

theorem beforeOperand_inPlace {previous : Option Lexeme} {l : Lexeme} (h : l.beforeOperand) :
    (inPlace previous l).beforeOperand := by
  unfold inPlace
  split
  · rfl
  · exact h

/-- **The scan of a text that awaits an operand** fails whatever follows, or it goes on from its end
with whatever follows. -/
theorem scan_append {t : Text} (ht : t.AwaitsOperand) :
    (∃ p, ∀ rest, scan (t ++ rest) = .error p) ∨
    ∃ tokens, AwaitOperand tokens ∧ ∀ rest, scan (t ++ rest) =
      (scanFrom t.length (tokens.getLast?.map Token.lexeme) 0 (rest.map plainSign)).map
        (tokens ++ ·) := by
  cases ht with
  | blank hblank =>
    refine .inr ⟨[], nofun, fun rest => ?_⟩
    rw [scan, scanFrom_blanks _ _ _ hblank, Nat.zero_add]
    show _ = (scanFrom t.length none 0 (rest.map plainSign)).map _
    cases scanFrom t.length none 0 (rest.map plainSign) <;> rfl
  | @sign front blanks c l hl hoperand hblank =>
    have hmap (rest : Text) : (front ++ c :: blanks ++ rest).map plainSign =
        front.map plainSign ++ plainSign c :: (blanks ++ rest).map plainSign := by simp
    rcases @scanFrom_append _ _ hl (front.map plainSign) 0 0 none (Nat.zero_le _) with
      ⟨p, hp⟩ | ⟨tokens, before, htokens⟩
    · exact .inl ⟨p, fun rest => by rw [scan, hmap, hp]⟩
    · have hproper : (inPlace before l).IsProper :=
        isProper_inPlace (isProper_of_first (first_of_ofSign hl 0 []))
      refine .inr
        ⟨tokens ++ [⟨inPlace before l, 0 + (front.map plainSign).length⟩], ?_, fun rest => ?_⟩
      · intro token htoken
        rw [List.getLast?_concat] at htoken
        cases htoken
        exact ⟨hproper, beforeOperand_inPlace hoperand⟩
      · have hlength : 0 + (front.map plainSign).length + 1 + blanks.length =
            (front ++ c :: blanks).length := by
          simp only [List.length_map, List.length_append, List.length_cons]
          omega
        rw [scan, hmap, htokens, scanFrom_blanks _ _ _ hblank, hlength, List.getLast?_concat]
        simp

/-! ## What the scan of a rest depends on -/

def lexemes (r : Except Problem (List Token)) : Except ProblemKind (List Lexeme) :=
  (r.map (List.map Token.lexeme)).mapError Problem.kind

theorem lexemes_map_cons (token : Token) (r : Except Problem (List Token)) :
    lexemes (r.map (token :: ·)) = (lexemes r).map (token.lexeme :: ·) := by
  cases r <;> rfl

theorem kind_first (position position' : Nat) (c : Char) (rest : Text) :
    (first position c rest).mapError Problem.kind =
      (first position' c rest).mapError Problem.kind := by
  unfold first
  split
  · simp only
    split <;> rfl
  · split
    · rfl
    · split
      · rfl
      · split <;> rfl

theorem lexemes_scanFrom (t : Text) : ∀ {position position' skip : Nat}
    {previous previous' : Option Lexeme},
    previous.all Lexeme.beforeOperand = previous'.all Lexeme.beforeOperand →
    lexemes (scanFrom position previous skip t) = lexemes (scanFrom position' previous' skip t) := by
  induction t with
  | nil =>
    intro _ _ skip _ _ _
    cases skip <;> rfl
  | cons c t ih =>
    intro position position' skip previous previous' h
    cases skip with
    | succ skip => exact ih h
    | zero =>
      have hkind := kind_first position position' c t
      cases hfirst : first position c t with
      | error p =>
        cases hfirst' : first position' c t with
        | error p' =>
          rw [hfirst, hfirst'] at hkind
          rw [scanFrom_of_error hfirst, scanFrom_of_error hfirst']
          exact congrArg Except.error (Except.error.inj hkind)
        | ok found =>
          rw [hfirst, hfirst'] at hkind
          cases hkind
      | ok found =>
        have hfirst' : first position' c t = .ok found := by
          cases hfirst' : first position' c t with
          | error p' =>
            rw [hfirst, hfirst'] at hkind
            cases hkind
          | ok found' =>
            rw [hfirst, hfirst'] at hkind
            exact congrArg Except.ok (Except.ok.inj hkind).symm
        obtain ⟨lexeme, more⟩ := found
        cases lexeme with
        | none =>
          rw [scanFrom_of_none hfirst, scanFrom_of_none hfirst']
          exact ih h
        | some l =>
          have hplace : inPlace previous l = inPlace previous' l := by
            unfold inPlace
            rw [h]
          rw [scanFrom_of_some hfirst, scanFrom_of_some hfirst', hplace]
          rw [lexemes_map_cons, lexemes_map_cons]
          exact congrArg _ (ih rfl)

/-! ## Behind an operand -/

theorem classes_of_isAsciiBlank {c : Char} (h : Text.isAsciiBlank c) :
    isNumberPart c = false ∧ isNamePart c = false := by
  obtain ⟨hnumber, hname⟩ := isNumberPart_of_isAsciiBlank h
  have hline : c ≠ '_' := fun e => by subst e; revert h; decide
  refine ⟨hnumber, ?_⟩
  simp only [isNumberPart, Bool.or_eq_false_iff] at hnumber
  simp only [isNameStart] at hname
  simp [isNamePart, Char.isAlphanum, hname, hnumber.1, hline]

theorem classes_of_endsOperand {rest : Text} (h : rest.EndsOperand) {c : Char}
    (hc : c ∈ rest.head?) : isNumberPart c = false ∧ isNamePart c = false := by
  cases h with
  | blank hall => exact classes_of_isAsciiBlank (hall c (List.mem_of_mem_head? hc))
  | @sign blanks rest d l hall hl hends =>
    cases blanks with
    | nil =>
      cases hc
      exact classes_of_plainSign hl
    | cons b blanks =>
      cases hc
      exact classes_of_isAsciiBlank (hall _ List.mem_cons_self)

theorem endsOperand_of_scanFrom {rest : Text} (h : rest.EndsOperand) {position : Nat}
    {previous : Lexeme} (hprevious : previous.beforeOperand = false) {tokens : List Token}
    (hscan : scanFrom position (some previous) 0 (rest.map plainSign) = .ok tokens) :
    ∀ token ∈ tokens.head?, token.lexeme.EndsOperand := by
  cases h with
  | blank hall =>
    have hblanks := scanFrom_blanks (some previous) position [] hall
    rw [List.append_nil, hscan] at hblanks
    cases hblanks
    nofun
  | @sign blanks rest c l hall hl hends =>
    have hplace : inPlace (some previous) l = l := by
      unfold inPlace
      rw [if_neg]
      simp [hprevious]
    rw [scanFrom_blanks _ _ _ hall, List.map_cons, scanFrom_of_some (first_of_ofSign hl _ _),
      hplace] at hscan
    cases hrest : scanFrom (position + blanks.length + 1) (some l) 0 (rest.map plainSign) with
    | error p =>
      rw [hrest] at hscan
      cases hscan
    | ok more =>
      rw [hrest] at hscan
      cases hscan
      rintro token ⟨⟩
      exact hends

end Token

end DeskCalculator
