import DeskCalculator.Proofs.Expression.Seams
import DeskCalculator.Proofs.Expression.Spelling

/-!
# Where the characters of a text go

Every character of a text that is scanned belongs to the lexeme of one token or is blank, and each
lexeme is as long as it can be: the tokens tile the text (`Tiles`). A scan that fails has come as
far as the character where nothing can go on, and the text before it can be scanned
(`exists_of_scanFrom_error`). `scan_covers` says both of whole texts.
-/

namespace DeskCalculator.Token

/-! ## Words -/

def symbols : List Char := ['+', '-', '*', '/', '^', '(', ')', ',', '!', '%']

/-- A run of digits and points, a name, or a single symbol. -/
inductive IsWord : Text → Prop where
  | run {w : Text} : w ≠ [] → (∀ c ∈ w, isNumberPart c) → IsWord w
  | name {c : Char} {rest : Text} : isNameStart c → (∀ d ∈ rest, isNamePart d) → IsWord (c :: rest)
  | symbol {c : Char} : c ∈ symbols → IsWord [c]

/-- The longest word that a text starts with. -/
structure IsLongest (word t : Text) : Prop where
  isWord : IsWord word
  starts : word <+: t
  longest : ∀ w, IsWord w → w <+: t → w.length ≤ word.length

theorem IsWord.ne_nil {w : Text} (h : IsWord w) : w ≠ [] := by
  cases h with
  | run hne => exact hne
  | _ => simp

theorem IsLongest.eq {word word' t : Text} (h : IsLongest word t) (h' : IsLongest word' t) :
    word = word' :=
  (List.prefix_of_prefix_length_le h.starts h'.starts
    (h'.longest _ h.isWord h.starts)).eq_of_length_le (h.longest _ h'.isWord h'.starts)

theorem classes_of_symbol {c : Char} (h : c ∈ symbols) :
    isNumberPart c = false ∧ isNameStart c = false := by
  simp only [symbols, List.mem_cons, List.not_mem_nil, or_false] at h
  rcases h with rfl | rfl | rfl | rfl | rfl | rfl | rfl | rfl | rfl | rfl <;> decide

theorem length_le_of_front {p : Char → Bool} {w t : Text} (h : w <+: t) (hw : ∀ c ∈ w, p c) :
    w.length ≤ (t.takeWhile p).length := by
  obtain ⟨rest, rfl⟩ := h
  rw [List.takeWhile_append_of_pos hw, List.length_append]
  exact Nat.le_add_right ..

section Longest

variable {c : Char} {rest : Text}

theorem isLongest_run (hc : isNumberPart c) :
    IsLongest (c :: rest.takeWhile isNumberPart) (c :: rest) where
  isWord := .run (by simp) (by simpa [hc] using List.all_eq_true.1 List.all_takeWhile)
  starts := by simpa using List.takeWhile_prefix isNumberPart
  longest w hw hstarts := by
    obtain ⟨d, w, rfl⟩ := List.exists_cons_of_ne_nil hw.ne_nil
    obtain ⟨rfl, hrest⟩ := List.cons_prefix_cons.1 hstarts
    cases hw with
    | run _ hrun =>
      exact Nat.succ_le_succ
        (length_le_of_front hrest fun e he => hrun e (List.mem_cons_of_mem _ he))
    | name hstart => simp [isNumberPart_of_isNameStart hstart] at hc
    | symbol hsymbol => simp [classes_of_symbol hsymbol] at hc

theorem isLongest_name (hc : isNameStart c) :
    IsLongest (c :: rest.takeWhile isNamePart) (c :: rest) where
  isWord := .name hc (List.all_eq_true.1 List.all_takeWhile)
  starts := by simpa using List.takeWhile_prefix isNamePart
  longest w hw hstarts := by
    obtain ⟨d, w, rfl⟩ := List.exists_cons_of_ne_nil hw.ne_nil
    obtain ⟨rfl, hrest⟩ := List.cons_prefix_cons.1 hstarts
    cases hw with
    | run _ hrun => simp [isNumberPart_of_isNameStart hc] at hrun
    | name _ hparts => exact Nat.succ_le_succ (length_le_of_front hrest hparts)
    | symbol hsymbol => simp [classes_of_symbol hsymbol] at hc

theorem isLongest_symbol (hc : c ∈ symbols) : IsLongest [c] (c :: rest) where
  isWord := .symbol hc
  starts := ⟨rest, rfl⟩
  longest w hw hstarts := by
    obtain ⟨hnumber, hname⟩ := classes_of_symbol hc
    obtain ⟨d, w, rfl⟩ := List.exists_cons_of_ne_nil hw.ne_nil
    obtain ⟨rfl, -⟩ := List.cons_prefix_cons.1 hstarts
    cases hw with
    | run _ hrun => simp [hnumber] at hrun
    | name hstart => simp [hname] at hstart
    | symbol => exact Nat.le_refl 1

end Longest

/-! ## The first word of a text -/

theorem isDigit_of_isNumberPart {w : Text} (h : ∀ c ∈ w, isNumberPart c) (hpoint : '.' ∉ w) :
    ∀ c ∈ w, c.isDigit := by
  intro c hc
  have hne : c ≠ '.' := fun e => hpoint (e ▸ hc)
  simpa [isNumberPart, hne] using h c hc

theorem isWrittenAs_number {run : Text} (hne : run ≠ []) (hrun : ∀ c ∈ run, isNumberPart c)
    (hnumber : isNumber run) : (Lexeme.number run).IsWrittenAs run := by
  simp only [isNumber, Bool.and_eq_true, decide_eq_true_eq, bne_iff_ne] at hnumber
  obtain ⟨hcount, hlone⟩ := hnumber
  by_cases hpoint : '.' ∈ run
  · obtain ⟨digits, places, rfl⟩ := List.append_of_mem hpoint
    rw [List.count_append, List.count_cons_self] at hcount
    have hdigits : '.' ∉ digits ++ places := by
      rw [← List.count_eq_zero, List.count_append]
      omega
    refine .pointed ?_ (isDigit_of_isNumberPart (fun c hc => hrun c ?_) hdigits)
    · intro hnil
      obtain ⟨rfl, rfl⟩ := List.append_eq_nil_iff.1 hnil
      exact hlone rfl
    · rcases List.mem_append.1 hc with hc | hc
      · exact List.mem_append_left _ hc
      · exact List.mem_append_right _ (List.mem_cons_of_mem _ hc)
  · exact .whole hne (isDigit_of_isNumberPart hrun hpoint)

theorem isWrittenAs_ofName {c : Char} {rest : Text} (hc : isNameStart c)
    (hrest : ∀ d ∈ rest, isNamePart d) : (ofName (c :: rest)).IsWrittenAs (c :: rest) := by
  unfold ofName
  simp only
  split
  · exact .constant hc hrest (by assumption)
  · exact .function hc hrest (by assumption)

theorem signs_of_ofSign {c : Char} {l : Lexeme} (h : ofSign? c = some l) :
    c ∈ symbols ∧ c ∈ l.signs := by
  unfold ofSign? at h
  split at h
  case h_11 => cases h
  all_goals
    cases h
    decide

theorem not_mem_symbols {c : Char} (h : ofSign? c = none) : c ∉ symbols := by
  intro hmem
  simp only [symbols, List.mem_cons, List.not_mem_nil, or_false] at hmem
  rcases hmem with rfl | rfl | rfl | rfl | rfl | rfl | rfl | rfl | rfl | rfl <;> cases h

/-- What can stand at the start of the text `c :: rest`: a word, a blank, a malformed number or a
character that starts no word. -/
inductive Begins (position : Nat) (c : Char) (rest : Text) :
    Except Problem (Option Lexeme × Nat) → Prop where
  | word {l : Lexeme} {word : Text} : IsLongest word (c :: rest) → l.IsWrittenAs word →
      Begins position c rest (.ok (some l, word.length - 1))
  | blank : Text.isAsciiBlank c → Begins position c rest (.ok (none, 0))
  | malformed {run : Text} : IsLongest run (c :: rest) → (∀ d ∈ run, isNumberPart d) →
      isNumber run = false → Begins position c rest (.error (.malformedNumber run position))
  | unknown : Text.isAsciiBlank c = false → (∀ w, IsWord w → c ∉ w.head?) →
      Begins position c rest (.error (.unknownToken c position))

theorem begins_first (position : Nat) (c : Char) (rest : Text) :
    Begins position c rest (first position c rest) := by
  unfold first
  split
  · rename_i hc
    have hrun : ∀ d ∈ c :: rest.takeWhile isNumberPart, isNumberPart d := by
      simpa [hc] using List.all_eq_true.1 List.all_takeWhile
    simp only
    split
    · rename_i hnumber
      exact .word (isLongest_run hc) (isWrittenAs_number (by simp) hrun hnumber)
    · rename_i hnumber
      exact .malformed (isLongest_run hc) hrun (by simpa using hnumber)
  · rename_i hnumber
    split
    · rename_i hc
      exact .word (isLongest_name hc)
        (isWrittenAs_ofName hc (List.all_eq_true.1 List.all_takeWhile))
    · rename_i hname
      split
      · rename_i hblank
        exact .blank hblank
      · rename_i hblank
        split
        · rename_i l hsign
          obtain ⟨hsymbol, hl⟩ := signs_of_ofSign hsign
          exact .word (isLongest_symbol hsymbol) (.sign hl)
        · rename_i hsign
          refine .unknown (by simpa using hblank) fun w hw hc => ?_
          cases hw with
          | run hne hrun => exact hnumber (hrun c (List.mem_of_mem_head? hc))
          | name hstart =>
            cases hc
            exact hname hstart
          | symbol hsymbol =>
            cases hc
            exact not_mem_symbols hsign hsymbol

/-! ## Tilings -/

/-- The tokens of a text that starts at a position, each the longest word where it stands, with
nothing but blanks around them. -/
inductive Tiles : Nat → Text → List Token → Prop where
  | nil (position : Nat) : Tiles position [] []
  | blank {position : Nat} {c : Char} {rest : Text} {tokens : List Token} : Text.isAsciiBlank c →
      Tiles (position + 1) rest tokens → Tiles position (c :: rest) tokens
  | word {position : Nat} {l : Lexeme} {word rest : Text} {tokens : List Token} :
      IsLongest word (word ++ rest) → l.IsWrittenAs word →
      Tiles (position + word.length) rest tokens →
      Tiles position (word ++ rest) (⟨l, position⟩ :: tokens)

theorem isWrittenAs_inPlace {previous : Option Lexeme} {l : Lexeme} {word : Text}
    (h : l.IsWrittenAs word) : (inPlace previous l).IsWrittenAs word := by
  unfold inPlace
  split
  · rename_i hminus
    obtain ⟨rfl, -⟩ := hminus
    cases h with
    | sign hsign => exact .sign hsign
  · exact h

/-- **A scan tiles its text.** -/
theorem tiles_of_scanFrom {t : Text} : ∀ {position skip : Nat} {previous : Option Lexeme}
    {tokens : List Token}, skip ≤ t.length → scanFrom position previous skip t = .ok tokens →
    Tiles (position + skip) (t.drop skip) tokens := by
  induction t with
  | nil =>
    intro position skip previous tokens hskip h
    obtain rfl : skip = 0 := by simpa using hskip
    cases h
    exact .nil _
  | cons c rest ih =>
    intro position skip previous tokens hskip h
    cases skip with
    | succ skip =>
      have := ih (by simpa using hskip) h
      rwa [Nat.add_right_comm] at this
    | zero =>
      have hbegins := begins_first position c rest
      cases hfirst : first position c rest with
      | error p =>
        rw [scanFrom_of_error hfirst] at h
        cases h
      | ok found =>
        obtain ⟨lexeme, more⟩ := found
        have hmore := le_length_of_first hfirst
        rw [hfirst] at hbegins
        cases lexeme with
        | none =>
          rw [scanFrom_of_none hfirst] at h
          have htiles := ih hmore h
          cases hbegins with
          | blank hblank => exact .blank hblank htiles
        | some l =>
          rw [scanFrom_of_some hfirst] at h
          cases hscan : scanFrom (position + 1) (some (inPlace previous l)) more rest with
          | error p =>
            rw [hscan] at h
            cases h
          | ok tokens =>
            rw [hscan] at h
            cases h
            have htiles := ih hmore hscan
            cases hbegins with
            | @word _ word hlongest hwritten =>
              obtain ⟨d, tail, rfl⟩ := List.exists_cons_of_ne_nil hlongest.isWord.ne_nil
              obtain ⟨after, hafter⟩ := hlongest.starts
              rw [List.cons_append] at hafter
              obtain ⟨rfl, rfl⟩ := List.cons.inj hafter
              rw [List.length_cons, Nat.add_sub_cancel, List.drop_left, Nat.add_assoc,
                Nat.add_comm 1] at htiles
              exact .word hlongest (isWrittenAs_inPlace hwritten) htiles

/-! ## The places of a tiling -/

/-- What a token has to do with its word: it stands for the longest word at its position, with its
letters small, unless it is a minus that negates. A number has a digit and at most one point. -/
structure StandsFor (t : Text) (token : Token) (word : Text) : Prop where
  isLongest : IsLongest word (t.drop token.position)
  written : token.lexeme.IsWrittenAs word
  value : token.lexeme.text = Text.lower word ∨ word = ['-'] ∧ token.lexeme = .operator .negate
  number : ∀ run, token.lexeme = .number run → (∃ c ∈ run, c.isDigit) ∧ run.count '.' ≤ 1

/-- Tokens account for all characters of a text. -/
structure Covers (tokens : List Token) (t : Text) : Prop where
  increasing : tokens.Pairwise fun a b => a.position < b.position
  stands : ∀ token ∈ tokens, ∃ word, StandsFor t token word
  /-- No two words have a character in common. -/
  apart : tokens.Pairwise fun a b => ∀ word, StandsFor t a word →
    a.position + word.length ≤ b.position
  /-- Every character belongs to a word or is one of the six blanks. -/
  covered : ∀ i c, t[i]? = some c →
    (∃ token ∈ tokens, ∃ word, StandsFor t token word ∧
      token.position ≤ i ∧ i < token.position + word.length) ∨
    c ∈ [' ', '\t', '\n', '\x0b', '\x0c', '\r']

theorem isAsciiBlank_iff (c : Char) :
    Text.isAsciiBlank c ↔ c ∈ [' ', '\t', '\n', '\x0b', '\x0c', '\r'] := by
  have hcode (d : Char) : c = d ↔ c.toNat = d.toNat :=
    ⟨congrArg _, fun h => Char.ext (UInt32.toNat_inj.1 h)⟩
  simp only [Text.isAsciiBlank, Bool.or_eq_true, Bool.and_eq_true, beq_iff_eq, decide_eq_true_eq,
    List.mem_cons, List.not_mem_nil, or_false, hcode]
  show _ ↔ c.toNat = 32 ∨ c.toNat = 9 ∨ c.toNat = 10 ∨ c.toNat = 11 ∨ c.toNat = 12 ∨ c.toNat = 13
  omega

theorem lower_of_isNumberPart {w : Text} (h : ∀ c ∈ w, isNumberPart c) : Text.lower w = w := by
  have hsmall : ∀ c ∈ w, ¬ ('A' ≤ c ∧ c ≤ 'Z') := by
    intro c hc
    have hpart := h c hc
    simp only [isNumberPart, Char.isDigit, Bool.or_eq_true, Bool.and_eq_true, decide_eq_true_eq,
      beq_iff_eq, UInt32.le_iff_toNat_le] at hpart
    rintro ⟨hle, -⟩
    have hle : 65 ≤ c.val.toNat := hle
    rcases hpart with hdigit | rfl
    · have : c.val.toNat ≤ 57 := hdigit.2
      omega
    · revert hle
      decide
  rw [Text.lower, List.map_congr_left fun c hc => if_neg (hsmall c hc), List.map_id']

theorem text_of_isWrittenAs {l : Lexeme} {word : Text} (hword : IsWord word)
    (h : l.IsWrittenAs word) :
    l.text = Text.lower word ∨ word = ['-'] ∧ l = .operator .negate := by
  cases h with
  | whole hne hdigits =>
    exact .inl (lower_of_isNumberPart (isNumberPart_of_isWrittenAs (.whole hne hdigits))).symm
  | pointed hne hdigits =>
    exact .inl (lower_of_isNumberPart (isNumberPart_of_isWrittenAs (.pointed hne hdigits))).symm
  | constant | function => exact .inl rfl
  | @sign _ c hsign =>
    have hplain : c ≠ '×' ∧ c ≠ '÷' ∧ c ≠ '−' := by
      refine ⟨?_, ?_, ?_⟩ <;> rintro rfl <;> cases hword with
      | run _ hrun => exact absurd (hrun _ List.mem_cons_self) (by decide)
      | name hstart => exact absurd hstart (by decide)
      | symbol hsymbol => exact absurd hsymbol (by decide)
    cases l with
    | operator s | postfixed s =>
      cases s <;> simp [Lexeme.signs, hplain] at hsign <;> subst hsign <;> decide
    | _ => simp [Lexeme.signs] at hsign <;> subst hsign <;> decide

theorem number_of_isWrittenAs {run word : Text} (h : (Lexeme.number run).IsWrittenAs word) :
    (∃ c ∈ run, c.isDigit) ∧ run.count '.' ≤ 1 := by
  cases h with
  | whole hne hdigits =>
    obtain ⟨c, rest, rfl⟩ := List.exists_cons_of_ne_nil hne
    exact ⟨⟨c, List.mem_cons_self, hdigits c List.mem_cons_self⟩,
      by rw [count_point_of_digits hdigits]; exact Nat.zero_le 1⟩
  | @pointed digits places hne hdigits =>
    obtain ⟨c, hc⟩ := List.exists_mem_of_ne_nil _ hne
    have hcount := count_point_of_digits hdigits
    rw [List.count_append] at hcount
    refine ⟨⟨c, ?_, hdigits c hc⟩, ?_⟩
    · rcases List.mem_append.1 hc with hc | hc
      · exact List.mem_append_left _ hc
      · exact List.mem_append_right _ (List.mem_cons_of_mem _ hc)
    · rw [List.count_append, List.count_cons_self]
      omega
  | sign hsign => cases hsign

namespace Tiles

variable {position : Nat} {t u : Text} {tokens : List Token}

theorem standsFor {l : Lexeme} {word rest : Text} (hlongest : IsLongest word (word ++ rest))
    (hwritten : l.IsWrittenAs word) (hu : u.drop position = word ++ rest) :
    StandsFor u ⟨l, position⟩ word where
  isLongest := by rwa [hu]
  written := hwritten
  value := text_of_isWrittenAs hlongest.isWord hwritten
  number := by
    rintro run ⟨⟩
    exact number_of_isWrittenAs hwritten

theorem drop_word (word : Text) {rest : Text} (hu : u.drop position = word ++ rest) :
    u.drop (position + word.length) = rest := by
  rw [← List.drop_drop, hu, List.drop_left]

theorem stands (h : Tiles position t tokens) (hu : u.drop position = t) :
    ∀ token ∈ tokens, position ≤ token.position ∧ ∃ word, StandsFor u token word := by
  induction h with
  | nil => simp
  | @blank position c rest tokens hblank _ ih =>
    intro token ht
    obtain ⟨hle, hstands⟩ := ih (drop_word [c] hu) token ht
    exact ⟨Nat.le_of_succ_le hle, hstands⟩
  | word hlongest hwritten _ ih =>
    intro token ht
    rcases List.mem_cons.1 ht with rfl | ht
    · exact ⟨Nat.le_refl _, _, standsFor hlongest hwritten hu⟩
    · obtain ⟨hle, hstands⟩ := ih (drop_word _ hu) token ht
      exact ⟨Nat.le_trans (Nat.le_add_right ..) hle, hstands⟩

theorem apart (h : Tiles position t tokens) (hu : u.drop position = t) :
    tokens.Pairwise fun a b => ∀ word, StandsFor u a word →
      a.position + word.length ≤ b.position := by
  induction h with
  | nil => exact .nil
  | @blank position c _ _ _ _ ih => exact ih (drop_word [c] hu)
  | word hlongest hwritten htiles ih =>
    refine .cons (fun token ht word hword => ?_) (ih (drop_word _ hu))
    obtain rfl := hword.isLongest.eq (standsFor hlongest hwritten hu).isLongest
    exact (htiles.stands (drop_word _ hu) token ht).1

theorem covered (h : Tiles position t tokens) (hu : u.drop position = t) {i : Nat} {c : Char}
    (hi : position ≤ i) (hc : u[i]? = some c) :
    (∃ token ∈ tokens, ∃ word, StandsFor u token word ∧
      token.position ≤ i ∧ i < token.position + word.length) ∨ Text.isAsciiBlank c := by
  induction h with
  | nil =>
    have hlength := List.drop_eq_nil_iff.1 hu
    rw [List.getElem?_eq_none (Nat.le_trans hlength hi)] at hc
    cases hc
  | @blank position d rest tokens hblank _ ih =>
    rcases Nat.eq_or_lt_of_le hi with rfl | hlt
    · have hd : u[position]? = some d := by rw [← List.head?_drop, hu]; rfl
      obtain rfl : d = c := Option.some.inj (hd.symm.trans hc)
      exact .inr hblank
    · exact ih (drop_word [d] hu) hlt
  | @word position l word rest tokens hlongest hwritten _ ih =>
    rcases Nat.lt_or_ge i (position + word.length) with hlt | hge
    · exact .inl ⟨_, List.mem_cons_self, word, standsFor hlongest hwritten hu, hi, hlt⟩
    · refine (ih (drop_word _ hu) hge).imp_left ?_
      rintro ⟨token, ht, hword⟩
      exact ⟨token, List.mem_cons_of_mem _ ht, hword⟩

theorem covers (h : Tiles 0 t tokens) : Covers tokens t where
  increasing := by
    refine (h.apart rfl).imp_of_mem fun {a b} ha _ hapart => ?_
    obtain ⟨-, word, hword⟩ := h.stands rfl a ha
    have := List.length_pos_iff.2 hword.isLongest.isWord.ne_nil
    have := hapart word hword
    omega
  stands token ht := (h.stands rfl token ht).2
  apart := h.apart rfl
  covered i c hc := (h.covered rfl (Nat.zero_le i) hc).imp_right (isAsciiBlank_iff c).1

end Tiles

/-! ## Where a scan fails -/

theorem first_take {position more n : Nat} {c : Char} {rest : Text} {l : Option Lexeme}
    (h : first position c rest = .ok (l, more)) (hn : more ≤ n) :
    first position c (rest.take n) = .ok (l, more) := by
  have htake (p : Char → Bool) (hp : (rest.takeWhile p).length ≤ n) :
      (rest.take n).takeWhile p = rest.takeWhile p := by
    rw [← List.take_takeWhile, List.take_of_length_le hp]
  by_cases hnumber : isNumberPart c
  · simp only [first, hnumber, if_true] at h ⊢
    split at h
    · rename_i hrun
      cases h
      rw [htake isNumberPart hn, if_pos hrun]
    · cases h
  · by_cases hname : isNameStart c
    · simp only [first, hnumber, hname, if_true, Bool.false_eq_true, if_false] at h ⊢
      cases h
      rw [htake isNamePart hn]
    · simpa only [first, hnumber, hname, Bool.false_eq_true, if_false] using h

/-- **A scan that fails** has come to a place where nothing can stand, and the text before this place
can be scanned. -/
theorem exists_of_scanFrom_error {t : Text} : ∀ {position skip : Nat} {previous : Option Lexeme}
    {p : Problem}, skip ≤ t.length → scanFrom position previous skip t = .error p →
    ∃ n c rest, skip ≤ n ∧ t.drop n = c :: rest ∧ first (position + n) c rest = .error p ∧
      ∃ tokens, scanFrom position previous skip (t.take n) = .ok tokens := by
  induction t with
  | nil =>
    intro position skip previous p hskip h
    obtain rfl : skip = 0 := by simpa using hskip
    cases h
  | cons c rest ih =>
    intro position skip previous p hskip h
    cases skip with
    | succ skip =>
      obtain ⟨n, d, after, hn, hdrop, hfirst, hscan⟩ := ih (by simpa using hskip) h
      rw [Nat.add_right_comm] at hfirst
      exact ⟨n + 1, d, after, Nat.succ_le_succ hn, hdrop, hfirst, hscan⟩
    | zero =>
      cases hfirst : first position c rest with
      | error p' =>
        rw [scanFrom_of_error hfirst] at h
        cases h
        exact ⟨0, c, rest, Nat.le_refl 0, rfl, hfirst, [], rfl⟩
      | ok found =>
        obtain ⟨lexeme, more⟩ := found
        have hmore := le_length_of_first hfirst
        cases lexeme with
        | none =>
          rw [scanFrom_of_none hfirst] at h
          obtain ⟨n, d, after, hn, hdrop, hstop, tokens, hscan⟩ := ih hmore h
          rw [Nat.add_right_comm] at hstop
          refine ⟨n + 1, d, after, Nat.zero_le _, hdrop, hstop, tokens, ?_⟩
          rw [List.take_succ_cons, scanFrom_of_none (first_take hfirst hn), hscan]
        | some l =>
          rw [scanFrom_of_some hfirst] at h
          cases hrest : scanFrom (position + 1) (some (inPlace previous l)) more rest with
          | ok tokens =>
            rw [hrest] at h
            cases h
          | error p' =>
            rw [hrest] at h
            cases h
            obtain ⟨n, d, after, hn, hdrop, hstop, tokens, hscan⟩ := ih hmore hrest
            rw [Nat.add_right_comm] at hstop
            refine ⟨n + 1, d, after, Nat.zero_le _, hdrop, hstop,
              ⟨inPlace previous l, position⟩ :: tokens, ?_⟩
            rw [List.take_succ_cons, scanFrom_of_some (first_take hfirst hn), hscan]
            rfl

/-! ## Texts -/

/-- Why a text cannot be scanned: up to a position it can, and there stands a character that starts
no word, or a run of digits and points with no digit or with two points or more. -/
inductive Refuses (t : Text) : Problem → Prop where
  | unknown {c : Char} {position : Nat} : t[position]? = some c → Text.isAsciiBlank c = false →
      (∀ w, IsWord w → plainSign c ∉ w.head?) → (∃ tokens, scan (t.take position) = .ok tokens) →
      Refuses t (.unknownToken c position)
  | malformed {run : Text} {position : Nat} :
      IsLongest run ((t.map plainSign).drop position) → (∀ c ∈ run, isNumberPart c) →
      ((∀ c ∈ run, ¬ c.isDigit) ∨ 2 ≤ run.count '.') →
      (∃ tokens, scan (t.take position) = .ok tokens) → Refuses t (.malformedNumber run position)

theorem not_isDigit_or_of_isNumber {run : Text} (h : isNumber run = false) :
    (∀ c ∈ run, ¬ c.isDigit) ∨ 2 ≤ run.count '.' := by
  by_cases hcount : run.count '.' ≤ 1
  · have hlone : run = ['.'] := by simpa [isNumber, hcount] using h
    subst hlone
    exact .inl (by simp)
  · exact .inr (by omega)

theorem plainSign_eq_self {c : Char} (h : ∀ w, IsWord w → plainSign c ∉ w.head?) :
    plainSign c = c := by
  rcases plainSign_cases c with ⟨hsign, -⟩ | hself
  · have hsymbol : plainSign c ∈ symbols := by
      rcases hsign with rfl | rfl | rfl <;> decide
    exact absurd rfl (h _ (.symbol hsymbol))
  · exact hself

/-- **A scan accounts for every character.** Its tokens cover the text with its typographic signs
made plain, or it refuses the text for what stands at a position up to which the text can be
scanned. -/
theorem scan_covers (t : Text) :
    match scan t with
    | .ok tokens => Covers tokens (t.map plainSign)
    | .error p => Refuses t p := by
  cases hscan : scan t with
  | ok tokens => exact (tiles_of_scanFrom (Nat.zero_le _) hscan).covers
  | error p =>
    obtain ⟨n, c, rest, -, hdrop, hfirst, tokens, htokens⟩ :=
      exists_of_scanFrom_error (Nat.zero_le _) hscan
    have hbefore : ∃ tokens, scan (t.take n) = .ok tokens :=
      ⟨tokens, by rw [scan, List.map_take, htokens]⟩
    have hbegins := begins_first (0 + n) c rest
    rw [hfirst, Nat.zero_add] at hbegins
    cases hbegins with
    | malformed hlongest hrun hnumber =>
      exact .malformed (by rwa [hdrop]) hrun (not_isDigit_or_of_isNumber hnumber) hbefore
    | unknown hblank hword =>
      have hc : (t.map plainSign)[n]? = some c := by rw [← List.head?_drop, hdrop]; rfl
      rw [List.getElem?_map] at hc
      obtain ⟨d, hd, rfl⟩ := Option.map_eq_some_iff.1 hc
      have hself := plainSign_eq_self hword
      rw [hself] at hblank ⊢
      exact .unknown hd hblank hword hbefore

end DeskCalculator.Token
