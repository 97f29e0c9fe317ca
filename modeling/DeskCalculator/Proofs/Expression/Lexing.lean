import DeskCalculator.Proofs.Expression.Grammar

/-!
# Reading the lexemes of a text that spells them

`scan_of_spells`: a text that spells lexemes is scanned into exactly these lexemes, if every minus
and every negation among them stands in its place. `placement` follows a list of lexemes and tells
whether an operand may start behind it; `placement_of_derives` shows that a derivation puts every
minus and every negation in its place, so that the reading of a minus by what comes before it agrees
with the grammar.
-/

namespace DeskCalculator

/-! ## The two readings of a minus -/

namespace Lexeme

/-- A lexeme before the two readings of a minus are told apart. -/
def unsigned : Lexeme → Lexeme
  | operator .negate => operator .minus
  | l => l

/-- Whether a lexeme may stand where an operand starts, or where none does. -/
def fits (operandStarts : Bool) : Lexeme → Bool
  | operator .negate => operandStarts
  | operator .minus => !operandStarts
  | _ => true

/-- Follows lexemes as long as they are in place, and tells whether an operand starts behind them. -/
def placement (operandStarts : Bool) : List Lexeme → Option Bool
  | [] => some operandStarts
  | l :: rest => if l.fits operandStarts then placement l.beforeOperand rest else none

theorem placement_append (b : Bool) (ls ms : List Lexeme) :
    placement b (ls ++ ms) = (placement b ls).bind (placement · ms) := by
  induction ls generalizing b with
  | nil => rfl
  | cons l ls ih =>
    simp only [List.cons_append, placement]
    split
    · exact ih _
    · rfl

end Lexeme

/-- Before a category that may start with a negation an operand has to start; the applied functions
and the atoms may stand anywhere. -/
def Category.mayFollow (operandStarts : Bool) : Category → Bool
  | applied | atom => true
  | _ => operandStarts

theorem Category.mayFollow_next {b : Bool} {c : Category} (h : c.mayFollow b) :
    c.next.mayFollow b := by
  cases c <;> simp_all [mayFollow, next]

open Lexeme in
/-- Where each of several lists is in place behind an opening parenthesis or a comma, so are all of
them with commas between them. -/
theorem placement_separated {lists : List (List Lexeme)} (hne : lists ≠ [])
    (h : ∀ ls ∈ lists, placement true ls = some false) :
    placement true (separated lists) = some false := by
  induction lists with
  | nil => exact absurd rfl hne
  | cons ls rest ih =>
    have hls : placement true ls = some false := h ls List.mem_cons_self
    cases rest with
    | nil => exact hls
    | cons ms rest =>
      have := ih (by simp) fun l hl => h l (List.mem_cons_of_mem _ hl)
      simpa [separated, placement_append, placement, fits, beforeOperand, hls] using this

open Lexeme in
/-- What a category derives is in place wherever the category may follow, and no operand starts
behind it. -/
theorem placement_of_derives {c : Category} {ls : List Lexeme} {e : Tree} (h : Derives c ls e) :
    ∀ {b : Bool}, c.mayFollow b → placement b ls = some false := by
  induction h with
  | widen _ ih => exact fun hb => ih (Category.mayFollow_next hb)
  | @leftOperator op _ _ _ _ _ _ _ ihl ihr =>
    intro b hb
    have hr := ihr (b := true) (by cases op <;> rfl)
    rw [placement_append, ihl hb]
    cases op <;> simpa [placement, fits, beforeOperand, BinaryOperator.symbol] using hr
  | power _ _ ihl ihr =>
    intro b hb
    rw [placement_append, ihl hb]
    simpa [placement, fits, beforeOperand] using ihr (b := true) rfl
  | negate _ ih =>
    intro b hb
    obtain rfl : b = true := hb
    simpa [placement, fits, beforeOperand] using ih (b := true) rfl
  | postfixed sign _ ih =>
    intro b hb
    rw [placement_append, ih hb]
    rfl
  | apply name _ ih =>
    intro b _
    simpa [placement, fits, beforeOperand] using ih (b := false) rfl
  | number t => exact fun _ => rfl
  | constant name => exact fun _ => rfl
  | group _ ih =>
    intro b _
    simp [placement, placement_append, fits, beforeOperand, ih (b := true) rfl]
  | @call name arguments hne _ ih =>
    intro b _
    have hall : ∀ ls ∈ arguments.map Prod.fst, placement true ls = some false := by
      intro ls hls
      obtain ⟨a, ha, rfl⟩ := List.mem_map.1 hls
      exact ih a ha (b := true) rfl
    have := placement_separated (by simpa using hne) hall
    simp [placement, placement_append, fits, beforeOperand, this]

namespace Token

theorem inPlace_unsigned {previous : Option Lexeme} {l : Lexeme}
    (h : l.fits (previous.all Lexeme.beforeOperand)) : inPlace previous l.unsigned = l := by
  unfold inPlace
  cases l with
  | operator s => cases s <;> simp_all [Lexeme.fits, Lexeme.unsigned]
  | _ => simp [Lexeme.unsigned]

/-! ## One word -/

section PlainSigns

variable {p : Char → Bool} (h : p '×' = false ∧ p '÷' = false ∧ p '−' = false)
include h

theorem plainSign_of_mem {c : Char} (hc : p c) : plainSign c = c := by
  unfold plainSign
  split
  · subst_vars; simp_all
  · split
    · subst_vars; simp_all
    · split
      · subst_vars; simp_all
      · rfl

theorem map_plainSign_of_all {t : Text} (ht : ∀ c ∈ t, p c) : t.map plainSign = t := by
  rw [List.map_congr_left fun c hc => plainSign_of_mem h (ht c hc), List.map_id']

theorem takeWhile_run (h' : p '*' = false ∧ p '/' = false ∧ p '-' = false) {run rest : Text}
    (hrun : ∀ c ∈ run, p c) (hrest : ∀ c ∈ rest.head?, p c = false) :
    (run.map plainSign ++ rest.map plainSign).takeWhile p = run := by
  rw [map_plainSign_of_all h hrun, List.takeWhile_append_of_pos (by simpa using hrun)]
  cases rest with
  | nil => simp
  | cons c rest =>
    have hc : p c = false := hrest c rfl
    have : p (plainSign c) = false := by
      unfold plainSign
      repeat' split
      all_goals simp_all
    simp [this]

end PlainSigns

theorem isAlpha_eq (c : Char) : c.isAlpha =
    (decide (65 ≤ c.val ∧ c.val ≤ 90) || (decide (97 ≤ c.val) && decide (c.val ≤ 122))) := rfl

theorem isNumberPart_of_isNameStart {c : Char} (h : isNameStart c) : isNumberPart c = false := by
  have hdot : c ≠ '.' := fun e => by subst e; revert h; decide
  simp only [isNameStart, isAlpha_eq, isNumberPart, Char.isDigit,
    UInt32.le_iff_toNat_le] at h ⊢
  simp [hdot] at h ⊢
  omega

theorem isNumberPart_of_isAsciiBlank {c : Char} (h : Text.isAsciiBlank c) :
    isNumberPart c = false ∧ isNameStart c = false := by
  have hdot : c ≠ '.' := fun e => by subst e; revert h; decide
  simp only [isNameStart, isAlpha_eq, isNumberPart, Char.isDigit,
    Text.isAsciiBlank, Char.toNat, UInt32.le_iff_toNat_le] at h ⊢
  simp [hdot] at h ⊢
  omega

theorem first_of_number {run rest : Text} (hne : run ≠ []) (hrun : ∀ c ∈ run, isNumberPart c)
    (hnumber : isNumber run) (hrest : ∀ c ∈ rest.head?, isNumberPart c = false) (position : Nat) :
    ∃ c more, (run ++ rest).map plainSign = c :: more ∧
      first position c more = .ok (some (.number run), run.length - 1) := by
  have htake := takeWhile_run (by decide) (by decide) hrun hrest
  cases run with
  | nil => exact absurd rfl hne
  | cons c run =>
    have hc : isNumberPart c = true := hrun c List.mem_cons_self
    have hplain : plainSign c = c := plainSign_of_mem (by decide) hc
    refine ⟨c, run.map plainSign ++ rest.map plainSign, by simp [hplain], ?_⟩
    have htail : (run.map plainSign ++ rest.map plainSign).takeWhile isNumberPart = run := by
      simpa [hplain, hc] using htake
    simp [first, hc, htail, hnumber]

theorem first_of_name {c : Char} {run rest : Text} (hc : isNameStart c)
    (hrun : ∀ d ∈ run, isNamePart d) (hrest : ∀ d ∈ rest.head?, isNamePart d = false)
    (position : Nat) :
    ∃ more, (c :: run ++ rest).map plainSign = c :: more ∧
      first position c more = .ok (some (ofName (c :: run)), run.length) := by
  have hplain : plainSign c = c := plainSign_of_mem (p := isNameStart) (by decide) hc
  refine ⟨run.map plainSign ++ rest.map plainSign, by simp [hplain], ?_⟩
  simp [first, hc, isNumberPart_of_isNameStart hc, takeWhile_run (by decide) (by decide) hrun hrest]

theorem first_of_sign {l : Lexeme} {c : Char} (hc : c ∈ l.signs) (position : Nat) (more : Text) :
    first position (plainSign c) more = .ok (some l.unsigned, 0) := by
  have hfirst : isNumberPart (plainSign c) = false ∧ isNameStart (plainSign c) = false ∧
      Text.isAsciiBlank (plainSign c) = false ∧ ofSign? (plainSign c) = some l.unsigned := by
    cases l with
    | operator s => cases s <;> simp [Lexeme.signs] at hc <;> rcases hc with rfl | rfl <;> decide
    | postfixed s => cases s <;> simp [Lexeme.signs] at hc <;> subst hc <;> decide
    | _ => simp [Lexeme.signs] at hc <;> subst hc <;> decide
  simp [first, hfirst]

theorem count_point_of_digits {digits : Text} (h : ∀ c ∈ digits, c.isDigit) :
    digits.count '.' = 0 := by
  refine List.count_eq_zero.2 fun hmem => ?_
  have := h _ hmem
  revert this
  decide

theorem isNumberPart_of_isWrittenAs {run word : Text} (h : (Lexeme.number run).IsWrittenAs word) :
    ∀ c ∈ word, isNumberPart c := by
  have hdigit {c : Char} (hc : c.isDigit) : isNumberPart c := by simp [isNumberPart, hc]
  intro c hc
  cases h with
  | whole hne hdigits => exact hdigit (hdigits c hc)
  | pointed hne hdigits =>
    rcases List.mem_append.1 hc with hc | hc
    · exact hdigit (hdigits c (List.mem_append_left _ hc))
    · rcases List.mem_cons.1 hc with rfl | hc
      · rfl
      · exact hdigit (hdigits c (List.mem_append_right _ hc))
  | sign hsign => cases hsign

theorem first_of_isWrittenAs {l : Lexeme} {word rest : Text} (hw : l.IsWrittenAs word)
    (hrest : ∀ c ∈ rest.head?, l.goesOnWith c = false) (position : Nat) :
    ∃ c more, (word ++ rest).map plainSign = c :: more ∧
      first position c more = .ok (some l.unsigned, word.length - 1) := by
  cases hw with
  | whole hne hd =>
    refine first_of_number hne (isNumberPart_of_isWrittenAs (.whole hne hd)) ?_ ?_ position
    · have hpoint := count_point_of_digits hd
      simp only [isNumber, hpoint, Nat.zero_le, decide_true, Bool.true_and, bne_iff_ne]
      rintro rfl
      simp at hpoint
    · simpa [Lexeme.goesOnWith, isNumberPart] using hrest
  | @pointed digits places hne hd =>
    refine first_of_number (by simp) (isNumberPart_of_isWrittenAs (.pointed hne hd)) ?_ ?_ position
    · have hpoint := count_point_of_digits hd
      rw [List.count_append] at hpoint
      have hne' : digits ++ '.' :: places ≠ ['.'] := by
        intro heq
        cases digits <;> simp_all
      simp only [isNumber, List.count_append, List.count_cons, beq_self_eq_true, if_true,
        Bool.and_eq_true, decide_eq_true_eq, bne_iff_ne]
      exact ⟨by omega, hne'⟩
    · simpa [Lexeme.goesOnWith, isNumberPart] using hrest
  | constant hc hr hname =>
    obtain ⟨more, hmore, hfirst⟩ := first_of_name hc hr hrest position
    exact ⟨_, more, hmore, by simpa [ofName, hname, Lexeme.unsigned] using hfirst⟩
  | function hc hr hname =>
    obtain ⟨more, hmore, hfirst⟩ := first_of_name hc hr hrest position
    exact ⟨_, more, hmore, by simpa [ofName, hname, Lexeme.unsigned] using hfirst⟩
  | sign hc => exact ⟨_, _, rfl, first_of_sign hc position _⟩

/-! ## The whole text -/

section Steps

variable {position more : Nat} {previous : Option Lexeme} {c : Char} {rest : Text}

theorem scanFrom_of_error {p : Problem} (h : first position c rest = .error p) :
    scanFrom position previous 0 (c :: rest) = .error p := by
  rw [scanFrom, h]

theorem scanFrom_of_none (h : first position c rest = .ok (none, more)) :
    scanFrom position previous 0 (c :: rest) = scanFrom (position + 1) previous more rest := by
  rw [scanFrom, h]

theorem scanFrom_of_some {l : Lexeme} (h : first position c rest = .ok (some l, more)) :
    scanFrom position previous 0 (c :: rest) =
      (scanFrom (position + 1) (some (inPlace previous l)) more rest).map
        (⟨inPlace previous l, position⟩ :: ·) := by
  rw [scanFrom, h]
  dsimp only
  cases scanFrom (position + 1) (some (inPlace previous l)) more rest <;> rfl

end Steps

theorem scanFrom_skip {previous : Option Lexeme} {position n : Nat} {tail rest : Text}
    (h : tail.length = n) :
    scanFrom position previous n (tail ++ rest) = scanFrom (position + n) previous 0 rest := by
  induction tail generalizing position n with
  | nil => subst h; rfl
  | cons c tail ih =>
    subst h
    rw [List.length_cons, List.cons_append, scanFrom, ih rfl]
    congr 1
    omega

theorem scanFrom_blanks (previous : Option Lexeme) (position : Nat) {blanks : Text} (rest : Text)
    (h : ∀ c ∈ blanks, Text.isAsciiBlank c) :
    scanFrom position previous 0 ((blanks ++ rest).map plainSign) =
      scanFrom (position + blanks.length) previous 0 (rest.map plainSign) := by
  induction blanks generalizing position with
  | nil => rfl
  | cons c blanks ih =>
    have hc : Text.isAsciiBlank c = true := h c List.mem_cons_self
    have hplain : plainSign c = c := plainSign_of_mem (by decide) hc
    obtain ⟨hnumber, hname⟩ := isNumberPart_of_isAsciiBlank hc
    rw [List.cons_append, List.map_cons, hplain, scanFrom]
    simp only [first, hnumber, hname, hc, if_true, Bool.false_eq_true, if_false]
    rw [ih _ fun d hd => h d (List.mem_cons_of_mem _ hd), List.length_cons]
    congr 1
    omega

/-- A word is scanned into its lexeme, if this is in its place; then the scan goes on behind it. -/
theorem scanFrom_word {l : Lexeme} {word rest : Text} (hw : l.IsWrittenAs word)
    (hrest : ∀ c ∈ rest.head?, l.goesOnWith c = false) {previous : Option Lexeme}
    (hfits : l.fits (previous.all Lexeme.beforeOperand)) (position : Nat) :
    scanFrom position previous 0 ((word ++ rest).map plainSign) =
      (scanFrom (position + word.length) (some l) 0 (rest.map plainSign)).map
        (⟨l, position⟩ :: ·) := by
  obtain ⟨c, more, hmore, hfirst⟩ := first_of_isWrittenAs hw hrest position
  have hword : word ≠ [] := by cases hw <;> simp_all
  have hskip : scanFrom (position + 1) (some l) (word.length - 1) more =
      scanFrom (position + word.length) (some l) 0 (rest.map plainSign) := by
    have htail : more = (word.map plainSign).tail ++ rest.map plainSign := by
      cases word with
      | nil => exact absurd rfl hword
      | cons d word =>
        rw [List.cons_append, List.map_cons, List.map_append] at hmore
        exact (List.cons.inj hmore).2.symm
    have hlength := List.length_pos_iff.2 hword
    rw [htail, scanFrom_skip (by simp)]
    congr 1
    omega
  rw [hmore, scanFrom_of_some hfirst, inPlace_unsigned hfits, hskip]

/-- **A text that spells lexemes is scanned into them**, if they are all in place behind what comes
before the text. -/
theorem scanFrom_of_spells {ls : List Lexeme} {t : Text} (h : Spells ls t) :
    ∀ (previous : Option Lexeme) (position : Nat),
      (Lexeme.placement (previous.all Lexeme.beforeOperand) ls).isSome →
      ∃ tokens, scanFrom position previous 0 (t.map plainSign) = .ok tokens ∧
        tokens.map Token.lexeme = ls := by
  induction h with
  | nil hblank =>
    intro previous position _
    refine ⟨[], ?_, rfl⟩
    simpa [scanFrom] using scanFrom_blanks previous position [] hblank
  | @cons l ls blanks word rest hblank hw hrest _ ih =>
    intro previous position hplace
    rw [Lexeme.placement] at hplace
    split at hplace
    case isFalse => cases hplace
    case isTrue hfits =>
    obtain ⟨tokens, hscan, htokens⟩ := ih (some l) (position + blanks.length + word.length)
      (by simpa using hplace)
    refine ⟨⟨l, position + blanks.length⟩ :: tokens, ?_, by simp [htokens]⟩
    rw [List.append_assoc, scanFrom_blanks _ _ _ hblank, scanFrom_word hw hrest hfits, hscan]
    rfl

theorem scan_of_spells {ls : List Lexeme} {t : Text} (hplace : (Lexeme.placement true ls).isSome)
    (h : Spells ls t) : ∃ tokens, scan t = .ok tokens ∧ tokens.map Token.lexeme = ls :=
  scanFrom_of_spells h none 0 hplace

end Token

end DeskCalculator
