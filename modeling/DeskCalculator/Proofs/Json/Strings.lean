import DeskCalculator.Json.Reader
import DeskCalculator.Json.Writer

/-!
# Strings in JSON

A string is read back as it was written (`readString_writeString`), whatever characters it holds.
What stands in it for one character is either the character itself or an escape, and beyond the basic
plane two escapes with a pair of surrogates, from which the code is put together again
(`readEscapedUnit_pair`).
-/

namespace DeskCalculator.Json

variable {n : Nat} {rest : Text}

/-! ## Four hexadecimal digits -/

theorem hex_succ {width : Nat} (hwidth : 0 < width) (n : Nat) :
    Text.hex (width + 1) n = Text.hex width (n / 16) ++ [Nat.digitChar (n % 16)] := by
  unfold Text.hex
  simp only
  by_cases hn : n < 16
  · obtain ⟨width, rfl⟩ := Nat.exists_eq_add_one.2 hwidth
    rw [Nat.div_eq_of_lt hn, Nat.mod_eq_of_lt hn, Nat.toDigits_of_lt_base hn, Nat.toDigits_zero,
      ← List.replicate_succ', List.length_singleton]
    rfl
  · rw [Nat.toDigits_of_base_le (by decide) (Nat.le_of_not_lt hn), List.length_append,
      List.length_singleton, Nat.add_sub_add_right, List.append_assoc]

theorem hex_four (hn : n < 0x10000) : Text.hex 4 n =
    [Nat.digitChar (n / 16 / 16 / 16), Nat.digitChar (n / 16 / 16 % 16),
      Nat.digitChar (n / 16 % 16), Nat.digitChar (n % 16)] := by
  have hone : Text.hex 1 (n / 16 / 16 / 16) = [Nat.digitChar (n / 16 / 16 / 16)] := by
    unfold Text.hex
    rw [Nat.toDigits_of_lt_base (by omega)]
    rfl
  rw [hex_succ (by decide), hex_succ (by decide), hex_succ (by decide), hone]
  rfl

theorem hexDigit?_digitChar : ∀ n < 16, hexDigit? (Nat.digitChar n) = some n := by decide

theorem readUnit_hex (hn : n < 0x10000) (rest : Text) :
    readUnit (Text.hex 4 n ++ rest) = some (n, rest) := by
  rw [hex_four hn]
  simp only [List.cons_append, List.nil_append, readUnit, Option.bind_eq_bind, Option.bind_some,
    hexDigit?_digitChar _ (show n / 16 / 16 / 16 < 16 by omega),
    hexDigit?_digitChar _ (Nat.mod_lt _ (by decide : 16 > 0))]
  congr 2
  omega

theorem escapeUnit_append (n : Nat) (rest : Text) :
    escapeUnit n ++ rest = '\\' :: 'u' :: (Text.hex 4 n ++ rest) := rfl

/-! ## One character -/

theorem not_surrogate (c : Char) : ¬ (0xD800 ≤ c.toNat ∧ c.toNat < 0xE000) := by
  have hvalid := c.valid
  change c.toNat < 0xD800 ∨ 0xDFFF < c.toNat ∧ c.toNat < 0x110000 at hvalid
  omega

theorem toNat_lt (c : Char) : c.toNat < 0x110000 := by
  have hvalid := c.valid
  change c.toNat < 0xD800 ∨ 0xDFFF < c.toNat ∧ c.toNat < 0x110000 at hvalid
  omega

theorem readEscapedUnit_single {c : Char} (hc : c.toNat < 0x10000) (rest : Text) :
    readEscapedUnit (Text.hex 4 c.toNat ++ rest) = some (c, rest) := by
  have hnot := not_surrogate c
  have hchar : charOfUnit c.toNat = c := by
    rw [charOfUnit, if_neg hnot, Char.ofNat_toNat]
  rw [readEscapedUnit, readUnit_hex hc]
  simp only [Option.bind_eq_bind, Option.bind_some]
  rw [if_neg (by omega), hchar]
  rfl

theorem readEscapedUnit_surrogates {high low : Nat} (hhigh : 0xD800 ≤ high ∧ high < 0xDC00)
    (hlow : 0xDC00 ≤ low ∧ low < 0xE000) (rest : Text) :
    readEscapedUnit (Text.hex 4 high ++ (escapeUnit low ++ rest)) =
      some (Char.ofNat (0x10000 + (high - 0xD800) * 0x400 + (low - 0xDC00)), rest) := by
  rw [readEscapedUnit, readUnit_hex (by omega)]
  simp only [Option.bind_eq_bind, Option.bind_some, escapeUnit_append]
  rw [if_pos hhigh, readUnit_hex (by omega)]
  simp only [Option.bind_some]
  rw [if_pos hlow]
  rfl

theorem readEscapedUnit_pair {c : Char} (hc : 0x10000 ≤ c.toNat) (rest : Text) :
    readEscapedUnit (Text.hex 4 (0xD800 + (c.toNat - 0x10000) / 0x400) ++
      (escapeUnit (0xDC00 + (c.toNat - 0x10000) % 0x400) ++ rest)) = some (c, rest) := by
  have hlt := toNat_lt c
  have hcode : 0x10000 + (0xD800 + (c.toNat - 0x10000) / 0x400 - 0xD800) * 0x400 +
      (0xDC00 + (c.toNat - 0x10000) % 0x400 - 0xDC00) = c.toNat := by omega
  rw [readEscapedUnit_surrogates (by omega) (by omega), hcode, Char.ofNat_toNat]

theorem readString_escapeChar (fuel : Nat) (c : Char) (rest : Text) :
    readString (fuel + 1) (escapeChar c ++ rest) =
      (readString fuel rest).map fun (cs, rest) => (c :: cs, rest) := by
  have hescape : ∀ t, readEscape t = some (c, rest) → readString (fuel + 1) ('\\' :: t) =
      (readString fuel rest).map fun (cs, rest) => (c :: cs, rest) := by
    intro t ht
    rw [readString]
    simp only [ht, Option.bind_eq_bind, Option.bind_some]
    cases readString fuel rest <;> rfl
  unfold escapeChar
  repeat' split
  · subst_vars
    exact hescape _ rfl
  · subst_vars
    exact hescape _ rfl
  · subst_vars
    exact hescape _ rfl
  · subst_vars
    exact hescape _ rfl
  · subst_vars
    exact hescape _ rfl
  · subst_vars
    exact hescape _ rfl
  · subst_vars
    exact hescape _ rfl
  · rename_i hquote hslash _ _ _ _ _ hplain
    rw [List.singleton_append, readString.eq_def]
    simp only
    rw [if_neg (by omega)]
    cases readString fuel rest <;> rfl
  · rename_i hsmall
    rw [escapeUnit_append]
    exact hescape _ (readEscapedUnit_single hsmall rest)
  · rename_i hlarge
    -- rewritten, as the digits of a surrogate are not to be computed
    simp only [List.append_assoc]
    rw [escapeUnit_append]
    exact hescape _ (readEscapedUnit_pair (Nat.le_of_not_lt hlarge) rest)

/-! ## The whole string -/

theorem readString_flatMap {fuel : Nat} {t : Text} (h : t.length < fuel) (rest : Text) :
    readString fuel (t.flatMap escapeChar ++ '"' :: rest) = some (t, rest) := by
  induction t generalizing fuel with
  | nil =>
    obtain ⟨fuel, rfl⟩ := Nat.exists_eq_add_one.2 (Nat.zero_lt_of_lt h)
    rfl
  | cons c t ih =>
    obtain ⟨fuel, rfl⟩ := Nat.exists_eq_add_one.2 (Nat.zero_lt_of_lt h)
    rw [List.flatMap_cons, List.append_assoc, readString_escapeChar,
      ih (Nat.lt_of_succ_lt_succ h)]
    rfl

theorem escapeChar_ne_nil (c : Char) : escapeChar c ≠ [] := by
  unfold escapeChar
  repeat' split
  all_goals exact List.cons_ne_nil _ _

theorem length_le_flatMap_escapeChar (t : Text) : t.length ≤ (t.flatMap escapeChar).length := by
  induction t with
  | nil => exact Nat.le_refl 0
  | cons c t ih =>
    have := List.length_pos_iff.2 (escapeChar_ne_nil c)
    rw [List.flatMap_cons, List.length_append, List.length_cons]
    omega

/-- **A string is read back.** -/
theorem readString_writeString (t rest : Text) :
    readString ((t.flatMap escapeChar ++ '"' :: rest).length + 1)
      (t.flatMap escapeChar ++ '"' :: rest) = some (t, rest) := by
  refine readString_flatMap ?_ rest
  have hle := length_le_flatMap_escapeChar t
  rw [List.length_append]
  omega

end DeskCalculator.Json
