import DeskCalculator.Proofs.Json.Numbers
import DeskCalculator.Proofs.Json.Strings

/-!
# JSON values, read back

A value is regular if its text can hold it: no integer is too long, every double is in the canonical
form, and no key comes twice in an object. A regular value is read back from its text
(`read?_write`), and whatever is read is regular (`isRegular_of_read?`).
-/

namespace DeskCalculator.Json

open Decimal (signText)

variable {indented : Bool} {level : Nat} {v : Json} {t rest : Text}

/-- A value that its text can hold. -/
inductive IsRegular : Json → Prop where
  | null : IsRegular null
  | bool (b : Bool) : IsRegular (bool b)
  | integer {n : Int} : ¬ Text.Integer.isTooLong n → IsRegular (integer n)
  | number {x : Double} : x.IsCanonical → IsRegular (number x)
  | string (t : Text) : IsRegular (string t)
  | array {items : List Json} : (∀ item ∈ items, IsRegular item) → IsRegular (array items)
  | object {members : List (Text × Json)} : (members.map (·.1)).Nodup →
    (∀ m ∈ members, IsRegular m.2) → IsRegular (object members)

/-! ## Blanks between the parts -/

/-- The first character of a value: no blank and no closing bracket. -/
def IsFirst (c : Char) : Prop := c ∉ [' ', '\t', '\n', '\r', ']', '}']

instance (c : Char) : Decidable (IsFirst c) := inferInstanceAs (Decidable (¬ _))

theorem isFirst_of_isDigit {c : Char} (h : c.isDigit) : IsFirst c := by
  have hnone : ∀ c ∈ [' ', '\t', '\n', '\r', ']', '}'], ¬ c.isDigit := List.any_eq_false.1 rfl
  exact fun hmem => hnone c hmem h

def Starts (t : Text) : Prop := ∃ c ∈ t.head?, IsFirst c

theorem skipBlanks_of_starts (h : Starts t) (rest : Text) : skipBlanks (t ++ rest) = t ++ rest := by
  obtain ⟨c, hc, hfirst⟩ := h
  cases t with
  | nil => cases hc
  | cons c t =>
    cases hc
    simp only [IsFirst, List.mem_cons, not_or] at hfirst
    simp [skipBlanks, hfirst]

theorem skipBlanks_indent (indented : Bool) (level : Nat) (t : Text) :
    skipBlanks (indent indented level ++ t) = skipBlanks t := by
  cases indented with
  | false => rfl
  | true =>
    show skipBlanks (List.replicate level ' ' ++ t) = skipBlanks t
    induction level with
    | zero => rfl
    | succ level ih => exact ih

theorem endsNumber_cons {c : Char} (h : c = ',' ∨ c = ']' ∨ c = '}') (rest : Text) :
    EndsNumber (c :: rest) := by
  rintro d ⟨⟩
  rcases h with rfl | rfl | rfl <;> decide

theorem endsNumber_indent {t : Text} (h : EndsNumber t) (indented : Bool) (level : Nat) :
    EndsNumber (indent indented level ++ t) := by
  cases indented with
  | false => exact h
  | true =>
    rintro d ⟨⟩
    decide

/-! ## Single values -/

/-- A value whose text is read back at a nesting level, whatever ends it. -/
structure IsReadBack (indented : Bool) (level : Nat) (v : Json) : Prop where
  starts : Starts (writeAt indented level v)
  reads : ∀ fuel rest, (writeAt indented level v).length < fuel → EndsNumber rest →
    readValue fuel (writeAt indented level v ++ rest) = some (v, rest)

theorem starts_signText (s : Bool) {w : Text} (h : ∃ c ∈ w.head?, c.isDigit) :
    Starts (signText s ++ w) := by
  obtain ⟨c, hc, hdigit⟩ := h
  cases s with
  | false => exact ⟨c, hc, isFirst_of_isDigit hdigit⟩
  | true => exact ⟨'-', rfl, by decide⟩

theorem IsReadBack.of_number {s : Bool} {w : Text}
    (htext : writeAt indented level v = signText s ++ w)
    (h : ∀ rest, EndsNumber rest → readNumber s (w ++ rest) = some (v, rest)) :
    IsReadBack indented level v where
  starts := by
    have hread := h [] (by rintro _ ⟨⟩)
    rw [List.append_nil] at hread
    exact htext ▸ starts_signText s (isDigit_head_of_readNumber hread)
  reads fuel rest hfuel hrest := by
    obtain ⟨fuel, rfl⟩ := Nat.exists_eq_add_one.2 (Nat.zero_lt_of_lt hfuel)
    rw [htext, List.append_assoc]
    exact readValue_of_readNumber (h rest hrest) fuel

theorem IsReadBack.of_word (hstarts : Starts (writeAt indented level v))
    (h : ∀ fuel rest, readValue (fuel + 1) (writeAt indented level v ++ rest) = some (v, rest)) :
    IsReadBack indented level v where
  starts := hstarts
  reads fuel rest hfuel _ := by
    obtain ⟨fuel, rfl⟩ := Nat.exists_eq_add_one.2 (Nat.zero_lt_of_lt hfuel)
    exact h fuel rest

theorem isReadBack_integer {n : Int} (h : ¬ Text.Integer.isTooLong n) :
    IsReadBack indented level (integer n) := by
  have hn : n.natAbs < 10 ^ Text.Integer.maxDigits :=
    Nat.lt_of_not_le fun hle => h (Text.Integer.isTooLong_iff.2 hle)
  have hvalue : (if decide (n < 0) = true then -(n.natAbs : Int) else n.natAbs) = n := by
    simp only [decide_eq_true_eq]
    split <;> omega
  refine .of_number (Text.ofInt_eq n) fun rest hrest => ?_
  rw [readNumber_ofNat hn _ hrest, hvalue]

theorem isReadBack_number {x : Double} (h : x.IsCanonical) :
    IsReadBack indented level (number x) := by
  cases x with
  | finite s m q =>
    obtain ⟨w, htext, hread⟩ := exists_text h s
    exact .of_number htext hread
  | infinite s => cases s <;> exact .of_word ⟨_, rfl, by decide⟩ fun _ _ => rfl
  | nan => exact .of_word ⟨_, rfl, by decide⟩ fun _ _ => rfl

theorem readValue_string (fuel : Nat) (t rest : Text) :
    readValue (fuel + 1) (writeString t ++ rest) = some (string t, rest) := by
  have happend : writeString t ++ rest = '"' :: (t.flatMap escapeChar ++ '"' :: rest) := by
    simp [writeString]
  rw [happend]
  simp only [readValue, readString_writeString]
  rfl

theorem isReadBack_string (t : Text) : IsReadBack indented level (string t) :=
  .of_word ⟨'"', rfl, by decide⟩ fun fuel rest => readValue_string fuel t rest

/-! ## Arrays -/

theorem join_cons_cons (p q : Text) (pieces : List Text) :
    Text.join [','] (p :: q :: pieces) = p ++ ',' :: Text.join [','] (q :: pieces) := by
  simp [Text.join, List.intercalate]

theorem join_singleton (p : Text) : Text.join [','] [p] = p := by
  simp [Text.join, List.intercalate]

/-- The texts of items or members between the brackets, each in its place. -/
def placed (indented : Bool) (level : Nat) (pieces : List Text) : Text :=
  Text.join [','] (pieces.map (indent indented level ++ ·))

theorem placed_singleton (p : Text) : placed indented level [p] = indent indented level ++ p :=
  join_singleton _

theorem placed_cons_cons (p q : Text) (pieces : List Text) :
    placed indented level (p :: q :: pieces) =
      indent indented level ++ p ++ ',' :: placed indented level (q :: pieces) :=
  join_cons_cons _ _ _

theorem readItems_placed {items : List Json} (hne : items ≠ [])
    (hitems : ∀ item ∈ items, IsReadBack indented level item) {tail : Text} (htail : EndsNumber tail)
    (hskip : skipBlanks tail = ']' :: rest) {fuel : Nat}
    (hfuel : (placed indented level (writeItems indented level items)).length + 1 < fuel) :
    readItems fuel (skipBlanks (placed indented level (writeItems indented level items) ++ tail)) =
      some (items, rest) := by
  induction items generalizing fuel with
  | nil => exact absurd rfl hne
  | cons item items ih =>
    obtain ⟨hitem, hitems⟩ := List.forall_mem_cons.1 hitems
    obtain ⟨fuel, rfl⟩ := Nat.exists_eq_add_one.2 (Nat.zero_lt_of_lt hfuel)
    cases items with
    | nil =>
      simp only [writeItems, placed_singleton, List.length_append, List.append_assoc,
        skipBlanks_indent] at hfuel ⊢
      rw [skipBlanks_of_starts hitem.starts, readItems, hitem.reads fuel tail (by omega) htail]
      simp [hskip]
    | cons next items =>
      simp only [writeItems, placed_cons_cons, List.length_append, List.length_cons,
        List.append_assoc, skipBlanks_indent, List.cons_append] at hfuel ih ⊢
      have hends := endsNumber_cons (.inl rfl)
        (placed indented level (writeAt indented level next :: writeItems indented level items) ++ tail)
      rw [skipBlanks_of_starts hitem.starts, readItems, hitem.reads fuel _ (by omega) hends]
      have hcomma : ∀ t, skipBlanks (',' :: t) = ',' :: t := fun _ => rfl
      simp only [Option.bind_eq_bind, Option.bind_some, hcomma]
      rw [ih (by simp) hitems (by omega)]
      rfl

theorem writeItems_ne_nil {items : List Json} (h : items ≠ []) :
    writeItems indented level items ≠ [] := by
  cases items with
  | nil => exact absurd rfl h
  | cons item items => simp [writeItems]

theorem bracketed_eq {pieces : List Text} (h : pieces ≠ []) (left right : Char) :
    bracketed indented level left right pieces =
      left :: (placed indented (level + 1) pieces ++ (indent indented level ++ [right])) := by
  simp [bracketed, h, placed]

theorem readItems_bracket (fuel : Nat) (t : Text) : readItems fuel (']' :: t) = none := by
  cases fuel with
  | zero => rfl
  | succ fuel => cases fuel <;> rfl

theorem isReadBack_array {items : List Json}
    (h : ∀ item ∈ items, IsReadBack indented (level + 1) item) :
    IsReadBack indented level (array items) := by
  by_cases hne : items = []
  · subst hne
    exact .of_word ⟨'[', rfl, by decide⟩ fun _ _ => rfl
  · have htext : writeAt indented level (array items) =
        '[' :: (placed indented (level + 1) (writeItems indented (level + 1) items) ++
          (indent indented level ++ [']'])) := by
      rw [writeAt, bracketed_eq (writeItems_ne_nil hne)]
    refine ⟨htext ▸ ⟨'[', rfl, by decide⟩, fun fuel rest hfuel _ => ?_⟩
    obtain ⟨fuel, rfl⟩ := Nat.exists_eq_add_one.2 (Nat.zero_lt_of_lt hfuel)
    rw [htext] at hfuel ⊢
    simp only [List.length_cons, List.length_append] at hfuel
    have htail := endsNumber_indent (endsNumber_cons (.inr (.inl rfl)) rest) indented level
    have hread := @readItems_placed _ _ _ _ hne h _ htail
      (skipBlanks_indent indented level (']' :: rest)) fuel (by omega)
    simp only [List.cons_append, List.append_assoc, List.nil_append, readValue]
    split
    · rename_i heq
      rw [heq, readItems_bracket] at hread
      cases hread
    · rw [hread]
      rfl

/-! ## Objects -/

theorem setMember_of_notMem {key : Text} {value : Json} {members : List (Text × Json)}
    (h : key ∉ members.map (·.1)) : setMember key value members = members ++ [(key, value)] := by
  induction members with
  | nil => rfl
  | cons m members ih =>
    obtain ⟨hm, hmembers⟩ := not_or.1 (List.mem_cons.not.1 h)
    rw [setMember, if_neg (Ne.symm hm), ih hmembers]
    rfl

/-- A member is read up to what follows its value. -/
theorem readMembers_member {key : Text} {value : Json} (hvalue : IsReadBack indented level value)
    {tail : Text} (htail : EndsNumber tail) {fuel : Nat}
    (hfuel : (writeAt indented level value).length < fuel) (before : List (Text × Json)) :
    readMembers (fuel + 1) before
        (skipBlanks (writeString key ++ ':' :: ' ' :: (writeAt indented level value ++ tail))) =
      match skipBlanks tail with
      | ',' :: rest => readMembers fuel (setMember key value before) (skipBlanks rest)
      | '}' :: rest => some (setMember key value before, rest)
      | _ => none := by
  have hquote : ∀ t, skipBlanks (writeString key ++ t) =
      '"' :: (key.flatMap escapeChar ++ '"' :: t) := by
    intro t
    simp [writeString, skipBlanks]
  have hcolon : ∀ t, skipBlanks (':' :: t) = ':' :: t := fun _ => rfl
  have hspace : ∀ t, skipBlanks (' ' :: t) = skipBlanks t := fun _ => rfl
  rw [hquote, readMembers.eq_def]
  simp only [readString_writeString, Option.bind_eq_bind, Option.bind_some, hcolon, hspace]
  rw [skipBlanks_of_starts hvalue.starts, hvalue.reads fuel tail (by omega) htail]
  rfl

theorem readMembers_placed {members : List (Text × Json)} (hne : members ≠ [])
    (hmembers : ∀ m ∈ members, IsReadBack indented level m.2) {before : List (Text × Json)}
    (hkeys : ((before ++ members).map (·.1)).Nodup) {tail : Text} (htail : EndsNumber tail)
    (hskip : skipBlanks tail = '}' :: rest) {fuel : Nat}
    (hfuel : (placed indented level (writeMembers indented level members)).length + 1 < fuel) :
    readMembers fuel before
        (skipBlanks (placed indented level (writeMembers indented level members) ++ tail)) =
      some (before ++ members, rest) := by
  induction members generalizing fuel before with
  | nil => exact absurd rfl hne
  | cons m members ih =>
    obtain ⟨key, value⟩ := m
    obtain ⟨hvalue, hmembers⟩ := List.forall_mem_cons.1 hmembers
    replace hvalue : IsReadBack indented level value := hvalue
    obtain ⟨fuel, rfl⟩ := Nat.exists_eq_add_one.2 (Nat.zero_lt_of_lt hfuel)
    rw [List.append_cons] at hkeys
    have hset : setMember key value before = before ++ [(key, value)] := by
      refine setMember_of_notMem ?_
      simp only [List.map_append, List.append_assoc] at hkeys
      exact fun hmem => (List.nodup_append.1 hkeys).2.2 key hmem key (by simp) rfl
    cases members with
    | nil =>
      simp only [writeMembers, placed_singleton, List.length_append, List.length_cons,
        List.append_assoc, skipBlanks_indent, List.cons_append] at hfuel ⊢
      rw [readMembers_member hvalue htail (by omega), hskip, hset]
      rfl
    | cons next members =>
      simp only [writeMembers, placed_cons_cons, List.length_append, List.length_cons,
        List.append_assoc, skipBlanks_indent, List.cons_append] at hfuel ih ⊢
      rw [readMembers_member hvalue (endsNumber_cons (.inl rfl) _) (by omega), hset,
        List.append_cons before (key, value) (next :: members)]
      exact ih (by simp) hmembers hkeys (by omega)

theorem writeMembers_ne_nil {members : List (Text × Json)} (h : members ≠ []) :
    writeMembers indented level members ≠ [] := by
  cases members with
  | nil => exact absurd rfl h
  | cons m members => simp [writeMembers]

theorem readMembers_bracket (fuel : Nat) (before : List (Text × Json)) (t : Text) :
    readMembers fuel before ('}' :: t) = none := by
  cases fuel <;> rfl

theorem isReadBack_object {members : List (Text × Json)} (hkeys : (members.map (·.1)).Nodup)
    (h : ∀ m ∈ members, IsReadBack indented (level + 1) m.2) :
    IsReadBack indented level (object members) := by
  by_cases hne : members = []
  · subst hne
    exact .of_word ⟨'{', rfl, by decide⟩ fun _ _ => rfl
  · have htext : writeAt indented level (object members) =
        '{' :: (placed indented (level + 1) (writeMembers indented (level + 1) members) ++
          (indent indented level ++ ['}'])) := by
      rw [writeAt, bracketed_eq (writeMembers_ne_nil hne)]
    refine ⟨htext ▸ ⟨'{', rfl, by decide⟩, fun fuel rest hfuel _ => ?_⟩
    obtain ⟨fuel, rfl⟩ := Nat.exists_eq_add_one.2 (Nat.zero_lt_of_lt hfuel)
    rw [htext] at hfuel ⊢
    simp only [List.length_cons, List.length_append] at hfuel
    have htail := endsNumber_indent (endsNumber_cons (.inr (.inr rfl)) rest) indented level
    have hread := @readMembers_placed _ _ _ _ hne h [] hkeys _ htail
      (skipBlanks_indent indented level ('}' :: rest)) fuel (by omega)
    simp only [List.cons_append, List.append_assoc, List.nil_append, readValue] at hread ⊢
    split
    · rename_i heq
      rw [heq, readMembers_bracket] at hread
      cases hread
    · rw [hread]
      rfl

/-! ## The round trip -/

theorem IsRegular.isReadBack (h : v.IsRegular) (indented : Bool) (level : Nat) :
    IsReadBack indented level v := by
  induction h generalizing level with
  | null => exact .of_word ⟨'n', rfl, by decide⟩ fun _ _ => rfl
  | bool b => cases b <;> exact .of_word ⟨_, rfl, by decide⟩ fun _ _ => rfl
  | integer h => exact isReadBack_integer h
  | number h => exact isReadBack_number h
  | string t => exact isReadBack_string t
  | array _ ih => exact isReadBack_array fun item hitem => ih item hitem (level + 1)
  | object hkeys _ ih => exact isReadBack_object hkeys fun m hm => ih m hm (level + 1)

/-- **A regular value is read back** from its text. -/
theorem read?_write (h : v.IsRegular) : read? (write v) = some v := by
  have hback := h.isReadBack true 0
  have hskip := skipBlanks_of_starts hback.starts []
  have hread := hback.reads (2 * (writeAt true 0 v).length + 2) [] (by omega) (by rintro _ ⟨⟩)
  rw [List.append_nil] at hskip hread
  rw [read?, write, hskip, hread]
  rfl

end DeskCalculator.Json
