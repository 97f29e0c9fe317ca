import DeskCalculator.Proofs.Decimal.Rounding
import DeskCalculator.Proofs.Json.Regular
import DeskCalculator.Proofs.StateFile.RoundTrip
import DeskCalculator.Proofs.Value.Yields

/-!
# What is loaded can be stored again

A state file may be written by other hands than the calculator's: registers may be numbers or parts
in place of texts, and the history may hold any values. Still, what is read from it can be written
and read again (`isStorable_of_read`).
-/

namespace DeskCalculator

/-! ## Doubles as integers and decimals -/

namespace Decimal

theorem IsStorable.ite {p : Prop} [Decidable p] {a b : Decimal} (ha : a.IsStorable)
    (hb : b.IsStorable) : (if p then a else b).IsStorable := by
  split
  · exact ha
  · exact hb

theorem isStorable_zero : Decimal.zero.IsStorable := by
  show isStorable 0 0
  decide

theorem isStorable_of_lt {c : Nat} {e : Int} (hc : c < 10 ^ Text.Integer.maxDigits)
    (hmin : -1074 ≤ e) (hmax : e ≤ 0) : isStorable c e := by
  have hlt := leadingExponent_lt (by decide) hc e
  have hdigits : (Text.Integer.maxDigits : Int) = 4300 := rfl
  refine isStorable_iff.2 ⟨?_, ?_⟩
  · show (-999999999999999999 : Int) - (999999999999999999 - 1) ≤ e
    omega
  · show leadingExponent c e ≤ 999999999999999999
    omega

theorem isStorable_ofInt {n : Int} (h : ¬ Text.Integer.isTooLong n) : (ofInt n).IsStorable :=
  isStorable_of_lt (Nat.lt_of_not_le fun hle => h (Text.Integer.isTooLong_iff.2 hle)) (by decide)
    (by decide)

end Decimal

namespace Double

variable {m : Nat} {q : Int}

theorem IsNormal.lt_pow (h : IsNormal m q) {k : Nat} (hk : k ≤ 1074) :
    m * 10 ^ k < 10 ^ Text.Integer.maxDigits := by
  have hm : m < 10 ^ 53 := Nat.lt_of_lt_of_le h.lt (Nat.pow_le_pow_left (by decide) 53)
  calc m * 10 ^ k < 10 ^ 53 * 10 ^ k := Nat.mul_lt_mul_of_pos_right hm (Nat.pow_pos (by decide))
    _ = 10 ^ (53 + k) := (Nat.pow_add ..).symm
    _ ≤ 10 ^ Text.Integer.maxDigits :=
      Nat.pow_le_pow_right (by decide) (Nat.le_trans (by omega) (by decide : 1127 ≤ Text.Integer.maxDigits))

theorem IsNormal.lt_of_le (h : IsNormal m q) {c b k : Nat} (hc : c ≤ m * b ^ k) (hb : b ≤ 10)
    (hk : k ≤ 1074) : c < 10 ^ Text.Integer.maxDigits :=
  Nat.lt_of_le_of_lt (Nat.le_trans hc (Nat.mul_le_mul_left m (Nat.pow_le_pow_left hb k)))
    (h.lt_pow hk)

theorem not_isTooLong_truncate {x : Double} (h : x.IsCanonical) :
    ¬ Text.Integer.isTooLong x.truncate := by
  rw [Text.Integer.isTooLong_iff, Nat.not_le]
  cases x with
  | finite s m q =>
    have hnormal : IsNormal m q := h
    have hle := hnormal.le_max
    have hmax : maxExponent = 971 := rfl
    have habs : ∀ n : Nat, (if s then -(n : Int) else n).natAbs = n := by
      intro n
      split <;> omega
    show (if s then -(_ : Int) else _).natAbs < _
    rw [habs]
    split
    · exact hnormal.lt_of_le (Nat.le_refl _) (by decide) (by omega)
    · refine hnormal.lt_of_le (k := 0) (b := 1) ?_ (by decide) (by decide)
      exact Nat.le_trans (Nat.div_le_self _ _) (by simp)
  | infinite s => exact Nat.pow_pos (by decide)
  | nan => exact Nat.pow_pos (by decide)

theorem isStorable_ofDoubleExactly {x : Double} (h : x.IsCanonical) :
    (Decimal.ofDoubleExactly x).IsStorable := by
  cases x with
  | finite s m q =>
    have hnormal : IsNormal m q := h
    have hmin := hnormal.min_le
    have hmax := hnormal.le_max
    have hminExponent : minExponent = -1074 := rfl
    have hmaxExponent : maxExponent = 971 := rfl
    have hwhole : ∀ {c b k : Nat}, c ≤ m * b ^ k → b ≤ 10 → k ≤ 1074 →
        (Decimal.finite s c 0).IsStorable := fun hc hb hk =>
      Decimal.isStorable_of_lt (hnormal.lt_of_le hc hb hk) (by decide) (by decide)
    have hdiv : ∀ d, m / d ≤ m * 1 ^ 0 := fun d => Nat.le_trans (Nat.div_le_self _ _) (by simp)
    refine .ite Decimal.isStorable_zero (.ite ?_ (.ite ?_ ?_))
    · exact hwhole (Nat.le_refl _) (by decide) (by omega)
    · refine Decimal.isStorable_of_lt (hnormal.lt_of_le
        (Nat.mul_le_mul_right _ (Nat.div_le_self _ _)) (by decide : 5 ≤ 10) ?_) ?_ ?_ <;> omega
    · exact hwhole (hdiv _) (by decide) (by decide)
  | infinite s => trivial
  | nan => trivial

end Double

namespace StateFile

theorem eq_some_of_orMalformed {α : Type} {x : Option α} {a : α} (h : orMalformed x = .ok a) :
    x = some a := by
  cases x with
  | none => cases h
  | some a' =>
    cases h
    rfl

/-! ## Values -/

variable {v : Json} {members : List (Text × Json)}

theorem not_isTooLong_readExact {n : Int} (hv : v.IsRegular) (h : readExact v = .ok n) :
    ¬ Text.Integer.isTooLong n := by
  unfold readExact at h
  split at h
  · exact Text.Integer.not_isTooLong_of_read? (eq_some_of_orMalformed h)
  · cases h
    cases hv with
    | integer hlong => exact hlong
  · cases h
    split <;> decide
  · cases h
  · cases h
  · cases h
    cases hv with
    | number hx => exact Double.not_isTooLong_truncate hx
  · cases h

theorem isStorable_readParts {sign digits exponent : Json} {d : Decimal}
    (h : readParts sign digits exponent = .ok d) : d.IsStorable := by
  obtain ⟨s, -, h⟩ := bind_eq_ok_iff.1 h
  simp only at h
  split at h
  · obtain ⟨c, -, h⟩ := bind_eq_ok_iff.1 h
    cases h
    trivial
  · obtain ⟨c, -, h⟩ := bind_eq_ok_iff.1 h
    cases h
    trivial
  · obtain ⟨c, -, h⟩ := bind_eq_ok_iff.1 h
    cases h
    trivial
  · obtain ⟨e, -, h⟩ := bind_eq_ok_iff.1 h
    obtain ⟨c, -, h⟩ := bind_eq_ok_iff.1 h
    split at h
    · rename_i hstorable
      cases h
      exact hstorable
    · cases h

theorem isStorable_readDecimal {d : Decimal} (hv : v.IsRegular) (h : readDecimal v = .ok d) :
    d.IsStorable := by
  unfold readDecimal at h
  split at h
  · exact Decimal.isStorable_of_read? (eq_some_of_orMalformed h)
  · cases h
    cases hv with
    | integer hlong => exact Decimal.isStorable_ofInt hlong
  · cases h
    exact Decimal.isStorable_ofInt (by split <;> decide)
  · cases h
    cases hv with
    | number hx => exact Double.isStorable_ofDoubleExactly hx
  · exact isStorable_readParts h
  · cases h

theorem isRegular_of_member? {key : String} (hmembers : ∀ m ∈ members, m.2.IsRegular)
    (h : Json.member? key members = some v) : v.IsRegular := by
  obtain ⟨before, after, rfl, -⟩ := List.lookup_eq_some_iff.1 h
  exact hmembers (key.toList, v) (by simp)

theorem isStorable_readValue {value : Value} (hv : v.IsRegular) (h : readValue v = .ok value) :
    value.IsStorable := by
  unfold readValue at h
  split at h
  · rename_i members
    have hmembers : ∀ m ∈ members, m.2.IsRegular := by
      cases hv with
      | object _ hmembers => exact hmembers
    split at h
    · rename_i hexact
      obtain ⟨n, hn, rfl⟩ := map_eq_ok_iff.1 h
      exact not_isTooLong_readExact (isRegular_of_member? hmembers hexact) hn
    · rename_i hdecimal
      obtain ⟨d, hd, rfl⟩ := map_eq_ok_iff.1 h
      exact isStorable_readDecimal (isRegular_of_member? hmembers hdecimal) hd
    · cases h
  · cases h

theorem isStorable_register {key : String} {usual value : Value}
    (hmembers : ∀ m ∈ members, m.2.IsRegular) (husual : usual.IsStorable)
    (h : register members key usual = .ok value) : value.IsStorable := by
  unfold register at h
  split at h
  · rename_i hmember
    exact isStorable_readValue (isRegular_of_member? hmembers hmember) h
  · cases h
    exact husual

/-! ## The history -/

theorem isRegular_elements {items : List Json} (hv : v.IsRegular) (h : elements v = some items) :
    ∀ item ∈ items, item.IsRegular := by
  cases hv with
  | array hitems =>
    cases h
    exact hitems
  | object _ _ =>
    cases h
    exact List.forall_mem_map.2 fun m _ => .string m.1
  | string t =>
    cases h
    exact List.forall_mem_map.2 fun c _ => .string [c]
  | _ => cases h

theorem isRegular_readEntry {entry : Entry} (hv : v.IsRegular) (h : readEntry v = some entry) :
    entry.IsRegular := by
  unfold readEntry at h
  split at h
  · rename_i helements
    cases h
    have hitems := isRegular_elements hv helements
    exact ⟨hitems _ (by simp), hitems _ (by simp)⟩
  · cases h

theorem isRegular_mapM_readEntry {items : List Json} {entries : List Entry}
    (hitems : ∀ item ∈ items, item.IsRegular) (h : items.mapM readEntry = some entries) :
    ∀ entry ∈ entries, entry.IsRegular := by
  induction items generalizing entries with
  | nil =>
    cases h
    simp
  | cons item items ih =>
    rw [List.forall_mem_cons] at hitems
    rw [List.mapM_cons] at h
    obtain ⟨entry, hentry, h⟩ := Option.bind_eq_some_iff.1 h
    obtain ⟨entries', hentries, h⟩ := Option.bind_eq_some_iff.1 h
    cases h
    exact List.forall_mem_cons.2 ⟨isRegular_readEntry hitems.1 hentry, ih hitems.2 hentries⟩

theorem isRegular_readHistory {history : List Entry} (hv : v.IsRegular)
    (h : readHistory v = .ok history) : ∀ entry ∈ history, entry.IsRegular := by
  obtain ⟨items, hitems, h⟩ := Option.bind_eq_some_iff.1 (eq_some_of_orMalformed h)
  exact isRegular_mapM_readEntry (isRegular_elements hv hitems) h

/-! ## The state -/

theorem isStorable_default : ({} : Desk).IsStorable :=
  ⟨⟨false, rfl⟩, Decimal.isStorable_zero, Decimal.isStorable_zero⟩

theorem isStorable_readState {desk : Desk} {history : List Entry}
    (hmembers : ∀ m ∈ members, m.2.IsRegular) (h : readState members = .ok (desk, history)) :
    desk.IsStorable ∧ ∀ entry ∈ history, entry.IsRegular := by
  obtain ⟨angle, -, h⟩ := bind_eq_ok_iff.1 h
  obtain ⟨answer, hanswer, h⟩ := bind_eq_ok_iff.1 h
  obtain ⟨memory, hmemory, h⟩ := bind_eq_ok_iff.1 h
  obtain ⟨precision, -, h⟩ := bind_eq_ok_iff.1 h
  obtain ⟨entries, hentries, h⟩ := bind_eq_ok_iff.1 h
  cases h
  refine ⟨⟨⟨_, rfl⟩, ?_, ?_⟩, ?_⟩
  · exact isStorable_register hmembers isStorable_default.answer hanswer
  · exact isStorable_register hmembers isStorable_default.memory hmemory
  · refine isRegular_readHistory ?_ hentries
    cases hmember : Json.member? "history" members with
    | none => exact .array (by simp)
    | some v => exact isRegular_of_member? hmembers hmember

/-- **What is loaded can be stored again**: the registers, and every entry of the history. -/
theorem isStorable_of_read {source : Source} {loaded : Loaded} (h : read source = .ok loaded) :
    loaded.desk.IsStorable ∧ ∀ entry ∈ loaded.history, entry.IsRegular := by
  have husual : ({} : Desk).IsStorable ∧ ∀ entry ∈ ([] : List Entry), entry.IsRegular :=
    ⟨isStorable_default, by simp⟩
  unfold read at h
  split at h
  · cases h
    exact husual
  · cases h
    exact husual
  · split at h
    · cases h
      exact husual
    · rename_i members hread
      split at h
      · rename_i hstate
        cases h
        refine isStorable_readState ?_ hstate
        cases Json.isRegular_of_read? hread with
        | object _ hmembers => exact hmembers
      · cases h
        exact husual
      · cases h
    · cases h
      exact husual

end StateFile

end DeskCalculator
