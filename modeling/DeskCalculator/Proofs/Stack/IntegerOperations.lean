import DeskCalculator.Proofs.Counting.Rounded
import DeskCalculator.Proofs.Decimal.Reading
import DeskCalculator.Proofs.Decimal.WholePower
import DeskCalculator.Proofs.Expression.Integer
import DeskCalculator.Proofs.Value.Number
import DeskCalculator.Proofs.Value.Yields

/-!
# Operations on integers

What the operations of the calculator make of integers. Exact integers stay exact whatever their
size, as long as no exponent is negative. In exact mode a count of whole numbers is exact for
decimals too. Of decimals and exact integers mixed, whatever the mode, every result stands for the
right integer if it fits the precision.
-/

namespace DeskCalculator

namespace Operations

variable (desk : Desk)

/-! ## Literals -/

theorem number_of_lt_pow {l : IntegerLiteral} (h : l.value < 10 ^ desk.precision.digits) :
    number desk l.digits = .decimal (Decimal.ofInt l.value) := by
  have hctx := desk.holdsIntegers_context
  have hmax := desk.precision.le_max
  have hdigits : Numeral.digitCount l.value ≤ desk.precision.digits := Context.digitCount_le hctx h
  have hstorable : Decimal.isStorable l.value 0 := by
    refine Decimal.isStorable_iff.2 ⟨by decide, ?_⟩
    show 0 + (Numeral.digitCount l.value : Int) - 1 ≤ 999999999999999999
    omega
  have hread : Decimal.read? l.digits = some (.finite false l.value 0) :=
    Decimal.read?_of_whole l.ne_nil l.isDigit hstorable
  have hplus : desk.context.plus (.finite false l.value 0) = .finite false l.value 0 :=
    Context.plus_of_lt_pow hctx h
  have hofInt : Decimal.ofInt l.value = .finite false l.value 0 := by simp [Decimal.ofInt]
  rw [number, hread, hofInt]
  exact congrArg Value.decimal hplus

/-! ## Exact integers -/

theorem operate_exact (op : BinaryOperator) {m n : Int} (h : op = .power → 0 ≤ n) :
    (operate desk op.symbol (.exact m) (.exact n)).toOption =
      (op.integer? m n).map Value.exact := by
  have hexponent : ¬ (op.symbol = .power ∧ n < 0) := by
    rintro ⟨hop, hn⟩
    have : op = .power := by cases op <;> first | rfl | cases hop
    exact absurd (h this) (by omega)
  rw [operate, if_neg hexponent]
  cases op with
  | plus | minus | times => rfl
  | divide =>
    by_cases hn : n = 0
    · simp [exactOperate, BinaryOperator.symbol, BinaryOperator.integer?, hn, Except.toOption]
    · simp [exactOperate, BinaryOperator.symbol, BinaryOperator.integer?, hn, Except.toOption,
        Counting.divideTowardZero, Except.map, named]
  | power =>
    have hn : ¬ n < 0 := by
      have := h rfl
      omega
    rw [BinaryOperator.integer?, if_neg hn]
    rfl

theorem factorial_exact {n : Int} (h : n < 2 ^ 63) :
    (factorial desk (.exact n)).toOption = (factorial? n).map Value.exact := by
  by_cases hn : n < 0
  · rw [factorial?, if_pos hn]
    unfold factorial
    simp only [hn, if_true]
    cases (Value.exact n).text <;> rfl
  · have hmax : n ≤ Counting.maxFactorialOperand := by
      show n ≤ 9223372036854775807
      omega
    rw [factorial?, if_neg hn]
    unfold factorial
    simp only [hn, if_false]
    rw [Counting.factorial_of_nonneg (by omega) hmax]
    rfl

/-! ## Whole numbers in exact mode -/

variable {desk} {d : Decimal} {v w : Value} {m n : Int}

theorem decimalFactorial_of_nonneg (hd : d.StandsFor n) (hn : 0 ≤ n) : decimalFactorial desk d =
    if desk.exact.isOn && n ≤ exactFactorialLimit then (Counting.factorial n).map .exact
    else .ok (.decimal (desk.context.factorial n)) := by
  have htoInt := hd.toInt
  have hintegral := hd.isIntegral
  obtain ⟨s, c, rfl, hc⟩ := hd
  have hsign : (!(Decimal.finite s c 0).isNegative || (Decimal.finite s c 0).isZero) = true := by
    cases s with
    | false => rfl
    | true =>
      cases c with
      | zero => rfl
      | succ c =>
        simp only [Decimal.signed, if_true] at hc
        omega
  rw [decimalFactorial]
  simp only [hintegral, hsign, htoInt, Bool.and_self, if_true]

theorem factorial_decimal_exact (hmode : desk.exact.isOn) (hd : d.StandsFor n) (hn : 0 ≤ n)
    (hlimit : n ≤ exactFactorialLimit) :
    factorial desk (.decimal d) = .ok (.exact n.toNat.factorial) := by
  have hmax : n ≤ Counting.maxFactorialOperand := Int.le_trans hlimit (by decide)
  rw [factorial, decimalFactorial_of_nonneg hd hn, if_pos (by simp [hmode, hlimit]),
    Counting.factorial_of_nonneg hn hmax]
  rfl

theorem choose_eq_combinations (n r : Int) : Counting.choose n r = combinations n r := by
  unfold combinations
  split
  · rename_i h
    exact Counting.choose_of_le h.1 h.2
  · rename_i h
    rw [Counting.choose, if_neg (by rwa [Counting.isPossible_iff])]

theorem arrange_eq_arrangements (n r : Int) : Counting.arrange n r = arrangements n r := by
  unfold arrangements
  split
  · rename_i h
    exact Counting.arrange_of_le h.1 h.2
  · rename_i h
    rw [Counting.arrange, if_neg (by rwa [Counting.isPossible_iff])]

theorem count_eq (exact : Int → Int → Int) (rounded : Int → Int → Decimal)
    (general : Double → Double → Except ArithmeticFault Double) (hv : v.StandsFor m)
    (hw : w.StandsFor n) : count desk exact rounded general v w =
      .ok (if desk.exact.isOn then .exact (exact m n) else .decimal (rounded m n)) := by
  rw [count, hv.isIntegral, hw.isIntegral, hv.toInt, hw.toInt]
  show (if desk.exact.isOn then _ else _) = _
  split <;> rfl

theorem apply_ncr (hv : v.StandsFor m) (hw : w.StandsFor n) : apply desk .ncr [v, w] =
    .ok (if desk.exact.isOn then .exact (combinations m n)
      else .decimal (desk.context.choose m n)) := by
  rw [apply, applyTwo, count_eq _ _ _ hv hw, choose_eq_combinations]
  rfl

theorem apply_npr (hv : v.StandsFor m) (hw : w.StandsFor n) : apply desk .npr [v, w] =
    .ok (if desk.exact.isOn then .exact (arrangements m n)
      else .decimal (desk.context.arrange m n)) := by
  rw [apply, applyTwo, count_eq _ _ _ hv hw, arrange_eq_arrangements]
  · rfl
  · nofun
  · nofun

/-! ## Integers of either kind within the precision -/

theorem standsFor_negate (hv : v.StandsFor m) (h : m.natAbs < 10 ^ desk.precision.digits) :
    (negate desk v).StandsFor (-m) := by
  cases v with
  | exact k =>
    cases hv
    rfl
  | decimal d => exact Context.standsFor_minus desk.holdsIntegers_context hv h

theorem standsFor_magnitude (hv : v.StandsFor m) (h : m.natAbs < 10 ^ desk.precision.digits) :
    (magnitude desk v).StandsFor m.natAbs := by
  cases v with
  | exact k =>
    cases hv
    rfl
  | decimal d => exact Context.standsFor_abs desk.holdsIntegers_context hv h

theorem standsFor_decimalOperate {op : BinaryOperator} {a b : Decimal} {k : Int}
    (ha : a.StandsFor m) (hb : b.StandsFor n) (hm : m.natAbs < 10 ^ desk.precision.digits)
    (hop : op ≠ .divide) (hexponent : op = .power → n < 2 ^ 53) (hk : op.integer? m n = some k)
    (h : k.natAbs < 10 ^ desk.precision.digits) :
    ∃ d, decimalOperate desk op.symbol a b = .ok (.decimal d) ∧ d.StandsFor k := by
  have hctx := desk.holdsIntegers_context
  cases op with
  | plus =>
    cases hk
    exact ⟨_, rfl, Context.standsFor_add hctx ha hb hm h⟩
  | minus =>
    cases hk
    exact ⟨_, rfl, Context.standsFor_sub hctx ha hb hm h⟩
  | times =>
    cases hk
    exact ⟨_, rfl, Context.standsFor_mul hctx ha hb h⟩
  | divide => exact absurd rfl hop
  | power =>
    rw [BinaryOperator.integer?] at hk
    split at hk
    · cases hk
    · rename_i hn
      cases hk
      have hlt := hexponent rfl
      have hroom : (desk.context.precision : Int) + 20 ≤ desk.context.maxExponent := by
        have := desk.precision.le_max
        show (desk.precision.digits : Int) + 20 ≤ 999999999999999999
        omega
      have hb : b.StandsFor n.toNat := by rwa [Int.toNat_of_nonneg (by omega)]
      obtain ⟨d, hd, hstands⟩ := Context.standsFor_power hctx hroom ha hb (by omega) h
      refine ⟨d, ?_, hstands⟩
      show named _ ((desk.context.power a b).map .decimal) = _
      rw [hd]
      rfl

theorem standsFor_operate {op : BinaryOperator} {k : Int} (hv : v.StandsFor m) (hw : w.StandsFor n)
    (hm : m.natAbs < 10 ^ desk.precision.digits) (hop : op ≠ .divide)
    (hexponent : op = .power → n < 2 ^ 53) (hk : op.integer? m n = some k)
    (h : k.natAbs < 10 ^ desk.precision.digits) :
    ∃ x, operate desk op.symbol v w = .ok x ∧ x.StandsFor k := by
  have hdecimal := standsFor_decimalOperate hv.toDecimal hw.toDecimal hm hop hexponent hk h
  cases v with
  | exact i =>
    cases w with
    | exact j =>
      cases hv
      cases hw
      have hnonneg : op = .power → 0 ≤ n := by
        rintro rfl
        rw [BinaryOperator.integer?] at hk
        split at hk
        · cases hk
        · omega
      have hexact := operate_exact desk op hnonneg (m := m)
      rw [hk] at hexact
      exact ⟨_, eq_ok_of_toOption hexact, rfl⟩
    | decimal e =>
      obtain ⟨d, hd, hstands⟩ := hdecimal
      exact ⟨_, hd, hstands⟩
  | decimal e =>
    obtain ⟨d, hd, hstands⟩ := hdecimal
    exact ⟨_, hd, hstands⟩

theorem le_of_factorial_lt_pow {n : Nat} (h : n.factorial < 10 ^ desk.precision.digits) :
    n ≤ 200 := by
  have hmax : 10 ^ desk.precision.digits ≤ 10 ^ 200 :=
    Nat.pow_le_pow_right (by decide) desk.precision.le_max
  have hconst : 10 ^ 200 ≤ Nat.factorial 200 := by decide +kernel
  by_contra hn
  have := Nat.factorial_le (show 200 ≤ n by omega)
  omega

theorem standsFor_factorial {k : Int} (hv : v.StandsFor m) (hk : factorial? m = some k)
    (h : k.natAbs < 10 ^ desk.precision.digits) :
    ∃ x, factorial desk v = .ok x ∧ x.StandsFor k := by
  rw [factorial?] at hk
  split at hk
  · cases hk
  · rename_i hm
    cases hk
    rw [Int.natAbs_natCast] at h
    have hle := le_of_factorial_lt_pow h
    cases v with
    | exact i =>
      cases hv
      have hexact := factorial_exact desk (show m < 2 ^ 63 by omega)
      rw [factorial?, if_neg hm] at hexact
      exact ⟨_, eq_ok_of_toOption hexact, rfl⟩
    | decimal d =>
      have hlimit : m ≤ exactFactorialLimit := by
        show m ≤ 2000
        omega
      by_cases hmode : desk.exact.isOn
      · exact ⟨_, factorial_decimal_exact hmode hv (by omega) hlimit, rfl⟩
      · have hrounded := Context.factorial_of_lt_pow desk.holdsIntegers_context h
        rw [Int.toNat_of_nonneg (by omega)] at hrounded
        refine ⟨.decimal (desk.context.factorial m), ?_, ?_⟩
        · rw [factorial, decimalFactorial_of_nonneg hv (by omega), if_neg (by simp [hmode])]
          rfl
        · rw [hrounded]
          exact Decimal.standsFor_finite false _

theorem standsFor_ncr (hv : v.StandsFor m) (hw : w.StandsFor n)
    (h : 0 ≤ n → n ≤ m → (min n (m - n)).toNat * m.toNat.choose n.toNat <
      10 ^ desk.precision.digits) :
    ∃ x, apply desk .ncr [v, w] = .ok x ∧ x.StandsFor (combinations m n) := by
  refine ⟨_, apply_ncr hv hw, ?_⟩
  split
  · rfl
  · unfold combinations
    split
    · rename_i hle
      rw [Context.choose_of_lt_pow desk.holdsIntegers_context hle.1 hle.2 (h hle.1 hle.2)]
      exact Decimal.standsFor_finite false _
    · rename_i hle
      rw [Context.choose, if_neg (by rwa [Counting.isPossible_iff])]
      exact Decimal.standsFor_finite false 0

theorem standsFor_npr (hv : v.StandsFor m) (hw : w.StandsFor n)
    (h : (arrangements m n).natAbs < 10 ^ desk.precision.digits) :
    ∃ x, apply desk .npr [v, w] = .ok x ∧ x.StandsFor (arrangements m n) := by
  refine ⟨_, apply_npr hv hw, ?_⟩
  split
  · rfl
  · unfold arrangements at h ⊢
    split
    · rename_i hle
      rw [if_pos hle, Int.natAbs_natCast] at h
      rw [Context.arrange_of_lt_pow desk.holdsIntegers_context hle.1 hle.2 h]
      exact Decimal.standsFor_finite false _
    · rename_i hle
      rw [Context.arrange, if_neg (by rwa [Counting.isPossible_iff])]
      exact Decimal.standsFor_finite false 0

end Operations

end DeskCalculator
