import DeskCalculator.Proofs.Stack.IntegerOperations
import DeskCalculator.Proofs.Stack.TreeRun

/-!
# Runs in exact mode

In exact mode factorials and counts of literals are exact integers, and what is computed from exact
integers is exact again, whatever its size. So the run of such an expression gives its value over
the integers, or fails where there is none, and the precision has no part in it
(`run_of_hasExactLeaves`).
-/

namespace DeskCalculator

namespace IntegerExpression

/-- The leaves are exact in exact mode: an exact last answer, the factorial of a small literal, or a
count of literals within the precision. -/
inductive HasExactLeaves (desk : Desk) : IntegerExpression → Prop where
  | answer (h : desk.answer.isExact) : HasExactLeaves desk answer
  | factorialOfLiteral {l : IntegerLiteral} (h : l.value ≤ 2000) :
    HasExactLeaves desk (factorial (literal l))
  | chooseOfLiterals {l k : IntegerLiteral} (hl : l.value < 10 ^ desk.precision.digits)
    (hk : k.value < 10 ^ desk.precision.digits) :
    HasExactLeaves desk (choose (literal l) (literal k))
  | arrangeOfLiterals {l k : IntegerLiteral} (hl : l.value < 10 ^ desk.precision.digits)
    (hk : k.value < 10 ^ desk.precision.digits) :
    HasExactLeaves desk (arrange (literal l) (literal k))
  | negate {e : IntegerExpression} (h : HasExactLeaves desk e) : HasExactLeaves desk (negate e)
  | magnitude {e : IntegerExpression} (h : HasExactLeaves desk e) :
    HasExactLeaves desk (magnitude e)
  | factorial {e : IntegerExpression} (h : HasExactLeaves desk e) :
    HasExactLeaves desk (factorial e)
  | binary (op : BinaryOperator) {a b : IntegerExpression} (ha : HasExactLeaves desk a)
    (hb : HasExactLeaves desk b) : HasExactLeaves desk (binary op a b)
  | choose {n r : IntegerExpression} (hn : HasExactLeaves desk n) (hr : HasExactLeaves desk r) :
    HasExactLeaves desk (choose n r)
  | arrange {n r : IntegerExpression} (hn : HasExactLeaves desk n) (hr : HasExactLeaves desk r) :
    HasExactLeaves desk (arrange n r)

/-- The operands of factorials are below `2 ^ 63` and the exponents are not negative. -/
structure IsBounded (last : Int) (e : IntegerExpression) : Prop where
  factorial_lt : ∀ a, factorial a ∈ e.parts → ∀ n, a.integer last = some n → n < 2 ^ 63
  exponent_nonneg : ∀ a b, binary .power a b ∈ e.parts → ∀ n, b.integer last = some n → 0 ≤ n

/-- The value when nothing is rounded: a literal is a decimal, all else an exact integer. -/
def unrounded (last : Int) : IntegerExpression → Option Value
  | literal l => some (.decimal (Decimal.ofInt l.value))
  | e => (e.integer last).map .exact

theorem IsBounded.of_subset {last : Int} {e part : IntegerExpression} (h : e.IsBounded last)
    (hsub : part.parts ⊆ e.parts) : part.IsBounded last where
  factorial_lt a ha := h.factorial_lt a (hsub ha)
  exponent_nonneg a b hab := h.exponent_nonneg a b (hsub hab)

/-! ## Values of the trees -/

variable {desk : Desk} {e : IntegerExpression}

theorem toOption_value_negate {x : Option Int} (h : (e.tree.value desk).toOption = x.map .exact) :
    ((negate e).tree.value desk).toOption = (x.map fun n => -n).map .exact := by
  rw [tree, Tree.value, toOption_bind, h]
  cases x <;> rfl

theorem toOption_value_magnitude {x : Option Int}
    (h : (e.tree.value desk).toOption = x.map .exact) :
    ((magnitude e).tree.value desk).toOption = (x.map fun n => (n.natAbs : Int)).map .exact := by
  rw [tree, Tree.value_call_one, toOption_bind, h]
  cases x <;> rfl

theorem toOption_value_factorial {x : Option Int} (h : (e.tree.value desk).toOption = x.map .exact)
    (hlt : ∀ n, x = some n → n < 2 ^ 63) :
    ((factorial e).tree.value desk).toOption = (x.bind factorial?).map .exact := by
  rw [tree, Tree.value, toOption_bind, h]
  cases x with
  | none => rfl
  | some n => exact Operations.factorial_exact desk (hlt n rfl)

theorem toOption_value_binary (op : BinaryOperator) {a b : IntegerExpression} {x y : Option Int}
    (ha : (a.tree.value desk).toOption = x.map .exact)
    (hb : (b.tree.value desk).toOption = y.map .exact)
    (hnonneg : op = .power → ∀ n, y = some n → 0 ≤ n) :
    ((binary op a b).tree.value desk).toOption =
      (x.bind fun m => y.bind fun n => op.integer? m n).map .exact := by
  simp only [tree, Tree.value, toOption_bind, ha, hb]
  cases x with
  | none => rfl
  | some m =>
    cases y with
    | none => rfl
    | some n => exact Operations.operate_exact desk op fun hop => hnonneg hop n rfl

theorem toOption_value_count {f : Function} {count : Int → Int → Int} {a b : Tree}
    {x y : Option Int} (hcount : ∀ i j, Operations.apply desk f [.exact i, .exact j] =
      .ok (.exact (count i j)))
    (ha : (a.value desk).toOption = x.map .exact) (hb : (b.value desk).toOption = y.map .exact) :
    ((Tree.call f.name [a, b]).value desk).toOption =
      (x.bind fun i => y.map fun j => count i j).map .exact := by
  simp only [Tree.value_call_two, toOption_bind, ha, hb]
  cases x with
  | none => rfl
  | some i =>
    cases y with
    | none => rfl
    | some j => exact congrArg Except.toOption (hcount i j)

theorem value_call_literals (f : Function) {l k : IntegerLiteral}
    (hl : l.value < 10 ^ desk.precision.digits) (hk : k.value < 10 ^ desk.precision.digits) :
    (Tree.call f.name [(literal l).tree, (literal k).tree]).value desk =
      Operations.apply desk f [.decimal (Decimal.ofInt l.value),
        .decimal (Decimal.ofInt k.value)] := by
  rw [Tree.value_call_two, ← Operations.number_of_lt_pow desk hl,
    ← Operations.number_of_lt_pow desk hk]
  rfl

theorem HasExactLeaves.toOption_value (h : HasExactLeaves desk e) (hmode : desk.exact.isOn)
    (hbounds : e.IsBounded desk.answer.toInt) :
    (e.tree.value desk).toOption = (e.integer desk.answer.toInt).map .exact := by
  have hncr (i j : Int) : Operations.apply desk .ncr [.exact i, .exact j] =
      .ok (.exact (combinations i j)) := by
    rw [Operations.apply_ncr (Value.standsFor_exact i) (Value.standsFor_exact j), if_pos hmode]
  have hnpr (i j : Int) : Operations.apply desk .npr [.exact i, .exact j] =
      .ok (.exact (arrangements i j)) := by
    rw [Operations.apply_npr (Value.standsFor_exact i) (Value.standsFor_exact j), if_pos hmode]
  induction h with
  | answer h =>
    obtain ⟨n, hn⟩ : ∃ n, desk.answer = .exact n := by
      cases hanswer : desk.answer with
      | exact n => exact ⟨n, rfl⟩
      | decimal d =>
        rw [hanswer] at h
        cases h
    show some desk.answer = some (.exact desk.answer.toInt)
    rw [hn]
    rfl
  | @factorialOfLiteral l h =>
    have hlt : l.value < 10 ^ desk.precision.digits := by
      have : 10 ^ 8 ≤ 10 ^ desk.precision.digits :=
        Nat.pow_le_pow_right (by decide) desk.precision.min_le
      omega
    have hfactorial : Operations.factorial desk (.decimal (Decimal.ofInt l.value)) =
        .ok (.exact l.value.factorial) :=
      Operations.factorial_decimal_exact hmode (Decimal.standsFor_ofInt _) (by omega)
        (show (l.value : Int) ≤ 2000 by omega)
    show (Operations.factorial desk (Operations.number desk l.digits)).toOption = _
    rw [Operations.number_of_lt_pow desk hlt, hfactorial]
    simp [integer, factorial?, Except.toOption]
  | chooseOfLiterals hl hk =>
    rw [tree, value_call_literals .ncr hl hk,
      Operations.apply_ncr (Value.standsFor_ofInt _) (Value.standsFor_ofInt _), if_pos hmode]
    rfl
  | arrangeOfLiterals hl hk =>
    rw [tree, value_call_literals .npr hl hk,
      Operations.apply_npr (Value.standsFor_ofInt _) (Value.standsFor_ofInt _), if_pos hmode]
    rfl
  | negate h ih => exact toOption_value_negate (ih (hbounds.of_subset (by simp [parts])))
  | magnitude h ih => exact toOption_value_magnitude (ih (hbounds.of_subset (by simp [parts])))
  | factorial h ih =>
    exact toOption_value_factorial (ih (hbounds.of_subset (by simp [parts])))
      (hbounds.factorial_lt _ (self_mem_parts _))
  | binary op ha hb iha ihb =>
    refine toOption_value_binary op (iha (hbounds.of_subset (by simp [parts])))
      (ihb (hbounds.of_subset (by simp [parts]))) ?_
    rintro rfl
    exact hbounds.exponent_nonneg _ _ (self_mem_parts _)
  | choose hn hr ihn ihr =>
    exact toOption_value_count hncr (ihn (hbounds.of_subset (by simp [parts])))
      (ihr (hbounds.of_subset (by simp [parts])))
  | arrange hn hr ihn ihr =>
    exact toOption_value_count hnpr (ihn (hbounds.of_subset (by simp [parts])))
      (ihr (hbounds.of_subset (by simp [parts])))

/-- Whatever is within an expression with exact leaves has them too, or is one of the literals of a
leaf. -/
theorem HasExactLeaves.part {part : IntegerExpression} (h : HasExactLeaves desk e)
    (hpart : part ∈ e.parts) : HasExactLeaves desk part ∨
      ∃ l : IntegerLiteral, part = literal l ∧ l.value < 10 ^ desk.precision.digits := by
  induction h with
  | answer h =>
    rw [parts, List.mem_singleton] at hpart
    rw [hpart]
    exact .inl (.answer h)
  | factorialOfLiteral h =>
    rcases List.mem_cons.1 hpart with rfl | hpart
    · exact .inl (.factorialOfLiteral h)
    · rw [parts, List.mem_singleton] at hpart
      refine .inr ⟨_, hpart, ?_⟩
      have := Nat.pow_le_pow_right (show 0 < 10 by decide) desk.precision.min_le
      omega
  | chooseOfLiterals hl hk | arrangeOfLiterals hl hk =>
    rcases List.mem_cons.1 hpart with rfl | hpart
    · left
      constructor
      · exact hl
      · exact hk
    · rcases List.mem_append.1 hpart with hpart | hpart
      · exact .inr ⟨_, List.mem_singleton.1 hpart, hl⟩
      · exact .inr ⟨_, List.mem_singleton.1 hpart, hk⟩
  | negate h ih | magnitude h ih | factorial h ih =>
    rcases List.mem_cons.1 hpart with rfl | hpart
    · left
      constructor
      exact h
    · exact ih hpart
  | binary _ ha hb iha ihb | choose ha hb iha ihb | arrange ha hb iha ihb =>
    rcases List.mem_cons.1 hpart with rfl | hpart
    · left
      constructor
      · exact ha
      · exact hb
    · exact (List.mem_append.1 hpart).elim iha ihb

theorem HasExactLeaves.toOption_value_part {part : IntegerExpression} (h : HasExactLeaves desk e)
    (hmode : desk.exact.isOn) (hbounds : e.IsBounded desk.answer.toInt) (hpart : part ∈ e.parts) :
    (part.tree.value desk).toOption = part.unrounded desk.answer.toInt := by
  rcases h.part hpart with hleaves | ⟨l, rfl, hl⟩
  · rw [hleaves.toOption_value hmode (hbounds.of_subset (parts_subset hpart))]
    cases hleaves <;> rfl
  · show some (Operations.number desk l.digits) = _
    rw [Operations.number_of_lt_pow desk hl]
    rfl

/-- There is no value, if the exponents are not negative, exactly where something is divided by zero
or the factorial of a negative integer is taken. -/
theorem IsBounded.integer_eq_none_iff {last : Int} (h : e.IsBounded last) :
    e.integer last = none ↔
      (∃ a b, binary .divide a b ∈ e.parts ∧ b.integer last = some 0) ∨
      ∃ a, factorial a ∈ e.parts ∧ ∃ n < 0, a.integer last = some n := by
  rw [IntegerExpression.integer_eq_none_iff]
  constructor
  · rintro ⟨part, hpart, hlacks⟩
    cases part with
    | binary op a b =>
      cases op with
      | divide => exact .inl ⟨a, b, hpart, hlacks⟩
      | power =>
        obtain ⟨n, hn, hb⟩ := hlacks
        have := h.exponent_nonneg a b hpart n hb
        omega
      | plus | minus | times => cases hlacks
    | factorial a => exact .inr ⟨a, hpart, hlacks⟩
    | literal | answer | negate | magnitude | choose | arrange => cases hlacks
  · rintro (⟨a, b, hpart, hb⟩ | ⟨a, hpart, hn⟩)
    · exact ⟨_, hpart, hb⟩
    · exact ⟨_, hpart, hn⟩

/-- **Exact results stay exact.** In exact mode the run of an expression with exact leaves gives its
value over the integers as an exact integer, and no value at all exactly where a divisor is zero or
the operand of a factorial is negative. Nothing within the expression is rounded, and no value
depends on the precision. -/
theorem run_of_hasExactLeaves (h : HasExactLeaves desk e) (hmode : desk.exact.isOn)
    (hbounds : e.IsBounded desk.answer.toInt) (hheight : e.tree.height desk ≤ Stack.maxEntries) :
    (Stack.run desk e.tree.items).toOption = (e.integer desk.answer.toInt).map .exact ∧
    (e.integer desk.answer.toInt = none ↔
      (∃ a b, binary .divide a b ∈ e.parts ∧ b.integer desk.answer.toInt = some 0) ∨
      ∃ a, factorial a ∈ e.parts ∧ ∃ n < 0, a.integer desk.answer.toInt = some n) ∧
    ∀ part ∈ e.parts,
      (part.tree.value desk).toOption = part.unrounded desk.answer.toInt := by
  refine ⟨?_, hbounds.integer_eq_none_iff, fun part => h.toOption_value_part hmode hbounds⟩
  have hvalue := h.toOption_value hmode hbounds
  rw [Stack.run_items e.isApplicable_tree hheight, Tree.result, toOption_bind, hvalue]
  cases e.integer desk.answer.toInt <;> rfl

/-- `-25! / ans + ans ^ ncr(4, 2)` at eight digits, where the last answer is 29. -/
theorem run_of_hasExactLeaves_quotient :
    let desk : Desk :=
      { precision := { digits := 8 }, exact := .truth true, answer := .exact 29 }
    let e := binary .plus
      (binary .divide (negate (factorial (literal (.ofNat 25)))) answer)
      (binary .power answer (choose (literal (.ofNat 4)) (literal (.ofNat 2))))
    (Stack.run desk e.tree.items).toOption = some (.exact (-534869311838998921866334)) := by
  intro desk e
  have hleaves : HasExactLeaves desk e :=
    .binary .plus (.binary .divide (.negate (.factorialOfLiteral (by decide))) (.answer rfl))
      (.binary .power (.answer rfl) (.chooseOfLiterals (by decide) (by decide)))
  have hbounds : e.IsBounded 29 := by
    constructor
    · intro a ha n hn
      simp only [e, parts, List.mem_cons, List.cons_append, List.nil_append, List.mem_nil_iff,
        reduceCtorEq, factorial.injEq, false_or, or_false] at ha
      subst ha
      cases hn
      decide
    · intro a b hab n hn
      simp [e, parts] at hab
      obtain ⟨rfl, rfl⟩ := hab
      cases hn
      decide
  have hheight : e.tree.height desk ≤ Stack.maxEntries := by decide +kernel
  have hvalue : e.integer 29 = some (-534869311838998921866334) := by decide +kernel
  have hrun := (run_of_hasExactLeaves hleaves rfl hbounds hheight).1
  rw [show desk.answer.toInt = 29 from rfl, hvalue] at hrun
  exact hrun

end IntegerExpression

end DeskCalculator
