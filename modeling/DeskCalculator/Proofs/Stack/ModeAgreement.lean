import DeskCalculator.Proofs.Stack.IntegerOperations
import DeskCalculator.Proofs.Stack.TreeRun

/-!
# Agreement of the two modes

An expression over literals whose values all fit the precision is computed without rounding in
either mode. In exact mode factorials and counts are exact integers, otherwise decimals; both stand
for the value over the integers (`run_setExact_of_fits`).
-/

namespace DeskCalculator.IntegerExpression

/-- The expression has literals at its leaves and no division, and its values, also those that occur
while combinations are counted, fit the precision. Since every part has a value, no operand of a
factorial and no exponent is negative. -/
structure Fits (desk : Desk) (e : IntegerExpression) : Prop where
  ne_answer : answer ∉ e.parts
  ne_divide : ∀ a b, binary .divide a b ∉ e.parts
  lt_pow : ∀ part ∈ e.parts, ∃ n, part.integer desk.answer.toInt = some n ∧
    n.natAbs < 10 ^ desk.precision.digits
  exponent_lt : ∀ a b, binary .power a b ∈ e.parts →
    ∀ n, b.integer desk.answer.toInt = some n → n < 2 ^ 53
  choose_lt_pow : ∀ a b, choose a b ∈ e.parts →
    ∀ n r, a.integer desk.answer.toInt = some n → b.integer desk.answer.toInt = some r →
    0 ≤ r → r ≤ n →
    (min r (n - r)).toNat * n.toNat.choose r.toNat < 10 ^ desk.precision.digits

variable {desk : Desk} {e : IntegerExpression}

theorem Fits.of_subset {part : IntegerExpression} (h : e.Fits desk) (hsub : part.parts ⊆ e.parts) :
    part.Fits desk where
  ne_answer := fun hanswer => h.ne_answer (hsub hanswer)
  ne_divide a b hdivide := h.ne_divide a b (hsub hdivide)
  lt_pow q hq := h.lt_pow q (hsub hq)
  exponent_lt a b hpower := h.exponent_lt a b (hsub hpower)
  choose_lt_pow a b hchoose := h.choose_lt_pow a b (hsub hchoose)

theorem Fits.natAbs_lt {n : Int} (h : e.Fits desk) (hn : e.integer desk.answer.toInt = some n) :
    n.natAbs < 10 ^ desk.precision.digits := by
  obtain ⟨m, hm, hlt⟩ := h.lt_pow e (self_mem_parts e)
  rw [hn] at hm
  cases hm
  exact hlt

/-- In either mode the value of the tree stands for the value over the integers. -/
theorem Fits.standsFor_value (h : e.Fits desk) :
    ∃ n v, e.integer desk.answer.toInt = some n ∧ e.tree.value desk = .ok v ∧ v.StandsFor n := by
  induction e with
  | literal l =>
    have hlt := h.natAbs_lt (n := l.value) rfl
    rw [Int.natAbs_natCast] at hlt
    refine ⟨l.value, _, rfl, rfl, ?_⟩
    rw [Operations.number_of_lt_pow desk hlt]
    exact Value.standsFor_ofInt _
  | answer => exact absurd (self_mem_parts _) h.ne_answer
  | negate e ih =>
    have he : e.Fits desk := h.of_subset (by simp [parts])
    obtain ⟨n, v, hn, hv, hstands⟩ := ih he
    refine ⟨-n, _, by rw [integer, hn]; rfl, ?_,
      Operations.standsFor_negate hstands (he.natAbs_lt hn)⟩
    rw [tree, Tree.value, hv]
    rfl
  | magnitude e ih =>
    have he : e.Fits desk := h.of_subset (by simp [parts])
    obtain ⟨n, v, hn, hv, hstands⟩ := ih he
    refine ⟨n.natAbs, _, by rw [integer, hn]; rfl, ?_,
      Operations.standsFor_magnitude hstands (he.natAbs_lt hn)⟩
    rw [tree, Tree.value_call_one, hv]
    rfl
  | factorial e ih =>
    obtain ⟨n, v, hn, hv, hstands⟩ := ih (h.of_subset (by simp [parts]))
    obtain ⟨k, hk, hlt⟩ := h.lt_pow _ (self_mem_parts _)
    have hfactorial : factorial? n = some k := by rwa [integer, hn] at hk
    obtain ⟨x, hx, hstands⟩ := Operations.standsFor_factorial hstands hfactorial hlt
    refine ⟨k, x, hk, ?_, hstands⟩
    rw [tree, Tree.value, hv]
    exact hx
  | binary op a b iha ihb =>
    have ha : a.Fits desk := h.of_subset (by simp [parts])
    obtain ⟨m, v, hm, hv, hstandsa⟩ := iha ha
    obtain ⟨n, w, hn, hw, hstandsb⟩ := ihb (h.of_subset (by simp [parts]))
    obtain ⟨k, hk, hlt⟩ := h.lt_pow _ (self_mem_parts _)
    have hinteger : op.integer? m n = some k := by rwa [integer, hm, hn] at hk
    have hdivide : op ≠ .divide := by
      rintro rfl
      exact h.ne_divide a b (self_mem_parts _)
    have hexponent : op = .power → n < 2 ^ 53 := by
      rintro rfl
      exact h.exponent_lt a b (self_mem_parts _) n hn
    obtain ⟨x, hx, hstands⟩ := Operations.standsFor_operate hstandsa hstandsb (ha.natAbs_lt hm)
      hdivide hexponent hinteger hlt
    refine ⟨k, x, hk, ?_, hstands⟩
    rw [tree, Tree.value, hv, hw]
    exact hx
  | choose a b iha ihb =>
    obtain ⟨n, v, hn, hv, hstandsa⟩ := iha (h.of_subset (by simp [parts]))
    obtain ⟨r, w, hr, hw, hstandsb⟩ := ihb (h.of_subset (by simp [parts]))
    obtain ⟨x, hx, hstands⟩ := Operations.standsFor_ncr hstandsa hstandsb
      (h.choose_lt_pow a b (self_mem_parts _) n r hn hr)
    refine ⟨combinations n r, x, by rw [integer, hn, hr]; rfl, ?_, hstands⟩
    rw [tree, Tree.value_call_two, hv, hw]
    exact hx
  | arrange a b iha ihb =>
    obtain ⟨n, v, hn, hv, hstandsa⟩ := iha (h.of_subset (by simp [parts]))
    obtain ⟨r, w, hr, hw, hstandsb⟩ := ihb (h.of_subset (by simp [parts]))
    have harrange : (arrange a b).integer desk.answer.toInt = some (arrangements n r) := by
      rw [integer, hn, hr]
      rfl
    obtain ⟨x, hx, hstands⟩ := Operations.standsFor_npr hstandsa hstandsb (h.natAbs_lt harrange)
    refine ⟨arrangements n r, x, harrange, ?_, hstands⟩
    rw [tree, Tree.value_call_two, hv, hw]
    exact hx

/-- **The modes agree** where nothing needs rounding: with exact mode on and off the run gives a
number, in both cases the value over the integers. -/
theorem run_setExact_of_fits (h : e.Fits desk)
    (hheight : ∀ on, e.tree.height (desk.setExact on) ≤ Stack.maxEntries) :
    ∃ n : Int, e.integer desk.answer.toInt = some n ∧
      ∀ on, ∃ v, Stack.run (desk.setExact on) e.tree.items = .ok v ∧ v.toRat? = some (n : ℚ) := by
  obtain ⟨n, hn, -⟩ := h.lt_pow e (self_mem_parts e)
  refine ⟨n, hn, fun on => ?_⟩
  have hfits : e.Fits (desk.setExact on) := ⟨h.1, h.2, h.3, h.4, h.5⟩
  obtain ⟨m, v, hm, hv, hstands⟩ := hfits.standsFor_value
  obtain rfl : m = n := Option.some.inj (hm.symm.trans hn)
  refine ⟨v, ?_, hstands.toRat?⟩
  rw [Stack.run_items e.isApplicable_tree (hheight on)]
  exact Tree.result_of_value hv hstands.isFinite

/-- `ncr(6, 2) ^ 2 - 5!` at eight digits. -/
theorem run_setExact_of_fits_difference :
    let desk : Desk := { precision := { digits := 8 } }
    let e := binary .minus
      (binary .power (choose (literal (.ofNat 6)) (literal (.ofNat 2))) (literal (.ofNat 2)))
      (factorial (literal (.ofNat 5)))
    ∀ on, ∃ v, Stack.run (desk.setExact on) e.tree.items = .ok v ∧ v.toRat? = some 105 := by
  intro desk e
  have hfits : e.Fits desk := by
    constructor
    · simp [e, parts]
    · simp [e, parts]
    · intro part hpart
      simp only [e, parts, List.mem_cons, List.cons_append, List.nil_append, List.mem_nil_iff,
        or_false] at hpart
      rcases hpart with rfl | rfl | rfl | rfl | rfl | rfl | rfl | rfl
      all_goals exact ⟨_, rfl, by decide +kernel⟩
    · intro a b hpower n hn
      simp [e, parts] at hpower
      obtain ⟨rfl, rfl⟩ := hpower
      cases hn
      decide
    · intro a b hchoose n r hn hr _ _
      simp [e, parts] at hchoose
      obtain ⟨rfl, rfl⟩ := hchoose
      cases hn
      cases hr
      decide +kernel
  have hheight : ∀ on, e.tree.height (desk.setExact on) ≤ Stack.maxEntries := by decide +kernel
  obtain ⟨n, hn, hrun⟩ := run_setExact_of_fits hfits hheight
  have hvalue : e.integer desk.answer.toInt = some 105 := by decide +kernel
  obtain rfl : n = 105 := Option.some.inj (hn.symm.trans hvalue)
  exact hrun

end DeskCalculator.IntegerExpression
