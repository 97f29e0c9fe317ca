import DeskCalculator.Proofs.Counting.Rounded
import DeskCalculator.Proofs.Decimal.RelativeError
import DeskCalculator.Proofs.Stack.Results
import DeskCalculator.Proofs.Value.Number

/-!
# The accuracy of decimal counts

Every multiplication and division of a decimal loop is off by the unit roundoff at most, so that
after `m` of them the result lies between `(1 - u) ^ m` and `(1 + u) ^ m` times the exact one
(`counts_accuracy`). The partial results of the loops stay at or above one, away from the smallest
exponent; what has to be seen to is that no product reaches the bound (`StaysBelow`).
-/

namespace DeskCalculator.Context

open Decimal

/-! ## Errors that add up -/

/-- A number that is as near to another as `m` rounded operations leave it. -/
def Near (u : ℚ) (m : Nat) (x y : ℚ) : Prop := y * (1 - u) ^ m ≤ x ∧ x ≤ y * (1 + u) ^ m

theorem Near.step {u x y z r : ℚ} {m : Nat} (hu : 0 ≤ u) (hu1 : u ≤ 1) (h : Near u m x y)
    (hz : 0 ≤ z) (hr : |r - x * z| ≤ u * (x * z)) : Near u (m + 1) r (y * z) := by
  obtain ⟨hlow, hhigh⟩ := abs_le.1 hr
  constructor
  · calc y * z * (1 - u) ^ (m + 1) = y * (1 - u) ^ m * z * (1 - u) := by ring
      _ ≤ x * z * (1 - u) := mul_le_mul_of_nonneg_right (mul_le_mul_of_nonneg_right h.1 hz) (by linarith)
      _ ≤ r := by linarith
  · calc r ≤ x * z * (1 + u) := by linarith
      _ ≤ y * (1 + u) ^ m * z * (1 + u) :=
        mul_le_mul_of_nonneg_right (mul_le_mul_of_nonneg_right h.2 hz) (by linarith)
      _ = y * z * (1 + u) ^ (m + 1) := by ring

variable {ctx : Context} {a : Decimal} {m k d : Nat} {y : ℚ}

/-- A decimal from one on, near to a number. -/
def Approximates (ctx : Context) (m : Nat) (a : Decimal) (y : ℚ) : Prop :=
  ∃ c e, a = finite false c e ∧ ctx.Represents c e ∧ 1 ≤ scaled c e ∧
    Near ctx.unitRoundoff m (scaled c e) y

/-- A decimal whose product with a factor stays below the bound. -/
def ProductFits (ctx : Context) (a : Decimal) (k : Nat) : Prop :=
  ∀ x, a.toRat? = some x → x * k < ctx.overflowBound

/-- A context that keeps integers. -/
structure Counts (ctx : Context) : Prop where
  wide : ctx.IsWide
  moderate : ctx.IsModerate

theorem ne_zero_of_one_le {c : Nat} {e : Int} (h : 1 ≤ scaled c e) : c ≠ 0 := by
  rintro rfl
  simp [scaled] at h
  linarith

theorem scaled_zero (k : Nat) : scaled k 0 = k := by simp [scaled]

section Steps

variable (hctx : ctx.Counts)
include hctx

theorem Counts.unitRoundoff_le_one : ctx.unitRoundoff ≤ 1 :=
  (unitRoundoff_le hctx.wide).trans (by norm_num)

theorem approximates_mul (h : ctx.Approximates m a y) (hk : 0 < k) (hfits : ctx.ProductFits a k) :
    ctx.Approximates (m + 1) (ctx.mul a (ofNat k)) (y * k) ∧
      ∃ c e, ctx.mul a (ofNat k) = finite false c e ∧ (k : ℚ) / 2 ≤ scaled c e := by
  obtain ⟨c, e, rfl, -, hone, hnear⟩ := h
  have hkQ : (1 : ℚ) ≤ k := by exact_mod_cast hk
  have hproduct : (k : ℚ) ≤ scaled c e * k := le_mul_of_one_le_left (by linarith) hone
  have hmul := exists_mul (s := false) (t := false) (e := e) (f := 0) hctx.wide
    hctx.moderate.min_nonpos (ne_zero_of_one_le hone) hk.ne'
  rw [scaled_zero, zpow_zero] at hmul
  obtain ⟨q, g, hmul, hq, herror⟩ := hmul (by linarith) (hfits (scaled c e) rfl)
  replace hmul : ctx.mul (finite false c e) (ofNat k) = finite false q g := hmul
  have hkeeps := keeps_mul hctx.moderate (finite false c e) (ofNat k)
  have hhalf : ctx.unitRoundoff * (scaled c e * k) ≤ 1 / 2 * (scaled c e * k) :=
    mul_le_mul_of_nonneg_right (unitRoundoff_le hctx.wide) (by linarith)
  have hlow := (abs_le.1 herror).1
  rw [hmul] at hkeeps ⊢
  refine ⟨⟨q, g, rfl, hkeeps, hq, ?_⟩, q, g, rfl, by linarith⟩
  exact hnear.step ctx.unitRoundoff_pos.le hctx.unitRoundoff_le_one (by linarith) herror

theorem approximates_div (h : ctx.Approximates m a y) (hd : 0 < d)
    (hle : ∃ c e, a = finite false c e ∧ (d : ℚ) ≤ scaled c e) :
    ctx.Approximates (m + 1) (ctx.div a (ofNat d)) (y / d) := by
  obtain ⟨c, e, rfl, hce, hone, hnear⟩ := h
  obtain ⟨_, _, heq, hle⟩ := hle
  cases heq
  have hdQ : (1 : ℚ) ≤ d := by exact_mod_cast hd
  have hquotient : 1 ≤ scaled c e / d := (one_le_div (by linarith)).2 hle
  have hdiv := exists_div (s := false) (t := false) (e := e) (f := 0) hctx.wide
    hctx.moderate.min_nonpos (ne_zero_of_one_le hone) hd.ne'
  rw [scaled_zero, zpow_zero] at hdiv
  obtain ⟨q, g, hdiv, hq, herror⟩ :=
    hdiv hquotient ((div_le_self (by linarith) hdQ).trans_lt hce.scaled_lt)
  replace hdiv : ctx.div (finite false c e) (ofNat d) = finite false q g := hdiv
  have hkeeps := keeps_div hctx.moderate (finite false c e) (ofNat d)
  rw [hdiv] at hkeeps ⊢
  refine ⟨q, g, rfl, hkeeps, hq, ?_⟩
  rw [div_eq_mul_inv] at herror ⊢
  exact hnear.step ctx.unitRoundoff_pos.le hctx.unitRoundoff_le_one (by positivity) herror

end Steps

/-! ## The loops -/

/-- No product of a loop reaches the bound: neither that of the first partial result with the first
factor, nor any other of the first `count` ones. -/
def StaysBelow (ctx : Context) (partials : Nat → Decimal) (factors : Nat → Nat) (count : Nat) :
    Prop :=
  ∀ j < count, ctx.ProductFits (partials j) (factors j)

section Loops

variable (hctx : ctx.Counts) {partials : Nat → Decimal} {factors v : Nat → Nat} {count : Nat}
  (hzero : partials 0 = .one) (hone : v 0 = 1)
include hctx hzero hone

omit hzero hone in
theorem approximates_one : ctx.Approximates 0 .one 1 := by
  refine ⟨1, 0, rfl, keeps_signedOne hctx.moderate false, ?_, ?_⟩ <;>
    simp [Near, scaled]

theorem approximates_products
    (hpartials : ∀ j, partials (j + 1) = ctx.mul (partials j) (ofNat (factors j)))
    (hsteps : ∀ j < count, v (j + 1) = v j * factors j)
    (hpos : ∀ j < count, 0 < factors j) (hbelow : ctx.StaysBelow partials factors count) :
    ctx.Approximates count (partials count) (v count) := by
  induction count with
  | zero =>
    rw [hzero, hone, Nat.cast_one]
    exact approximates_one hctx
  | succ count ih =>
    have hbefore := ih (fun j hj => hsteps j (by omega)) (fun j hj => hpos j (by omega))
      (fun j hj => hbelow j (by omega))
    have hproduct := (approximates_mul hctx hbefore (hpos count (by omega))
      (hbelow count (by omega))).1
    rw [hpartials, hsteps count (by omega), Nat.cast_mul]
    exact hproduct

/-- A loop that multiplies and divides. Each factor is twice the divisor at least, so that the
quotients do not fall below one. -/
theorem approximates_quotients
    (hpartials : ∀ j, partials (j + 1) =
      ctx.div (ctx.mul (partials j) (ofNat (factors j))) (ofNat (j + 1)))
    (hsteps : ∀ j < count, v (j + 1) * (j + 1) = v j * factors j)
    (htwice : ∀ j < count, 2 * (j + 1) ≤ factors j)
    (hbelow : ctx.StaysBelow partials factors count) :
    ctx.Approximates (2 * count) (partials count) (v count) := by
  induction count with
  | zero =>
    rw [hzero, hone, Nat.cast_one]
    exact approximates_one hctx
  | succ count ih =>
    have hbefore := ih (fun j hj => hsteps j (by omega)) (fun j hj => htwice j (by omega))
      (fun j hj => hbelow j (by omega))
    have hfactor := htwice count (by omega)
    obtain ⟨hproduct, c, e, hmul, hhalf⟩ :=
      approximates_mul hctx hbefore (by omega) (hbelow count (by omega))
    have hdivisor : ((count + 1 : Nat) : ℚ) ≤ scaled c e := by
      have : ((2 * (count + 1) : Nat) : ℚ) ≤ factors count := by exact_mod_cast hfactor
      push_cast at this ⊢
      linarith
    have hquotient := approximates_div hctx hproduct (Nat.succ_pos count) ⟨c, e, hmul, hdivisor⟩
    have hstep : (v (count + 1) : ℚ) * (count + 1 : Nat) = v count * factors count := by
      exact_mod_cast hsteps count (by omega)
    have hpos : ((count + 1 : Nat) : ℚ) ≠ 0 := by exact_mod_cast Nat.succ_ne_zero count
    rw [← hstep, mul_div_cancel_right₀ _ hpos] at hquotient
    rw [hpartials]
    exact hquotient

end Loops

variable {n r : Nat}

theorem factorialFrom_succ (ctx : Context) (i count : Nat) (a : Decimal) :
    ctx.factorialFrom i (count + 1) a =
      ctx.mul (ctx.factorialFrom i count a) (ofNat (i + count)) := by
  induction count generalizing i a with
  | zero => rfl
  | succ count ih =>
    rw [factorialFrom, ih, show i + 1 + count = i + (count + 1) by omega]
    rfl

theorem arrangeFrom_succ (ctx : Context) (n i count : Nat) (a : Decimal) :
    ctx.arrangeFrom n i (count + 1) a =
      ctx.mul (ctx.arrangeFrom n i count a) (ofNat (n - (i + count))) := by
  induction count generalizing i a with
  | zero => rfl
  | succ count ih =>
    rw [arrangeFrom, ih, show i + 1 + count = i + (count + 1) by omega]
    rfl

theorem chooseFrom_succ (ctx : Context) (n k i count : Nat) (a : Decimal) :
    ctx.chooseFrom n k i (count + 1) a =
      ctx.div (ctx.mul (ctx.chooseFrom n k i count a) (ofNat (n - k + (i + count))))
        (ofNat (i + count)) := by
  induction count generalizing i a with
  | zero => rfl
  | succ count ih =>
    rw [chooseFrom, ih, show i + 1 + count = i + (count + 1) by omega]
    rfl

section Counts

variable (hctx : ctx.Counts)
include hctx

theorem approximates_factorial
    (h : ctx.StaysBelow (fun j => ctx.factorialFrom 2 j .one) (· + 2) n) :
    ctx.Approximates n (ctx.factorialFrom 2 n .one) (n + 1).factorial := by
  refine approximates_products hctx (v := fun j => (j + 1).factorial) rfl rfl (fun j => ?_)
    (fun j _ => ?_) (fun j _ => Nat.succ_pos _) h
  · rw [factorialFrom_succ, Nat.add_comm]
  · rw [Nat.factorial_succ (j + 1), Nat.mul_comm]

theorem approximates_arrange (hle : r ≤ n)
    (h : ctx.StaysBelow (fun j => ctx.arrangeFrom n 0 j .one) (n - ·) r) :
    ctx.Approximates r (ctx.arrangeFrom n 0 r .one) (n.descFactorial r) := by
  refine approximates_products hctx (v := n.descFactorial) rfl rfl (fun j => ?_)
    (fun j _ => ?_) (fun j hj => by omega) h
  · rw [arrangeFrom_succ, Nat.zero_add]
  · rw [Nat.descFactorial_succ, Nat.mul_comm]

theorem approximates_choose (hle : 2 * k ≤ n)
    (h : ctx.StaysBelow (fun j => ctx.chooseFrom n k 1 j .one) (n - k + 1 + ·) k) :
    ctx.Approximates (2 * k) (ctx.chooseFrom n k 1 k .one) (n.choose k) := by
  have hloop := approximates_quotients hctx (v := fun j => (n - k + j).choose j) rfl
    (Nat.choose_zero_right _) (fun j => ?_) (fun j _ => ?_) (fun j hj => ?_) h
  · rwa [show n - k + k = n by omega] at hloop
  · rw [chooseFrom_succ, Nat.add_comm 1 j, Nat.add_assoc (n - k), Nat.add_comm 1 j]
  · rw [Nat.mul_comm ((n - k + j).choose j), Nat.add_right_comm]
    exact (Nat.add_one_mul_choose_eq (n - k + j) j).symm
  · omega

end Counts

/-! ## The counts -/

/-- A finite decimal whose quotient by a number is what `m` rounded operations may make of one. -/
def IsAccurate (ctx : Context) (m : Nat) (a : Decimal) (y : ℚ) : Prop :=
  ∃ x, a.toRat? = some x ∧ (1 - ctx.unitRoundoff) ^ m ≤ x / y ∧ x / y ≤ (1 + ctx.unitRoundoff) ^ m

theorem Approximates.isAccurate (h : ctx.Approximates m a y) (hy : 0 < y) :
    ctx.IsAccurate m a y := by
  obtain ⟨c, e, rfl, -, -, hlow, hhigh⟩ := h
  refine ⟨scaled c e, rfl, ?_, ?_⟩
  · rwa [le_div_iff₀ hy, mul_comm]
  · rwa [div_le_iff₀ hy, mul_comm]

theorem counts_context (desk : Desk) : desk.context.Counts :=
  ⟨desk.isWide_context, desk.isModerate_context⟩

/-- **The accuracy of decimal counts.** Where no product reaches the bound, a factorial of `n` is off
by `n - 1` rounded operations, a number of arrangements by `r`, and a number of combinations by two
for each of its factors. Impossible counts are zero. -/
theorem counts_accuracy (desk : Desk) (n r : Int) :
    let ctx := desk.context
    let k := (min r (n - r)).toNat
    (0 ≤ n → ctx.StaysBelow (fun j => ctx.factorialFrom 2 j .one) (fun j => j + 2) (n - 1).toNat →
      ctx.IsAccurate (n - 1).toNat (ctx.factorial n) n.toNat.factorial) ∧
    (0 ≤ r → r ≤ n →
      ctx.StaysBelow (fun j => ctx.arrangeFrom n.toNat 0 j .one) (fun j => n.toNat - j) r.toNat →
      ctx.IsAccurate r.toNat (ctx.arrange n r) (n.toNat.factorial / (n - r).toNat.factorial)) ∧
    (0 ≤ r → r ≤ n →
      ctx.StaysBelow (fun j => ctx.chooseFrom n.toNat k 1 j .one) (fun j => n.toNat - k + 1 + j) k →
      ctx.IsAccurate (2 * k) (ctx.choose n r) (n.toNat.choose r.toNat)) ∧
    (¬ (0 ≤ r ∧ r ≤ n) → ctx.arrange n r = .zero ∧ ctx.choose n r = .zero) := by
  intro ctx k
  have hctx := counts_context desk
  refine ⟨fun hn h => ?_, fun hr hle h => ?_, fun hr hle h => ?_, fun h => ?_⟩
  · have hfactorial : ((n - 1).toNat + 1).factorial = n.toNat.factorial := by
      rcases Int.le_iff_lt_or_eq.1 hn with hpos | rfl
      · congr 1
        omega
      · rfl
    have happrox := approximates_factorial hctx h
    rw [hfactorial] at happrox
    exact happrox.isAccurate (by exact_mod_cast Nat.factorial_pos _)
  · have hrest : (n - r).toNat = n.toNat - r.toNat := by omega
    have hquotient : (n.toNat.factorial : ℚ) / (n - r).toNat.factorial =
        n.toNat.descFactorial r.toNat := by
      have hmul := Nat.factorial_mul_descFactorial (show r.toNat ≤ n.toNat by omega)
      rw [hrest, ← hmul, Nat.cast_mul, mul_div_cancel_left₀]
      exact_mod_cast Nat.factorial_ne_zero _
    have happrox := approximates_arrange hctx (show r.toNat ≤ n.toNat by omega) h
    rw [hquotient, arrange, if_pos (Counting.isPossible_iff.2 ⟨hr, hle⟩)]
    exact happrox.isAccurate (by exact_mod_cast Nat.descFactorial_pos.2 (by omega))
  · have happrox := approximates_choose hctx (show 2 * k ≤ n.toNat by omega) h
    have hsymm : n.toNat.choose k = n.toNat.choose r.toNat := by
      rcases Int.le_total r (n - r) with hmin | hmin
      · congr 1
        omega
      · rw [show k = n.toNat - r.toNat by omega, Nat.choose_symm (by omega)]
    rw [hsymm] at happrox
    rw [choose, if_pos (Counting.isPossible_iff.2 ⟨hr, hle⟩)]
    exact happrox.isAccurate (by exact_mod_cast Nat.choose_pos (by omega))
  · have himpossible := Counting.isPossible_iff.not.2 h
    exact ⟨if_neg himpossible, if_neg himpossible⟩

theorem toRat?_lt_of_isBelowPower {x : ℚ} {b : Int} (hx : a.toRat? = some x)
    (h : a.isBelowPower b) : x < 10 ^ b := by
  cases a with
  | finite s c e =>
    have hscaled : scaled c e < 10 ^ b := by
      by_cases hc : c = 0
      · rw [hc, scaled, Nat.cast_zero, zero_mul]
        exact ten_zpow_pos b
      · have hlead : leadingExponent c e < b := by simpa [isBelowPower, hc] using h
        exact (scaled_lt_zpow c e).trans_le (zpow_le_zpow_right₀ (by norm_num) hlead)
    have hnonneg : 0 ≤ scaled c e := mul_nonneg (Nat.cast_nonneg c) (ten_zpow_pos e).le
    cases Option.some.inj hx
    split <;> linarith
  | _ => cases hx

theorem staysBelow_of_isBelowPower {partials : Nat → Decimal} {factors : Nat → Nat}
    {count b l : Nat} (hmax : (b + l : Int) < ctx.maxExponent)
    (h : ∀ j < count, (partials j).isBelowPower b ∧ factors j ≤ 10 ^ l) :
    ctx.StaysBelow partials factors count := by
  intro j hj x hx
  obtain ⟨hpartial, hfactor⟩ := h j hj
  have hfactorQ : (factors j : ℚ) ≤ 10 ^ (l : Int) := by
    rw [zpow_natCast]
    exact_mod_cast hfactor
  calc x * factors j
      ≤ 10 ^ (b : Int) * 10 ^ (l : Int) := mul_le_mul (toRat?_lt_of_isBelowPower hx hpartial).le
        hfactorQ (Nat.cast_nonneg _) (ten_zpow_pos _).le
    _ = 10 ^ (b + l : Int) := (zpow_add₀ (by norm_num) _ _).symm
    _ < 10 ^ ctx.maxExponent := zpow_lt_zpow_right₀ (by norm_num) hmax
    _ ≤ ctx.overflowBound := ctx.le_overflowBound

/-- Eight digits, where all three counts are rounded on the way. -/
theorem counts_accuracy_forty :
    let ctx := ({ precision := { digits := 8 } } : Desk).context
    (ctx.StaysBelow (fun j => ctx.factorialFrom 2 j .one) (fun j => j + 2) 39 ∧
      ctx.IsAccurate 39 (ctx.factorial 40) (Nat.factorial 40)) ∧
    (ctx.StaysBelow (fun j => ctx.arrangeFrom 40 0 j .one) (fun j => 40 - j) 18 ∧
      ctx.IsAccurate 18 (ctx.arrange 40 18) (Nat.factorial 40 / Nat.factorial 22)) ∧
    (ctx.StaysBelow (fun j => ctx.chooseFrom 40 18 1 j .one) (fun j => 40 - 18 + 1 + j) 18 ∧
      ctx.IsAccurate 36 (ctx.choose 40 18) (Nat.choose 40 18)) := by
  intro ctx
  obtain ⟨hfactorial, harrange, hchoose, -⟩ :=
    counts_accuracy { precision := { digits := 8 } } 40 18
  have hmax : ((50 : Nat) + (2 : Nat) : Int) < ctx.maxExponent := by decide
  have hfactorialBelow : ctx.StaysBelow (fun j => ctx.factorialFrom 2 j .one) (fun j => j + 2) 39 :=
    staysBelow_of_isBelowPower hmax (by decide +kernel)
  have harrangeBelow : ctx.StaysBelow (fun j => ctx.arrangeFrom 40 0 j .one) (fun j => 40 - j) 18 :=
    staysBelow_of_isBelowPower hmax (by decide +kernel)
  have hchooseBelow :
      ctx.StaysBelow (fun j => ctx.chooseFrom 40 18 1 j .one) (fun j => 40 - 18 + 1 + j) 18 :=
    staysBelow_of_isBelowPower hmax (by decide +kernel)
  exact ⟨⟨hfactorialBelow, hfactorial (by decide) hfactorialBelow⟩,
    ⟨harrangeBelow, harrange (by decide) (by decide) harrangeBelow⟩,
    ⟨hchooseBelow, hchoose (by decide) (by decide) hchooseBelow⟩⟩

end DeskCalculator.Context
