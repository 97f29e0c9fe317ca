import DeskCalculator.Proofs.Decimal.Scaled
import DeskCalculator.Proofs.Double.Overflow
import Mathlib.Tactic.FieldSimp

/-!
# The nearest double

`Double.ofRatio` gives a canonical double: 53 binary digits, unless the exponent is the smallest one
(`isCanonical_ofRatio`). It depends on the quotient only (`ofRatio_congr`), and a quotient that lies
within a relative distance of `2 ^ -54` of a canonical double is rounded to it (`ofRatio_of_near`):
this is less than half a unit of its last place, and less than a quarter at a power of two, below
which the units are half as large.
-/

namespace DeskCalculator

/-! ## Logarithms rounded down -/

section FloorLog

variable {b n d i j : Nat}

theorem zpow_eq_div (hb : 0 < b) (k : Int) :
    (b : ℚ) ^ k = (b : ℚ) ^ k.toNat / (b : ℚ) ^ (-k).toNat := by
  have hne : (b : ℚ) ≠ 0 := by positivity
  rw [← zpow_natCast, ← zpow_natCast, ← zpow_sub₀ hne]
  congr 1
  omega

theorem mul_pow_le_mul_pow_iff (hb : 0 < b) (hd : d ≠ 0) (k : Int) :
    d * b ^ k.toNat ≤ n * b ^ (-k).toNat ↔ (b : ℚ) ^ k ≤ n / d := by
  have hd : (0 : ℚ) < d := by exact_mod_cast Nat.pos_of_ne_zero hd
  have hpow : (0 : ℚ) < (b : ℚ) ^ (-k).toNat := by positivity
  rw [zpow_eq_div hb, div_le_div_iff₀ hpow hd, mul_comm _ (d : ℚ)]
  norm_cast

theorem floorLog_bounds (hb : 1 < b) (hn : b ^ i ≤ n ∧ n < b ^ (i + 1))
    (hd : b ^ j ≤ d ∧ d < b ^ (j + 1)) {k : Int}
    (hk : k = if d * b ^ ((i : Int) - j).toNat ≤ n * b ^ (-((i : Int) - j)).toNat
      then (i : Int) - j else (i : Int) - j - 1) :
    (b : ℚ) ^ k ≤ n / d ∧ (n : ℚ) / d < (b : ℚ) ^ (k + 1) := by
  have hpos : (0 : ℚ) < b := by exact_mod_cast Nat.zero_lt_of_lt hb
  have hb' : (1 : ℚ) ≤ b := by exact_mod_cast Nat.le_of_lt hb
  have hdne : d ≠ 0 := by
    have : 0 < b ^ j := Nat.pow_pos (Nat.zero_lt_of_lt hb)
    omega
  have hd0 : (0 : ℚ) < d := by exact_mod_cast Nat.pos_of_ne_zero hdne
  have hn1 : (b : ℚ) ^ (i : Int) ≤ n := by exact_mod_cast hn.1
  have hn2 : (n : ℚ) < (b : ℚ) ^ ((i : Int) + 1) := by exact_mod_cast hn.2
  have hd1 : (b : ℚ) ^ (j : Int) ≤ d := by exact_mod_cast hd.1
  have hd2 : (d : ℚ) < (b : ℚ) ^ ((j : Int) + 1) := by exact_mod_cast hd.2
  split at hk
  · rename_i hle
    subst hk
    refine ⟨(mul_pow_le_mul_pow_iff (Nat.zero_lt_of_lt hb) hdne _).1 hle, ?_⟩
    rw [div_lt_iff₀ hd0]
    calc (n : ℚ) < (b : ℚ) ^ ((i : Int) + 1) := hn2
      _ = (b : ℚ) ^ ((i : Int) - j + 1) * (b : ℚ) ^ (j : Int) := by
        rw [← zpow_add₀ hpos.ne']
        congr 1
        omega
      _ ≤ (b : ℚ) ^ ((i : Int) - j + 1) * d := by gcongr
  · rename_i hlt
    subst hk
    refine ⟨?_, ?_⟩
    · rw [le_div_iff₀ hd0]
      calc (b : ℚ) ^ ((i : Int) - j - 1) * d
          ≤ (b : ℚ) ^ ((i : Int) - j - 1) * (b : ℚ) ^ ((j : Int) + 1) := by gcongr
        _ = (b : ℚ) ^ (i : Int) := by
          rw [← zpow_add₀ hpos.ne']
          congr 1
          omega
        _ ≤ n := hn1
    · rw [Int.sub_add_cancel, ← not_le]
      exact fun h => hlt ((mul_pow_le_mul_pow_iff (Nat.zero_lt_of_lt hb) hdne _).2 h)

end FloorLog

namespace Double

variable {n d m : Nat} {q : Int} {s : Bool}

theorem floorLog2_bounds (hn : n ≠ 0) (hd : d ≠ 0) :
    (2 : ℚ) ^ floorLog2 n d ≤ n / d ∧ (n : ℚ) / d < (2 : ℚ) ^ (floorLog2 n d + 1) :=
  floorLog_bounds (b := 2) (by decide) ⟨Nat.log2_self_le hn, Nat.lt_log2_self⟩
    ⟨Nat.log2_self_le hd, Nat.lt_log2_self⟩ rfl

theorem floorLog2_eq_of_bounds (hn : n ≠ 0) (hd : d ≠ 0) {k : Int} (hle : (2 : ℚ) ^ k ≤ n / d)
    (hlt : (n : ℚ) / d < 2 ^ (k + 1)) : floorLog2 n d = k := by
  obtain ⟨hle', hlt'⟩ := floorLog2_bounds hn hd
  have h₁ := (zpow_lt_zpow_iff_right₀ (by norm_num : (1 : ℚ) < 2)).1 (hle.trans_lt hlt')
  have h₂ := (zpow_lt_zpow_iff_right₀ (by norm_num : (1 : ℚ) < 2)).1 (hle'.trans_lt hlt)
  omega

end Double

/-! ## Quotients rounded to a whole number -/

namespace Rounding

variable {mode : Rounding} {n d m : Nat}

theorem abs_divide_sub_le (mode : Rounding) (hd : d ≠ 0) (n : Nat) :
    |(n : ℚ) / d - mode.divide n d| ≤ 1 / 2 := by
  have hd0 : (0 : ℚ) < d := by exact_mod_cast Nat.pos_of_ne_zero hd
  have hn : (n : ℚ) = (n / d : Nat) * d + (n % d : Nat) := by exact_mod_cast (Nat.div_add_mod' n d).symm
  have hquotient : (n : ℚ) / d = (n / d : Nat) + (n % d : Nat) / d := by
    rw [div_eq_iff hd0.ne', add_mul, div_mul_cancel₀ _ hd0.ne']
    exact hn
  have hmod : ((n % d : Nat) : ℚ) / d < 1 := by
    rw [div_lt_one hd0]
    exact_mod_cast Nat.mod_lt n (Nat.pos_of_ne_zero hd)
  have hnonneg : (0 : ℚ) ≤ ((n % d : Nat) : ℚ) / d := by positivity
  rcases divide_cases mode n d with ⟨hq, hhalf⟩ | ⟨hq, hhalf⟩
  · have hhalf : ((n % d : Nat) : ℚ) / d ≤ 1 / 2 := by
      rw [div_le_iff₀ hd0]
      have : (2 : ℚ) * (n % d : Nat) ≤ d := by exact_mod_cast hhalf
      linarith
    rw [hq, hquotient, abs_le]
    constructor <;> linarith
  · have hhalf : (1 : ℚ) / 2 ≤ ((n % d : Nat) : ℚ) / d := by
      rw [le_div_iff₀ hd0]
      have : (d : ℚ) ≤ 2 * (n % d : Nat) := by exact_mod_cast hhalf
      linarith
    rw [hq, hquotient, abs_le]
    push_cast
    constructor <;> linarith

theorem divide_eq_of_near (mode : Rounding) (hd : d ≠ 0) (h : |(n : ℚ) / d - m| < 1 / 2) :
    mode.divide n d = m := by
  have hle := abs_le.1 (abs_divide_sub_le mode hd n)
  have hlt := abs_lt.1 h
  have h₁ : ((mode.divide n d : Nat) : ℚ) < m + 1 := by linarith
  have h₂ : (m : ℚ) < mode.divide n d + 1 := by linarith
  norm_cast at h₁ h₂
  omega

theorem divide_mul_mul (mode : Rounding) {t : Nat} (ht : 0 < t) (n d : Nat) :
    mode.divide (n * t) (d * t) = mode.divide n d := by
  have hlt : ∀ a b : Nat, a * t < b * t ↔ a < b := fun a b => Nat.mul_lt_mul_right ht
  unfold divide
  simp only [Nat.mul_div_mul_right _ _ ht, Nat.mul_mod_mul_right, ← Nat.mul_assoc, hlt]

end Rounding

namespace Double

variable {n d m : Nat} {q : Int} {s : Bool}

def magnitude (m : Nat) (q : Int) : ℚ := m * 2 ^ q

/-- A mantissa of 53 binary digits, or fewer at the smallest exponent. -/
structure IsNormal (m : Nat) (q : Int) : Prop where
  lt : m < 2 ^ 53
  min_le : minExponent ≤ q
  le_max : q ≤ maxExponent
  le_or_eq : 2 ^ 52 ≤ m ∨ q = minExponent

/-- A double as `ofRatio` gives it. -/
def IsCanonical : Double → Prop
  | finite _ m q => IsNormal m q
  | _ => True

/-! ## Rounding a quotient to a double -/

theorem isCanonical_signedZero (s : Bool) : (signedZero s).IsCanonical :=
  ⟨by decide, Int.le_refl _, by decide, .inr rfl⟩

def lastPlace (n d : Nat) : Int := max (floorLog2 n d - 52) minExponent

theorem ratio_eq_div (n d : Nat) (q : Int) :
    ((n * 2 ^ (-q).toNat : Nat) : ℚ) / (d * 2 ^ q.toNat : Nat) = (n : ℚ) / d / 2 ^ q := by
  have h := zpow_eq_div (b := 2) (by decide) q
  push_cast at h ⊢
  rw [h]
  field_simp

/-- The quotient rounded to its last place. -/
def lastDigits (n d : Nat) : Nat :=
  Rounding.halfEven.divide (n * 2 ^ (-lastPlace n d).toNat) (d * 2 ^ (lastPlace n d).toNat)

/-- A mantissa that rounding has carried into one digit more is shifted back. -/
theorem ofRatio_eq (hn : n ≠ 0) (s : Bool) (d : Nat) :
    ofRatio s n d =
      if lastDigits n d = 2 ^ 53 then
        if maxExponent < lastPlace n d + 1 then infinite s
        else finite s (2 ^ 52) (lastPlace n d + 1)
      else if lastDigits n d = 0 then signedZero s
      else if maxExponent < lastPlace n d then infinite s
      else finite s (lastDigits n d) (lastPlace n d) := by
  unfold ofRatio
  rw [if_neg hn]
  by_cases hcarry : lastDigits n d = 2 ^ 53
  · rw [if_pos hcarry]
    unfold lastDigits lastPlace at hcarry
    simp only [Nat.pow_eq, hcarry, if_true]
    exact if_neg (by decide)
  · rw [if_neg hcarry]
    unfold lastDigits lastPlace at hcarry ⊢
    simp only [Nat.pow_eq, hcarry, if_false]

theorem abs_lastDigits_sub_le (hd : d ≠ 0) (n : Nat) :
    |(n : ℚ) / d / 2 ^ lastPlace n d - lastDigits n d| ≤ 1 / 2 := by
  rw [← ratio_eq_div]
  exact Rounding.abs_divide_sub_le _ (Nat.mul_ne_zero hd (by positivity)) _

theorem lastDigits_eq_of_near (hd : d ≠ 0)
    (h : |(n : ℚ) / d / 2 ^ lastPlace n d - m| < 1 / 2) : lastDigits n d = m := by
  rw [← ratio_eq_div] at h
  exact Rounding.divide_eq_of_near _ (Nat.mul_ne_zero hd (by positivity)) h

theorem ratio_lt (hn : n ≠ 0) (hd : d ≠ 0) : (n : ℚ) / d / 2 ^ lastPlace n d < 2 ^ 53 := by
  rw [div_lt_iff₀ (by positivity), ← zpow_natCast, ← zpow_add₀ (by norm_num)]
  refine (floorLog2_bounds hn hd).2.trans_le (zpow_le_zpow_right₀ (by norm_num) ?_)
  unfold lastPlace
  push_cast
  omega

theorem le_ratio (hn : n ≠ 0) (hd : d ≠ 0) (h : lastPlace n d ≠ minExponent) :
    2 ^ 52 ≤ (n : ℚ) / d / 2 ^ lastPlace n d := by
  rw [le_div_iff₀ (by positivity), ← zpow_natCast, ← zpow_add₀ (by norm_num)]
  refine le_trans (zpow_le_zpow_right₀ (by norm_num) ?_) (floorLog2_bounds hn hd).1
  unfold lastPlace at h ⊢
  push_cast
  omega

theorem isCanonical_ofRatio (s : Bool) (n : Nat) (hd : d ≠ 0) : (ofRatio s n d).IsCanonical := by
  by_cases hn : n = 0
  · rw [ofRatio, if_pos hn]
    exact isCanonical_signedZero s
  have habs := abs_le.1 (abs_lastDigits_sub_le hd n)
  have hlt : ((lastDigits n d : Nat) : ℚ) < 2 ^ 53 + 1 := by linarith [ratio_lt hn hd]
  have hlt : lastDigits n d < 2 ^ 53 + 1 := by exact_mod_cast hlt
  have hmin : minExponent ≤ lastPlace n d := le_max_right _ _
  have hnormal : 2 ^ 52 ≤ lastDigits n d ∨ lastPlace n d = minExponent := by
    by_cases hplace : lastPlace n d = minExponent
    · exact .inr hplace
    · have hle : (2 : ℚ) ^ 52 < lastDigits n d + 1 := by linarith [le_ratio hn hd hplace]
      have hle : 2 ^ 52 < lastDigits n d + 1 := by exact_mod_cast hle
      exact .inl (by omega)
  rw [ofRatio_eq hn]
  split
  · split
    · trivial
    · exact ⟨by decide, by omega, by omega, .inl (Nat.le_refl _)⟩
  · split
    · exact isCanonical_signedZero s
    · split
      · trivial
      · exact ⟨by omega, hmin, by omega, hnormal⟩

/-! ## The quotient alone counts -/

theorem ofRatio_mul_mul {t : Nat} (ht : 0 < t) (s : Bool) (n : Nat) (hd : d ≠ 0) :
    ofRatio s (n * t) (d * t) = ofRatio s n d := by
  by_cases hn : n = 0
  · simp [ofRatio, hn]
  have ht0 : (t : ℚ) ≠ 0 := by exact_mod_cast ht.ne'
  have hratio : ((n * t : Nat) : ℚ) / (d * t : Nat) = n / d := by
    push_cast
    exact mul_div_mul_right _ _ ht0
  have hlog : floorLog2 (n * t) (d * t) = floorLog2 n d := by
    obtain ⟨hle, hlt⟩ := floorLog2_bounds hn hd
    exact floorLog2_eq_of_bounds (Nat.mul_ne_zero hn ht.ne') (Nat.mul_ne_zero hd ht.ne')
      (hratio ▸ hle) (hratio ▸ hlt)
  have hdigits : lastDigits (n * t) (d * t) = lastDigits n d := by
    unfold lastDigits lastPlace
    rw [hlog, Nat.mul_right_comm n, Nat.mul_right_comm d]
    exact Rounding.divide_mul_mul _ ht _ _
  rw [ofRatio_eq hn, ofRatio_eq (Nat.mul_ne_zero hn ht.ne'), hdigits]
  unfold lastPlace
  rw [hlog]

theorem ofRatio_congr {n' d' : Nat} (hd : d ≠ 0) (hd' : d' ≠ 0)
    (h : (n : ℚ) / d = (n' : ℚ) / d') (s : Bool) : ofRatio s n d = ofRatio s n' d' := by
  have hcross : n * d' = n' * d := by
    have hd0 : (d : ℚ) ≠ 0 := by exact_mod_cast hd
    have hd0' : (d' : ℚ) ≠ 0 := by exact_mod_cast hd'
    rw [div_eq_div_iff hd0 hd0'] at h
    exact_mod_cast h
  rw [← ofRatio_mul_mul (Nat.pos_of_ne_zero hd') s n hd, hcross, Nat.mul_comm d d',
    ofRatio_mul_mul (Nat.pos_of_ne_zero hd) s n' hd']

/-! ## Quotients close to a double -/

theorem lastPlace_eq_of_bounds (hn : n ≠ 0) (hd : d ≠ 0) (hq : minExponent ≤ q)
    (hle : 2 ^ 52 ≤ (n : ℚ) / d / 2 ^ q) (hlt : (n : ℚ) / d / 2 ^ q < 2 ^ 53) :
    lastPlace n d = q := by
  have hpos : (0 : ℚ) < 2 ^ q := by positivity
  rw [le_div_iff₀ hpos, ← zpow_natCast, ← zpow_add₀ (by norm_num)] at hle
  rw [div_lt_iff₀ hpos, ← zpow_natCast, ← zpow_add₀ (by norm_num)] at hlt
  have hlog : floorLog2 n d = 52 + q :=
    floorLog2_eq_of_bounds hn hd (by simpa using hle) (hlt.trans_eq (by congr 1; push_cast; omega))
  unfold lastPlace
  omega

theorem lastPlace_eq_min (hn : n ≠ 0) (hd : d ≠ 0)
    (hlt : (n : ℚ) / d / 2 ^ minExponent < 2 ^ 52) : lastPlace n d = minExponent := by
  rw [div_lt_iff₀ (by positivity), ← zpow_natCast, ← zpow_add₀ (by norm_num)] at hlt
  have hlog := (floorLog2_bounds hn hd).1.trans_lt hlt
  rw [zpow_lt_zpow_iff_right₀ (by norm_num)] at hlog
  unfold lastPlace
  push_cast at hlog
  omega

/-- A mantissa that rounding gives exactly. -/
theorem ofRatio_of_lastPlace (s : Bool) (hm : IsNormal m q) (hm0 : m ≠ 0) (hn : n ≠ 0) (hd : d ≠ 0)
    (hplace : lastPlace n d = q) (h : |(n : ℚ) / d / 2 ^ q - m| < 1 / 2) :
    ofRatio s n d = finite s m q := by
  have hdigits : lastDigits n d = m := lastDigits_eq_of_near hd (hplace ▸ h)
  have hlt := hm.lt
  have hmax := hm.le_max
  rw [ofRatio_eq hn, hdigits, hplace, if_neg (by omega), if_neg hm0, if_neg (by omega)]

/-- Just below a power of two the last place is one binary place lower, and rounding carries. -/
theorem ofRatio_of_carry (s : Bool) (hm : IsNormal (2 ^ 52) q) (hmin : q ≠ minExponent) (hn : n ≠ 0)
    (hd : d ≠ 0) (hlow : (2 : ℚ) ^ 52 - 1 / 4 < (n : ℚ) / d / 2 ^ q)
    (hhigh : (n : ℚ) / d / 2 ^ q < 2 ^ 52) : ofRatio s n d = finite s (2 ^ 52) q := by
  have hle := hm.min_le
  have hmax := hm.le_max
  have hhalf : (n : ℚ) / d / 2 ^ (q - 1) = (n : ℚ) / d / 2 ^ q * 2 := by
    rw [zpow_sub₀ (by norm_num), zpow_one, div_div_eq_mul_div, mul_div_right_comm]
  have hplace : lastPlace n d = q - 1 := by
    refine lastPlace_eq_of_bounds hn hd (by omega) ?_ ?_ <;> rw [hhalf] <;> linarith
  have hdigits : lastDigits n d = 2 ^ 53 := by
    refine lastDigits_eq_of_near hd ?_
    rw [hplace, hhalf, abs_lt]
    push_cast
    constructor <;> linarith
  rw [ofRatio_eq hn, hdigits, hplace, if_pos rfl, Int.sub_add_cancel, if_neg (by omega)]

/-- **A quotient close to a double** is rounded to it. -/
theorem ofRatio_of_near (s : Bool) (hm : IsNormal m q) (hm0 : m ≠ 0) (hd : d ≠ 0)
    (h : |(n : ℚ) / d - magnitude m q| * 2 ^ 54 < magnitude m q) :
    ofRatio s n d = finite s m q := by
  have hq : (0 : ℚ) < 2 ^ q := by positivity
  -- the quotient in units of the last place of the double
  generalize hu : (n : ℚ) / d / 2 ^ q = u
  have hratio : (n : ℚ) / d = u * 2 ^ q := by rw [← hu, div_mul_cancel₀ _ hq.ne']
  have hnear : |u - m| * 2 ^ 54 < m := by
    rw [hratio, magnitude, ← sub_mul, abs_mul, abs_of_pos hq, mul_right_comm] at h
    exact lt_of_mul_lt_mul_right h hq.le
  have hm53 : (m : ℚ) + 1 ≤ 2 ^ 53 := by exact_mod_cast hm.lt
  have hm1 : (1 : ℚ) ≤ m := by exact_mod_cast Nat.one_le_iff_ne_zero.2 hm0
  obtain ⟨hlow, hhigh⟩ : m - (m : ℚ) / 2 ^ 54 < u ∧ u < m + (m : ℚ) / 2 ^ 54 := by
    rw [← lt_div_iff₀ (by positivity)] at hnear
    constructor <;> linarith [(abs_lt.1 hnear).1, (abs_lt.1 hnear).2]
  have hhalf : |u - m| < 1 / 2 := by
    rw [abs_lt]
    constructor <;> linarith
  have hn : n ≠ 0 := by
    rintro rfl
    rw [Nat.cast_zero, zero_div, zero_div] at hu
    linarith
  by_cases hbig : 2 ^ 52 ≤ u
  · refine ofRatio_of_lastPlace s hm hm0 hn hd ?_ (hu ▸ hhalf)
    exact lastPlace_eq_of_bounds hn hd hm.min_le (hu ▸ hbig) (by rw [hu]; linarith)
  · by_cases hmin : q = minExponent
    · refine ofRatio_of_lastPlace s hm hm0 hn hd ?_ (hu ▸ hhalf)
      subst hmin
      exact lastPlace_eq_min hn hd (by rw [hu]; linarith)
    · -- only the power of two itself is that close to what lies below it
      have hm52 : m = 2 ^ 52 := by
        have hle : 2 ^ 52 ≤ m := hm.le_or_eq.resolve_right hmin
        have hlt : (m : ℚ) < 2 ^ 52 + 1 := by linarith
        have hlt : m < 2 ^ 52 + 1 := by exact_mod_cast hlt
        omega
      subst hm52
      push_cast at hlow
      exact ofRatio_of_carry s hm hmin hn hd (by rw [hu]; linarith) (by rw [hu]; linarith)

theorem ofRatio_eq_zero (s : Bool) (hd : d ≠ 0) (h : n * 2 ^ 1076 ≤ d) :
    ofRatio s n d = signedZero s := by
  by_cases hn : n = 0
  · rw [ofRatio, if_pos hn]
  have hunits : (n : ℚ) / d / 2 ^ minExponent ≤ 1 / 4 := by
    have hle : (n : ℚ) * 2 ^ 1076 ≤ d := by exact_mod_cast h
    have hdQ : (0 : ℚ) < d := by exact_mod_cast Nat.pos_of_ne_zero hd
    rw [minExponent, zpow_neg, div_inv_eq_mul, div_mul_eq_mul_div, div_le_iff₀ hdQ]
    have hpow : (2 : ℚ) ^ 1076 = 2 ^ (1074 : Int) * 2 ^ 2 := pow_add 2 1074 2
    rw [hpow] at hle
    linarith
  have hplace : lastPlace n d = minExponent := lastPlace_eq_min hn hd (by linarith)
  have hnonneg : 0 ≤ (n : ℚ) / d / 2 ^ minExponent := by positivity
  have hzero : lastDigits n d = 0 := by
    refine lastDigits_eq_of_near hd ?_
    rw [hplace, Nat.cast_zero, sub_zero, abs_of_nonneg hnonneg]
    linarith
  rw [ofRatio_eq hn, hzero, if_neg (by decide), if_pos rfl]

end Double

end DeskCalculator
