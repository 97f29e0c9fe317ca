import DeskCalculator.Proofs.Decimal.Scaled
import DeskCalculator.Proofs.Numeral.Rounding

/-!
# When rounding overflows

`Context.round` drops the digits behind the last place of a context and rounds what is left, the
`cut`, which may carry into one digit more. A number becomes infinite when this brings its first
digit beyond the largest exponent. This happens from half a unit of the last place below the next
power of ten on (`isFinite_round_iff`), and in the same way rounding brings a number to any other
power of ten (`leadingExponent_round_le_iff`).
-/

namespace DeskCalculator

namespace Decimal

theorem leadingExponent_pow (k : Nat) (e : Int) : leadingExponent (10 ^ k) e = e + k := by
  have hpow : scaled (10 ^ k) e = 10 ^ (e + k) := by
    rw [← Nat.one_mul (10 ^ k), scaled_mul_pow, scaled_one]
  have hiff : ∀ j, j ≤ leadingExponent (10 ^ k) e ↔ j ≤ e + k := by
    intro j
    rw [le_leadingExponent_iff (by positivity), hpow, zpow_le_zpow_iff_right₀ (by norm_num)]
  exact Int.le_antisymm ((hiff _).1 (Int.le_refl _)) ((hiff _).2 (Int.le_refl _))

theorem leadingExponent_lt {c k : Nat} (hk : 0 < k) (hc : c < 10 ^ k) (e : Int) :
    leadingExponent c e < e + k := by
  have : ¬ k < Numeral.digitCount c := by
    rw [Numeral.lt_digitCount_iff hk]
    omega
  unfold leadingExponent
  omega

end Decimal

namespace Context

open Decimal

/-- A context with some digit and more exponents than one. -/
structure IsWide (ctx : Context) : Prop where
  precision_pos : 0 < ctx.precision
  min_lt_max : ctx.minExponent < ctx.maxExponent

variable (ctx : Context)

/-- The exponent of the last digit that a context leaves of a number. -/
def lastExponent (n : Nat) (e : Int) : Int :=
  max ctx.tiny (e + Numeral.digitCount n - ctx.precision)

def dropped (n : Nat) (e : Int) : Nat := (ctx.lastExponent n e - e).toNat

/-- The rounded coefficient up to the last digit. -/
def cut (n : Nat) (e : Int) : Nat :=
  if Numeral.digitCount n < ctx.dropped n e then 0
  else ctx.rounding.divide n (10 ^ ctx.dropped n e)

variable {ctx} {s : Bool} {n : Nat} {e : Int}

/-! ## The cases of rounding -/

theorem round_of_gt (hn : n ≠ 0) (h : ctx.maxExponent < leadingExponent n e) :
    ctx.round s n e = .infinite s := by
  unfold round
  rw [if_neg hn]
  exact if_pos h

theorem round_of_le (hn : n ≠ 0) (hmax : leadingExponent n e ≤ ctx.maxExponent)
    (h : ctx.lastExponent n e ≤ e) : ctx.round s n e = .finite s n e := by
  have hmax : ¬ ctx.maxExponent < e + Numeral.digitCount n - 1 := by
    unfold leadingExponent at hmax
    omega
  unfold round
  rw [if_neg hn]
  simp only [hmax, if_false]
  exact if_pos h

theorem round_of_lt (hn : n ≠ 0) (hmax : leadingExponent n e ≤ ctx.maxExponent)
    (h : e < ctx.lastExponent n e) :
    ctx.round s n e =
      if ctx.cut n e = 10 ^ ctx.precision then
        if ctx.maxExponent < leadingExponent (10 ^ (ctx.precision - 1)) (ctx.lastExponent n e + 1)
        then .infinite s
        else .finite s (10 ^ (ctx.precision - 1)) (ctx.lastExponent n e + 1)
      else if ctx.maxExponent < leadingExponent (ctx.cut n e) (ctx.lastExponent n e)
        then .infinite s
        else .finite s (ctx.cut n e) (ctx.lastExponent n e) := by
  have hmax : ¬ ctx.maxExponent < e + Numeral.digitCount n - 1 := by
    unfold leadingExponent at hmax
    omega
  have hlast : ¬ ctx.lastExponent n e ≤ e := by omega
  unfold round
  rw [if_neg hn]
  simp only [hmax, if_false]
  refine (if_neg hlast).trans ?_
  by_cases hcut : ctx.cut n e = 10 ^ ctx.precision
  · rw [if_pos hcut]
    unfold cut dropped lastExponent at hcut
    simp only [Nat.pow_eq, hcut, if_true]
    rfl
  · rw [if_neg hcut]
    unfold cut dropped lastExponent at hcut
    simp only [Nat.pow_eq, hcut, if_false]
    rfl

/-! ## Bounds of the cut -/

theorem cut_le (h : e < ctx.lastExponent n e) : ctx.cut n e ≤ 10 ^ ctx.precision := by
  unfold cut
  split
  · exact Nat.zero_le _
  · refine Rounding.divide_le ?_
    rw [← Nat.pow_add]
    refine Nat.lt_of_lt_of_le (Numeral.lt_pow_digitCount n) (Nat.pow_le_pow_right (by decide) ?_)
    unfold dropped
    unfold lastExponent at h ⊢
    omega

theorem leadingExponent_cut_lt (hctx : ctx.IsWide) (h : e < ctx.lastExponent n e)
    (hcut : ctx.cut n e ≠ 10 ^ ctx.precision) :
    leadingExponent (ctx.cut n e) (ctx.lastExponent n e) < ctx.lastExponent n e + ctx.precision := by
  have := cut_le h
  exact leadingExponent_lt hctx.precision_pos (by omega) _

theorem le_cut (hctx : ctx.IsWide) (hn : n ≠ 0) (hmin : ctx.minExponent ≤ leadingExponent n e)
    (h : e < ctx.lastExponent n e) : 10 ^ (ctx.precision - 1) ≤ ctx.cut n e := by
  have hpos := hctx.precision_pos
  have hdropped : ctx.dropped n e + ctx.precision = Numeral.digitCount n := by
    unfold leadingExponent at hmin
    unfold dropped
    unfold lastExponent tiny at h ⊢
    omega
  have hsplit : Numeral.digitCount n - 1 = ctx.precision - 1 + ctx.dropped n e := by omega
  have hpow := Numeral.pow_pred_digitCount_le hn
  rw [hsplit, Nat.pow_add] at hpow
  unfold cut
  rw [if_neg (by omega)]
  exact Nat.le_trans ((Nat.le_div_iff_mul_le (by positivity)).2 hpow) (Rounding.div_le_divide ..)

/-- Where no digit is lost at the lower end of the exponents, rounding does not bring the first
digit down. -/
theorem le_leadingExponent_of_round (hctx : ctx.IsWide) (hn : n ≠ 0)
    (hmin : ctx.minExponent ≤ leadingExponent n e) {t : Bool} {q : Nat} {f : Int}
    (h : ctx.round s n e = .finite t q f) : q ≠ 0 ∧ leadingExponent n e ≤ leadingExponent q f := by
  have hpos := hctx.precision_pos
  by_cases hmax : leadingExponent n e ≤ ctx.maxExponent
  · by_cases hlast : ctx.lastExponent n e ≤ e
    · rw [round_of_le hn hmax hlast] at h
      cases h
      exact ⟨hn, Int.le_refl _⟩
    · have hlast : e < ctx.lastExponent n e := by omega
      have hle := le_cut hctx hn hmin hlast
      have hone := Nat.one_le_pow (ctx.precision - 1) 10 (by decide)
      have hexp : leadingExponent n e = ctx.lastExponent n e + ctx.precision - 1 := by
        unfold leadingExponent at hmin ⊢
        unfold lastExponent tiny at hlast ⊢
        omega
      rw [round_of_lt hn hmax hlast] at h
      split at h
      · split at h
        · cases h
        · cases h
          rw [leadingExponent_pow]
          exact ⟨by omega, by omega⟩
      · split at h
        · cases h
        · cases h
          have hcut : ctx.cut n e ≠ 0 := by omega
          have hfirst : 10 ^ (ctx.lastExponent n e + ((ctx.precision - 1 : Nat) : Int)) ≤
              scaled (ctx.cut n e) (ctx.lastExponent n e) := by
            rw [← scaled_one, ← scaled_mul_pow, Nat.one_mul]
            exact scaled_le_scaled_iff.2 hle
          have := (le_leadingExponent_iff hcut).2 hfirst
          exact ⟨hcut, by omega⟩
  · rw [round_of_gt hn (by omega)] at h
    cases h

theorem isFinite_round_of_lt (hctx : ctx.IsWide) (hn : n ≠ 0)
    (h : leadingExponent n e < ctx.maxExponent) : (ctx.round s n e).isFinite := by
  have hpos := hctx.precision_pos
  have hrange := hctx.min_lt_max
  by_cases hlast : ctx.lastExponent n e ≤ e
  · rw [round_of_le hn (by omega) hlast]
    rfl
  · have hlast : e < ctx.lastExponent n e := by omega
    have hbound : ctx.lastExponent n e + ctx.precision ≤ ctx.maxExponent := by
      unfold lastExponent tiny
      unfold leadingExponent at h
      omega
    rw [round_of_lt hn (by omega) hlast]
    by_cases hcut : ctx.cut n e = 10 ^ ctx.precision
    · rw [if_pos hcut, if_neg]
      · rfl
      · rw [leadingExponent_pow]
        omega
    · have := leadingExponent_cut_lt hctx hlast hcut
      rw [if_neg hcut, if_neg (by omega)]
      rfl

theorem isFinite_round_of_eq (hctx : ctx.IsWide) (hn : n ≠ 0)
    (h : leadingExponent n e = ctx.maxExponent) :
    (ctx.round s n e).isFinite ↔
      ¬ (ctx.precision < Numeral.digitCount n ∧ 10 ^ ctx.precision ≤
        ctx.rounding.divide n (10 ^ (Numeral.digitCount n - ctx.precision))) := by
  have hpos := hctx.precision_pos
  have hrange := hctx.min_lt_max
  have hlast : ctx.lastExponent n e = e + Numeral.digitCount n - ctx.precision := by
    unfold lastExponent tiny
    unfold leadingExponent at h
    omega
  by_cases hdigits : ctx.precision < Numeral.digitCount n
  · have hlt : e < ctx.lastExponent n e := by omega
    have hdropped : ctx.dropped n e = Numeral.digitCount n - ctx.precision := by
      unfold dropped
      omega
    have hcut : ctx.cut n e =
        ctx.rounding.divide n (10 ^ (Numeral.digitCount n - ctx.precision)) := by
      unfold cut
      rw [hdropped, if_neg (by omega)]
    rw [round_of_lt hn (by omega) hlt, ← hcut]
    by_cases hcarry : ctx.cut n e = 10 ^ ctx.precision
    · rw [if_pos hcarry, if_pos]
      · simp [Decimal.isFinite, hdigits, hcarry]
      · rw [leadingExponent_pow]
        unfold leadingExponent at h
        omega
    · have hlead := leadingExponent_cut_lt hctx hlt hcarry
      have hle := cut_le hlt
      unfold leadingExponent at h
      rw [if_neg hcarry, if_neg (by omega)]
      simp only [Decimal.isFinite, true_iff]
      omega
  · rw [round_of_le hn (by omega) (by omega)]
    simp [Decimal.isFinite, hdigits]

/-! ## The bound -/

/-- Half a unit of the last place below the power of ten beyond the largest exponent. -/
def overflowBound (ctx : Context) : ℚ :=
  scaled (10 ^ (ctx.precision + 1) - 5) (ctx.maxExponent - ctx.precision)

theorem overflowBound_le (ctx : Context) : ctx.overflowBound ≤ 10 ^ (ctx.maxExponent + 1) := by
  have hle : ctx.overflowBound ≤
      scaled (1 * 10 ^ (ctx.precision + 1)) (ctx.maxExponent - ctx.precision) := by
    refine scaled_le_scaled_iff.2 ?_
    omega
  rwa [scaled_mul_pow, scaled_one, show ctx.maxExponent - ctx.precision + ↑(ctx.precision + 1) =
    ctx.maxExponent + 1 by omega] at hle

theorem le_overflowBound (ctx : Context) : 10 ^ ctx.maxExponent ≤ ctx.overflowBound := by
  have hle : scaled (1 * 10 ^ ctx.precision) (ctx.maxExponent - ctx.precision) ≤
      ctx.overflowBound := by
    refine scaled_le_scaled_iff.2 ?_
    have := Nat.one_le_pow ctx.precision 10 (by decide)
    rw [Nat.pow_succ]
    omega
  rwa [scaled_mul_pow, scaled_one, Int.sub_add_cancel] at hle

theorem scaled_lt_overflowBound (h : leadingExponent n e = ctx.maxExponent)
    (hdigits : Numeral.digitCount n ≤ ctx.precision) : scaled n e < ctx.overflowBound := by
  obtain ⟨k, hk⟩ := Nat.exists_eq_add_of_le hdigits
  have he : e = ctx.maxExponent - ctx.precision + ↑(k + 1) := by
    unfold leadingExponent at h
    omega
  rw [he, ← scaled_mul_pow]
  refine scaled_lt_scaled_iff.2 ?_
  have hlt : (n + 1) * 10 ^ (k + 1) ≤ 10 ^ (ctx.precision + 1) := by
    rw [hk, Nat.add_assoc, Nat.pow_add 10 (Numeral.digitCount n)]
    exact Nat.mul_le_mul_right _ (Numeral.lt_pow_digitCount n)
  have hten : 10 ≤ 10 ^ (k + 1) := Nat.le_self_pow (by omega) 10
  rw [Nat.succ_mul] at hlt
  omega

theorem overflowBound_le_iff {k : Nat} (h : leadingExponent n e = ctx.maxExponent)
    (hk : Numeral.digitCount n = ctx.precision + (k + 1)) :
    ctx.overflowBound ≤ scaled n e ↔
      2 * (10 ^ ctx.precision * 10 ^ (k + 1)) ≤ 2 * n + 10 ^ (k + 1) := by
  have he : ctx.maxExponent - ctx.precision = e + k := by
    unfold leadingExponent at h
    omega
  unfold overflowBound
  rw [he, ← scaled_mul_pow, scaled_le_scaled_iff, Nat.sub_mul, Nat.pow_succ, Nat.pow_succ]
  have hcomm : 10 ^ ctx.precision * (10 ^ k * 10) = 10 ^ ctx.precision * 10 * 10 ^ k := by
    rw [Nat.mul_comm (10 ^ k), Nat.mul_assoc]
  rw [hcomm]
  omega

theorem overflowBound_le_of_round (hctx : ctx.IsWide) (hn : n ≠ 0)
    (h : ¬ (ctx.round s n e).isFinite) : ctx.overflowBound ≤ scaled n e := by
  rcases lt_trichotomy (leadingExponent n e) ctx.maxExponent with hlt | heq | hgt
  · exact absurd (isFinite_round_of_lt hctx hn hlt) h
  · rw [isFinite_round_of_eq hctx hn heq, not_not] at h
    obtain ⟨k, hk⟩ := Nat.exists_eq_add_of_lt h.1
    refine (overflowBound_le_iff heq hk).2 ?_
    have := Rounding.two_mul_le_of_le_divide h.2
    rwa [show Numeral.digitCount n - ctx.precision = k + 1 by omega] at this
  · exact ctx.overflowBound_le.trans ((le_leadingExponent_iff hn).1 hgt)

/-- **Overflow.** A number overflows from the bound on. -/
theorem isFinite_round_iff (hctx : ctx.IsWide) (hn : n ≠ 0) :
    (ctx.round s n e).isFinite ↔ scaled n e < ctx.overflowBound := by
  refine ⟨fun h => ?_, fun h => ?_⟩
  · by_contra hge
    rw [not_lt] at hge
    rcases lt_trichotomy (leadingExponent n e) ctx.maxExponent with hlt | heq | hgt
    · have hle : leadingExponent n e + 1 ≤ ctx.maxExponent := by omega
      have hpow := zpow_le_zpow_right₀ (by norm_num : (1 : ℚ) ≤ 10) hle
      have := (scaled_lt_zpow n e).trans_le (hpow.trans ctx.le_overflowBound)
      exact absurd hge (not_le.2 this)
    · by_cases hdigits : Numeral.digitCount n ≤ ctx.precision
      · exact absurd hge (not_le.2 (scaled_lt_overflowBound heq hdigits))
      · obtain ⟨k, hk⟩ := Nat.exists_eq_add_of_lt (Nat.lt_of_not_le hdigits)
        refine (isFinite_round_of_eq hctx hn heq).1 h ⟨by omega, ?_⟩
        rw [show Numeral.digitCount n - ctx.precision = k + 1 by omega]
        have heven : 10 ^ ctx.precision % 2 = 0 :=
          Nat.mod_eq_zero_of_dvd (Dvd.dvd.pow (by decide) hctx.precision_pos.ne')
        exact Rounding.le_divide_of_even _ (by positivity) heven
          ((overflowBound_le_iff heq hk).1 hge)
    · rw [round_of_gt hn hgt] at h
      cases h
  · by_contra hinf
    exact absurd h (not_lt.2 (overflowBound_le_of_round hctx hn hinf))

/-! ## Any power of ten -/

def capped (ctx : Context) (M : Int) : Context := { ctx with maxExponent := M }

/-- Digits and exponent that rounding leaves do not depend on the largest exponent. -/
theorem exists_round_capped (ctx : Context) (hn : n ≠ 0) (e : Int) (s : Bool) : ∃ q f,
    ∀ M, leadingExponent n e ≤ M → (ctx.capped M).round s n e =
      if M < leadingExponent q f then .infinite s else .finite s q f := by
  by_cases hlast : ctx.lastExponent n e ≤ e
  · refine ⟨n, e, fun M hM => ?_⟩
    rw [if_neg (Int.not_lt.2 hM)]
    exact round_of_le hn hM hlast
  · have hround (M : Int) (hM : leadingExponent n e ≤ (ctx.capped M).maxExponent) :=
      round_of_lt (s := s) hn hM (Int.not_le.1 hlast)
    by_cases hcut : ctx.cut n e = 10 ^ ctx.precision
    · exact ⟨10 ^ (ctx.precision - 1), ctx.lastExponent n e + 1, fun M hM =>
        (hround M hM).trans (if_pos hcut)⟩
    · exact ⟨ctx.cut n e, ctx.lastExponent n e, fun M hM => (hround M hM).trans (if_neg hcut)⟩

theorem isFinite_round_capped {M : Int} (hctx : ctx.IsWide) (hn : n ≠ 0) (hmin : ctx.minExponent < M)
    {t : Bool} {q : Nat} {f : Int} (h : ctx.round s n e = .finite t q f) :
    ((ctx.capped M).round s n e).isFinite ↔ leadingExponent q f ≤ M := by
  by_cases hbeyond : M < leadingExponent n e
  · have hlead := (le_leadingExponent_of_round hctx hn (by omega) h).2
    have hround : (ctx.capped M).round s n e = .infinite s := round_of_gt hn hbeyond
    rw [hround]
    exact iff_of_false (by simp [Decimal.isFinite]) (by omega)
  · have hle : leadingExponent n e ≤ ctx.maxExponent := by
      by_contra hgt
      rw [round_of_gt hn (by omega)] at h
      cases h
    obtain ⟨q', f', hround⟩ := ctx.exists_round_capped hn e s
    have hsame : ctx.round s n e = _ := hround ctx.maxExponent hle
    rw [h] at hsame
    split at hsame
    · cases hsame
    · cases hsame
      rw [hround M (Int.not_lt.1 hbeyond)]
      split <;> simp only [Decimal.isFinite, Bool.false_eq_true, true_iff, false_iff] <;> omega

theorem leadingExponent_round_le_iff {M : Int} (hctx : ctx.IsWide) (hn : n ≠ 0)
    (hmin : ctx.minExponent < M) {t : Bool} {q : Nat} {f : Int}
    (h : ctx.round s n e = .finite t q f) :
    leadingExponent q f ≤ M ↔ scaled n e < (ctx.capped M).overflowBound := by
  rw [← isFinite_round_capped hctx hn hmin h]
  exact isFinite_round_iff ⟨hctx.precision_pos, hmin⟩ hn

end Context

end DeskCalculator
