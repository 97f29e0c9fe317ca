import DeskCalculator.Proofs.Decimal.Results
import DeskCalculator.Proofs.Double.NonFinite
import DeskCalculator.Proofs.Double.Shortest
import DeskCalculator.Proofs.Double.Whole

/-!
# Infinities and NaNs through the operations on decimals

The operations of a context pass on what is not finite. Two of them can lose it: a quotient by an
infinity is zero, and a power may come to a limit (`power_cases`). Which power it is depends on the
double that the exponent is taken as, since that double is whole if the decimal read from its text
is (`isWhole_of_isIntegral`).
-/

namespace DeskCalculator

open Decimal

namespace Context

variable (ctx : Context) {a b : Decimal}

/-! ## Arithmetic -/

theorem isFinite_passNaN (h : a.isNaN ∨ b.isNaN) : (ctx.passNaN a b).isFinite = false := by
  have hquiet : ∀ {d : Decimal}, d.isNaN → (ctx.quiet d).isFinite = false := by
    intro d hd
    cases d with
    | nan => rfl
    | _ => cases hd
  unfold passNaN
  split
  · rename_i hsignaling
    exact hquiet (isNaN_of_isSignaling hsignaling)
  · split
    · rename_i hsignaling
      exact hquiet (isNaN_of_isSignaling hsignaling)
    · split
      · rename_i hnan
        exact hquiet hnan
      · rename_i hnan
        exact hquiet (h.resolve_left hnan)

theorem isFinite_plus (h : a.isFinite = false) : (ctx.plus a).isFinite = false := by
  cases a with
  | finite => cases h
  | _ => rfl

theorem isFinite_minus (h : a.isFinite = false) : (ctx.minus a).isFinite = false := by
  cases a with
  | finite => cases h
  | _ => rfl

theorem isFinite_abs (h : a.isFinite = false) : (ctx.abs a).isFinite = false := by
  cases a with
  | finite => cases h
  | _ => rfl

theorem isFinite_of_operands {f : Decimal → Decimal → Decimal}
    (hnan : ∀ {a b}, a.isNaN ∨ b.isNaN → f a b = ctx.passNaN a b)
    (hinfinite : ∀ s t, (f (.infinite s) (.infinite t)).isFinite = false)
    (hleft : ∀ s t d k, (f (.infinite s) (.finite t d k)).isFinite = false)
    (hright : ∀ s c e t, (f (.finite s c e) (.infinite t)).isFinite = false)
    (h : a.isFinite = false ∨ b.isFinite = false) : (f a b).isFinite = false := by
  have hpass : a.isNaN ∨ b.isNaN → (f a b).isFinite = false := fun h => by
    rw [hnan h]
    exact isFinite_passNaN ctx h
  cases a with
  | nan => exact hpass (.inl rfl)
  | infinite s =>
    cases b with
    | nan => exact hpass (.inr rfl)
    | infinite t => exact hinfinite s t
    | finite t d k => exact hleft s t d k
  | finite s c e =>
    cases b with
    | nan => exact hpass (.inr rfl)
    | infinite t => exact hright s c e t
    | finite => rcases h with h | h <;> cases h

theorem isFinite_add : a.isFinite = false ∨ b.isFinite = false →
    (ctx.add a b).isFinite = false := by
  refine isFinite_of_operands ctx (fun {a b} h => ?_) ?_ (fun _ _ _ _ => rfl) fun _ _ _ _ => rfl
  · cases a <;> cases b <;> first | rfl | simp [isNaN] at h
  · intro s t
    cases s <;> cases t <;> rfl

theorem isFinite_sub : a.isFinite = false ∨ b.isFinite = false →
    (ctx.sub a b).isFinite = false := by
  refine isFinite_of_operands ctx (fun {a b} h => ?_) ?_ (fun _ _ _ _ => rfl) fun _ _ _ _ => rfl
  · cases a <;> cases b <;> first | rfl | simp [isNaN] at h
  · intro s t
    cases s <;> cases t <;> rfl

theorem isFinite_mul : a.isFinite = false ∨ b.isFinite = false →
    (ctx.mul a b).isFinite = false := by
  refine isFinite_of_operands ctx (fun {a b} h => ?_) (fun _ _ => rfl) ?_ ?_
  · cases a <;> cases b <;> first | rfl | simp [isNaN] at h
  · intro s t d k
    by_cases hd : d = 0 <;> simp [mul, hd, invalid, Decimal.isFinite]
  · intro s c e t
    by_cases hc : c = 0 <;> simp [mul, hc, invalid, Decimal.isFinite]

theorem isFinite_div_of_isNaN (h : a.isNaN ∨ b.isNaN) : (ctx.div a b).isFinite = false := by
  have hpass := isFinite_passNaN ctx h
  cases a <;> cases b <;> first | exact hpass | simp [isNaN] at h

/-- **A quotient** loses an infinite divisor, and nothing else. -/
theorem div_cases (h : a.isFinite = false ∨ b.isFinite = false) (hd : (ctx.div a b).isFinite) :
    a.isFinite ∧ ∃ t, b = .infinite t := by
  have hnan : ¬ (a.isNaN ∨ b.isNaN) := fun hnan => by
    rw [isFinite_div_of_isNaN ctx hnan] at hd
    cases hd
  cases a with
  | nan => exact absurd (.inl rfl) hnan
  | infinite s =>
    cases b with
    | nan => exact absurd (.inr rfl) hnan
    | _ => cases hd
  | finite s c e =>
    cases b with
    | nan => exact absurd (.inr rfl) hnan
    | infinite t => exact ⟨rfl, t, rfl⟩
    | finite => simp [Decimal.isFinite] at h

theorem isFinite_div_left (ha : a.isFinite = false) : (ctx.div a b).isFinite = false := by
  by_contra hd
  have := (div_cases ctx (.inl ha) (by simpa using hd)).1
  simp [ha] at this

end Context

/-! ## To doubles and back -/

theorem Decimal.isFinite_toDouble {a : Decimal} (h : a.isFinite = false) :
    Yields (·.isFinite = false) a.toDouble := by
  cases a with
  | finite => cases h
  | infinite s => exact yields_ok rfl
  | nan s signaling payload => exact .ite (yields_error _) (yields_ok rfl)

theorem Context.isFinite_ofDouble (ctx : Context) {x : Double} (h : x.isFinite = false) :
    (ctx.ofDouble x).isFinite = false := by
  refine isFinite_plus ctx ?_
  cases x with
  | finite => cases h
  | _ => rfl

/-! ## The exponent of a power -/

namespace Double

variable {s : Bool} {m : Nat} {q : Int}

theorem truncate_eq_signed (s : Bool) (m : Nat) (q : Int) :
    (finite s m q).truncate =
      Decimal.signed s (if 0 ≤ q then m * Nat.pow 2 q.toNat else m / Nat.pow 2 (-q).toNat) := rfl

theorem isWhole_zero (s : Bool) (q : Int) : (finite s 0 q).isWhole := by simp [isWhole]

theorem isWhole_of_nonneg (s : Bool) (m : Nat) (hq : 0 ≤ q) : (finite s m q).isWhole := by
  simp [isWhole, hq]

theorem isWhole_of_ofRatio_one {n : Nat} (h : ofRatio s n 1 = finite s m q) :
    (finite s m q).isWhole := by
  rw [← h]
  by_cases hn : n = 0
  · rw [hn]
    exact isWhole_zero s _
  by_cases hlt : n < 2 ^ 53
  · obtain ⟨j, hj⟩ := ofRatio_of_lt s hn hlt
    rw [hj]
    exact isWhole_shifted s n j
  · -- The last place of a longer integer is that of a whole number.
    have hlog : 53 ≤ n.log2 := (Nat.le_log2 hn).2 (by omega)
    have hplace : 0 ≤ lastPlace n 1 := by
      rw [lastPlace, floorLog2_one hn]
      omega
    rw [h]
    rw [ofRatio_eq hn] at h
    split at h
    · split at h
      · cases h
      · cases h
        exact isWhole_of_nonneg _ _ (by omega)
    · split at h
      · cases h
        exact isWhole_zero s _
      · split at h
        · cases h
        · cases h
          exact isWhole_of_nonneg _ _ hplace

end Double

namespace Decimal

variable {s : Bool} {c m : Nat} {e q : Int}

theorem exists_natCast_of_isWhole (h : isWhole c e) : ∃ n : Nat, scaled c e = scaled n 0 := by
  simp only [isWhole, Bool.or_eq_true, Bool.and_eq_true, beq_iff_eq, decide_eq_true_eq,
    Nat.pow_eq] at h
  rcases h with (rfl | he) | ⟨-, hmod⟩
  · exact ⟨0, by simp [scaled]⟩
  · refine ⟨c * 10 ^ e.toNat, ?_⟩
    rw [scaled_mul_pow]
    congr 1
    omega
  · by_cases he : 0 ≤ e
    · refine ⟨c * 10 ^ e.toNat, ?_⟩
      rw [scaled_mul_pow]
      congr 1
      omega
    · refine ⟨c / 10 ^ (-e).toNat, ?_⟩
      obtain ⟨k, hk⟩ := Nat.dvd_of_mod_eq_zero hmod
      rw [hk, Nat.mul_div_cancel_left _ (Nat.pow_pos (by decide)), Nat.mul_comm, scaled_mul_pow]
      congr 1
      omega

/-- The decimal of a double has its sign, and digits that read back as the double. -/
theorem exists_ofDouble_eq (hm : m ≠ 0) (s : Bool) (q : Int) :
    ∃ c e, ofDouble (.finite s m q) = finite s c e ∧
      scaled c e =
        scaled (Double.shortest (.finite s m q)).1 (Double.shortest (.finite s m q)).2 := by
  have hscaled := Double.scaled_stripZeros (Double.shortest (.finite s m q)).1
    (Double.shortest (.finite s m q)).2
  unfold ofDouble
  simp only [hm, if_false]
  generalize Double.stripZeros _ _ = digits at hscaled ⊢
  obtain ⟨c, e⟩ := digits
  simp only at hscaled ⊢
  split
  · rename_i hplace
    refine ⟨_, _, rfl, ?_⟩
    rw [← hscaled, Nat.pow_eq, scaled_mul_pow]
    congr 1
    omega
  · exact ⟨c, e, rfl, hscaled⟩

theorem isZero_ofDouble (hx : Double.IsNormal m q) (hm : m ≠ 0) (s : Bool) :
    (ofDouble (.finite s m q)).isZero = false := by
  obtain ⟨c, e, heq, hscaled⟩ := exists_ofDouble_eq hm s q
  have hc : c ≠ 0 := (Double.shortest_readsBack hx hm s).ne_zero hm hscaled
  rw [heq]
  cases c with
  | zero => exact absurd rfl hc
  | succ c => rfl

/-- **A double is whole** if the decimal that its text reads as is. -/
theorem isWhole_of_isIntegral (hx : Double.IsNormal m q) (hm : m ≠ 0)
    (h : (ofDouble (.finite s m q)).isIntegral) : (Double.finite s m q).isWhole := by
  obtain ⟨c, e, heq, hscaled⟩ := exists_ofDouble_eq hm s q
  rw [heq] at h
  obtain ⟨n, hn⟩ := exists_natCast_of_isWhole h
  have hreads := Double.shortest_readsBack hx hm s
  have hn0 : n ≠ 0 := hreads.ne_zero hm (hn.symm.trans hscaled)
  have hof := hreads.ofScientific_eq (hn.symm.trans hscaled) s
  rw [Double.ofScientific_eq s hn0] at hof
  simp only [Int.toNat_zero, Int.neg_zero, Nat.pow_zero, Nat.mul_one] at hof
  exact Double.isWhole_of_ofRatio_one hof

end Decimal

/-! ## Powers -/

/-- Whether the powers of a finite decimal stay bounded toward an infinite exponent. -/
def Decimal.isBoundedToward (a : Decimal) (negative : Bool) : Bool :=
  if a.isZero then !negative
  else !a.isNegative && (a.isUnit || a.isAboveOne == negative)

namespace Context

variable (ctx : Context) {a b y d : Decimal}

theorem isFinite_pow_of_isNaN (h : a.isNaN ∨ y.isNaN) : (ctx.pow a y).isFinite = false := by
  have hnan : (a.isNaN || y.isNaN) = true := by simpa using h
  rw [pow, if_pos hnan]
  exact isFinite_passNaN ctx h

theorem pow_infinite_cases {s : Bool} (hy : y.isZero = false)
    (hd : (ctx.pow (.infinite s) y).isFinite) : y.isNegative ∧ (s → y.isIntegral) := by
  have hzero : ∀ u, (infinite u).isZero = false := fun _ => rfl
  cases y with
  | nan =>
    rw [isFinite_pow_of_isNaN ctx (.inr rfl)] at hd
    cases hd
  | infinite t =>
    cases s <;> cases t <;>
      simp [pow, isNaN, hzero, isNegative, isIntegral, isUnit, isAboveOne, isOdd, invalid,
        Decimal.isFinite] at hd ⊢
  | finite t c e =>
    cases s <;> cases t <;> cases hwhole : isWhole c e <;>
      simp [pow, isNaN, hzero, isNegative, isIntegral, hwhole, hy, invalid,
        Decimal.isFinite] at hd ⊢

theorem pow_toward_infinity_cases {t : Bool} (ha : a.isFinite)
    (hd : (ctx.pow a (.infinite t)).isFinite) : a.isBoundedToward t := by
  have hnan : a.isNaN = false := by
    cases a with
    | finite => rfl
    | _ => cases ha
  have hpow : ctx.pow a (.infinite t) =
      if a.isZero then (if t then .infinite false else .finite false 0 0)
      else if a.isNegative then invalid
      else if a.isUnit then ctx.paddedOne false
      else if a.isAboveOne != t then .infinite false else .finite false 0 0 := by
    have hodd : (infinite t).isOdd = false := rfl
    have hzero : (infinite t).isZero = false := rfl
    have hsign : (infinite t).isNegative = t := rfl
    have hwhole : (infinite t).isIntegral = false := rfl
    have hfinite : (infinite t).isFinite = false := rfl
    have hnan' : (infinite t).isNaN = false := rfl
    simp [pow, hnan, hnan', hodd, hzero, hsign, hwhole, hfinite, ha]
  rw [hpow] at hd
  unfold isBoundedToward
  revert hd
  cases a.isZero <;> cases a.isNegative <;> cases a.isUnit <;> cases a.isAboveOne <;> cases t <;>
    simp [invalid, Decimal.isFinite]

def exponentOf (x : Double) : Decimal :=
  if x.isWhole then Decimal.ofInt x.truncate else Decimal.ofDouble x

theorem isZero_ofInt {n : Int} (hn : n ≠ 0) : (Decimal.ofInt n).isZero = false := by
  unfold Decimal.ofInt
  cases h : n.natAbs with
  | zero => omega
  | succ k => rfl

section Exponent

variable {x : Double} (hx : x.IsCanonical) (hzero : x.isZero = false)
include hx hzero

theorem truncate_ne_zero (hwhole : x.isWhole) : x.truncate ≠ 0 := by
  cases x with
  | finite s m q =>
    have hm : m ≠ 0 := by
      rintro rfl
      cases hzero
    have hmagnitude : (if 0 ≤ q then m * Nat.pow 2 q.toNat else m / Nat.pow 2 (-q).toNat) ≠ 0 := by
      simp only [Double.isWhole, Bool.or_eq_true, decide_eq_true_eq, beq_iff_eq,
        Nat.pow_eq] at hwhole
      split
      · exact Nat.mul_ne_zero hm (Nat.two_pow_pos _).ne'
      · obtain ⟨k, hk⟩ := Nat.dvd_of_mod_eq_zero (hwhole.resolve_left ‹_›)
        rw [Nat.pow_eq, hk, Nat.mul_div_cancel_left _ (by positivity)]
        rintro rfl
        exact hm hk
    rw [Double.truncate_eq_signed]
    generalize (if 0 ≤ q then m * Nat.pow 2 q.toNat else m / Nat.pow 2 (-q).toNat) = n
      at hmagnitude ⊢
    cases s <;> simpa [Decimal.signed] using hmagnitude
  | _ => cases hwhole

theorem isZero_exponentOf : (exponentOf x).isZero = false := by
  unfold exponentOf
  split
  · exact isZero_ofInt (truncate_ne_zero hx hzero ‹_›)
  · cases x with
    | finite s m q =>
      have hm : m ≠ 0 := by
        rintro rfl
        cases hzero
      exact isZero_ofDouble hx hm s
    | _ => rfl

theorem isNegative_of_exponentOf (h : (exponentOf x).isNegative) : x.isNegative := by
  unfold exponentOf at h
  split at h
  · cases x with
    | finite s m q =>
      cases s with
      | true => rfl
      | false =>
        have hlt : (Double.finite false m q).truncate < 0 := of_decide_eq_true h
        rw [Double.truncate_eq_signed] at hlt
        exact absurd hlt (Int.not_lt.2 (Int.natCast_nonneg _))
    | _ => simp [Decimal.ofInt, Decimal.isNegative, Double.truncate] at h
  · cases x with
    | finite s m q =>
      have hm : m ≠ 0 := by
        rintro rfl
        cases hzero
      obtain ⟨c, e, heq, -⟩ := exists_ofDouble_eq hm s q
      rw [heq] at h
      exact h
    | infinite s => exact h
    | nan => cases h

theorem isWhole_of_exponentOf (h : (exponentOf x).isIntegral) : x.isWhole := by
  unfold exponentOf at h
  split at h
  · assumption
  · cases x with
    | finite s m q =>
      have hm : m ≠ 0 := by
        rintro rfl
        cases hzero
      exact isWhole_of_isIntegral hx hm h
    | _ => cases h

end Exponent

theorem isCanonical_toDouble {x : Double} (h : b.toDouble = .ok x) : x.IsCanonical := by
  cases b with
  | finite s c e =>
    cases h
    exact Double.isCanonical_ofScientific s c e
  | infinite s =>
    cases h
    trivial
  | nan s signaling payload =>
    cases signaling <;> cases h
    trivial

/-- **A power** loses an operand that is not finite if the exponent is zero, if the base is infinite
and the exponent negative, or if the exponent is infinite and the base bounded toward it. -/
theorem power_cases (h : a.isFinite = false ∨ b.isFinite = false) (hpower : ctx.power a b = .ok d)
    (hd : d.isFinite) :
    ∃ x, b.toDouble = .ok x ∧
      (a.isFinite = false ∧ x.isZero ∨
        (∃ s, a = .infinite s ∧ x.isNegative ∧ (s → x.isWhole)) ∨
        (∃ t, b = .infinite t ∧ a.isFinite ∧ a.isBoundedToward t)) := by
  unfold power at hpower
  cases hx : b.toDouble with
  | error e =>
    rw [hx] at hpower
    cases hpower
  | ok x =>
    rw [hx] at hpower
    refine ⟨x, rfl, ?_⟩
    simp only [bind, Except.bind] at hpower
    cases hzero : x.isZero with
    | true =>
      refine .inl ⟨h.resolve_right fun hb => ?_, rfl⟩
      have := isFinite_toDouble hb x hx
      cases x with
      | finite => cases this
      | _ => cases hzero
    | false =>
      have hcanonical := isCanonical_toDouble hx
      have hpow : ctx.pow a (exponentOf x) = d := by
        unfold exponentOf
        rw [hzero] at hpower
        split at hpower
        · contradiction
        · split at hpower
          · rename_i hwhole
            rw [if_pos hwhole]
            exact Except.ok.inj hpower
          · rename_i hwhole
            rw [if_neg hwhole]
            exact Except.ok.inj hpower
      have hy := isZero_exponentOf hcanonical hzero
      rw [← hpow] at hd
      right
      cases a with
      | nan =>
        rw [isFinite_pow_of_isNaN ctx (.inl rfl)] at hd
        cases hd
      | infinite s =>
        obtain ⟨hneg, hwhole⟩ := pow_infinite_cases ctx hy hd
        exact .inl ⟨s, rfl, isNegative_of_exponentOf hcanonical hzero hneg,
          fun hs => isWhole_of_exponentOf hcanonical hzero (hwhole hs)⟩
      | finite s c e =>
        cases b with
        | finite => simp [Decimal.isFinite] at h
        | infinite t =>
          cases hx
          exact .inr ⟨t, rfl, rfl, pow_toward_infinity_cases ctx rfl hd⟩
        | nan t signaling payload =>
          cases signaling <;> cases hx
          rw [isFinite_pow_of_isNaN ctx (.inr rfl)] at hd
          cases hd

end Context

end DeskCalculator
