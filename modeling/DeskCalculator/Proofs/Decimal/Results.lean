import DeskCalculator.Proofs.Decimal.Representable
import DeskCalculator.Proofs.Decimal.Scientific
import DeskCalculator.Value.Constants
import DeskCalculator.Value.Counting

/-!
# The results of a context

Every operation of a context gives a decimal that the context can keep: no more digits than its
precision, and an exponent in its range. This comes down to rounding (`keeps_round`), since an
operation either rounds its result at the end or gives a zero, a one, an infinity or a NaN. The
operands do not matter, nor the contexts with more digits that intermediate results go through. The
results of a context whose exponents stay in the widest range can be stored (`Keeps.isStorable`).
-/

namespace DeskCalculator

open Decimal

namespace Context

/-- A finite decimal that the context can keep as it is, or an infinity or a NaN. -/
def Keeps (ctx : Context) : Decimal → Prop
  | finite _ c e => ctx.Represents c e
  | _ => True

theorem Keeps.ite {ctx : Context} {p : Prop} [Decidable p] {a b : Decimal} (ha : ctx.Keeps a)
    (hb : ctx.Keeps b) : ctx.Keeps (if p then a else b) := by
  split
  · exact ha
  · exact hb

/-- The numbers of a context are numbers of the widest range. -/
structure IsModerate (ctx : Context) : Prop where
  precision_pos : 0 < ctx.precision
  min_nonpos : ctx.minExponent ≤ 0
  max_nonneg : 0 ≤ ctx.maxExponent
  tiny_le : widest.tiny ≤ ctx.tiny
  max_le : ctx.maxExponent ≤ widest.maxExponent

section PassNaN

variable (ctx : Context) {a b : Decimal}

theorem keeps_quiet (h : a.isNaN) : ctx.Keeps (ctx.quiet a) := by
  cases a with
  | nan s signaling payload => trivial
  | _ => cases h

theorem isNaN_of_isSignaling (h : a.isSignaling) : a.isNaN := by
  cases a with
  | nan s signaling payload => rfl
  | _ => cases h

theorem keeps_passNaN (h : a.isNaN ∨ b.isNaN) : ctx.Keeps (ctx.passNaN a b) := by
  unfold passNaN
  split
  · rename_i hsignaling
    exact keeps_quiet ctx (isNaN_of_isSignaling hsignaling)
  · split
    · rename_i hsignaling
      exact keeps_quiet ctx (isNaN_of_isSignaling hsignaling)
    · split
      · rename_i hnan
        exact keeps_quiet ctx hnan
      · rename_i hnan
        exact keeps_quiet ctx (h.resolve_left hnan)

end PassNaN

variable {ctx : Context} (hctx : ctx.IsModerate) {s : Bool} {c n : Nat} {e : Int} {a b : Decimal}
include hctx

theorem Keeps.isStorable (h : ctx.Keeps a) : a.IsStorable := by
  cases a with
  | finite s c e =>
    exact isStorable_iff.2 ⟨Int.le_trans hctx.tiny_le h.tiny_le, Int.le_trans h.le_max hctx.max_le⟩
  | _ => trivial

/-! ## Rounding -/

theorem IsModerate.keeps (hc : c < 10 ^ ctx.precision) (hmin : ctx.tiny ≤ e)
    (hmax : leadingExponent c e ≤ ctx.maxExponent) (s : Bool) : ctx.Keeps (finite s c e) := by
  refine ⟨Nat.le_of_not_lt fun hlt => ?_, hmin, hmax⟩
  have := (Numeral.lt_digitCount_iff hctx.precision_pos).1 hlt
  omega

theorem IsModerate.keeps_pow {k : Nat} (hk : k < ctx.precision) (hmin : ctx.tiny ≤ e)
    (hmax : e + k ≤ ctx.maxExponent) (s : Bool) : ctx.Keeps (finite s (10 ^ k) e) :=
  hctx.keeps (Nat.pow_lt_pow_right (by decide) hk) hmin (by rwa [leadingExponent_pow]) s

theorem IsModerate.tiny_nonpos : ctx.tiny ≤ 0 := by
  have := hctx.precision_pos
  have := hctx.min_nonpos
  unfold tiny
  omega

theorem IsModerate.keeps_zero (hmin : ctx.tiny ≤ e) (hmax : e ≤ ctx.maxExponent) (s : Bool) :
    ctx.Keeps (finite s 0 e) := by
  refine hctx.keeps (Nat.pow_pos (by decide)) hmin ?_ s
  have hzero : leadingExponent 0 e = e := by
    have : Numeral.digitCount 0 = 1 := by decide
    unfold leadingExponent
    omega
  rwa [hzero]

theorem keeps_signedZero (s : Bool) : ctx.Keeps (finite s 0 0) :=
  hctx.keeps_zero hctx.tiny_nonpos hctx.max_nonneg s

theorem keeps_signedOne (s : Bool) : ctx.Keeps (finite s 1 0) :=
  hctx.keeps_pow (k := 0) hctx.precision_pos hctx.tiny_nonpos hctx.max_nonneg s

theorem keeps_round (s : Bool) (n : Nat) (e : Int) : ctx.Keeps (ctx.round s n e) := by
  have htiny := hctx.tiny_nonpos
  have hmax := hctx.max_nonneg
  have hpos := hctx.precision_pos
  by_cases hn : n = 0
  · rw [round, if_pos hn]
    exact hctx.keeps_zero (by omega) (by omega) s
  by_cases hgt : ctx.maxExponent < leadingExponent n e
  · rw [round_of_gt hn hgt]
    trivial
  have hlast : ctx.tiny ≤ ctx.lastExponent n e := le_max_left _ _
  by_cases hle : ctx.lastExponent n e ≤ e
  · rw [round_of_le hn (by omega) hle]
    refine ⟨?_, by omega, by omega⟩
    unfold lastExponent at hle
    omega
  have hcut : ctx.cut n e ≤ 10 ^ ctx.precision := cut_le (by omega)
  rw [round_of_lt hn (by omega) (by omega)]
  split <;> split
  · trivial
  · exact hctx.keeps (Nat.pow_lt_pow_right (by decide) (by omega)) (by omega) (by omega) s
  · trivial
  · exact hctx.keeps (by omega) hlast (by omega) s

/-! ## Arithmetic -/

theorem keeps_plus (a : Decimal) : ctx.Keeps (ctx.plus a) := by
  cases a with
  | finite s c e => exact keeps_round hctx _ _ _
  | infinite s => trivial
  | nan s signaling payload => trivial

theorem keeps_minus (a : Decimal) : ctx.Keeps (ctx.minus a) := by
  cases a with
  | finite s c e => exact keeps_round hctx _ _ _
  | infinite s => trivial
  | nan s signaling payload => trivial

theorem keeps_abs (a : Decimal) : ctx.Keeps (ctx.abs a) := by
  cases a with
  | finite s c e => exact keeps_round hctx _ _ _
  | infinite s => trivial
  | nan s signaling payload => trivial

theorem keeps_fit (a : Decimal) : ctx.Keeps (ctx.fit a) := by
  cases a with
  | finite s c e => exact keeps_round hctx _ _ _
  | infinite s => trivial
  | nan s signaling payload => trivial

theorem keeps_addFinite (s : Bool) (c : Nat) (e : Int) (t : Bool) (d : Nat) (f : Int) :
    ctx.Keeps (ctx.addFinite s c e t d f) := by
  have haligned : ∀ s c t d e, ctx.Keeps (ctx.addAligned s c t d e) := by
    intro s c t d e
    unfold addAligned
    exact .ite (keeps_round hctx _ _ _) (.ite (keeps_round hctx _ _ _)
      (.ite (keeps_round hctx _ _ _) (keeps_round hctx _ _ _)))
  have hordered : ∀ s c e t d f, ctx.Keeps (ctx.addOrdered s c e t d f) := by
    intro s c e t d f
    unfold addOrdered
    exact .ite (haligned _ _ _ _ _) (.ite (haligned _ _ _ _ _) (haligned _ _ _ _ _))
  unfold addFinite
  exact .ite (hordered _ _ _ _ _ _) (hordered _ _ _ _ _ _)

theorem keeps_add (a b : Decimal) : ctx.Keeps (ctx.add a b) := by
  cases a with
  | finite s c e =>
    cases b with
    | finite t d f => exact keeps_addFinite hctx _ _ _ _ _ _
    | infinite t => trivial
    | nan => exact keeps_passNaN ctx (.inr rfl)
  | infinite s =>
    cases b with
    | finite t d f => trivial
    | infinite t => exact .ite trivial trivial
    | nan => exact keeps_passNaN ctx (.inr rfl)
  | nan => cases b <;> exact keeps_passNaN ctx (.inl rfl)

theorem keeps_sub (a b : Decimal) : ctx.Keeps (ctx.sub a b) := by
  cases a with
  | finite s c e =>
    cases b with
    | finite t d f => exact keeps_addFinite hctx _ _ _ _ _ _
    | infinite t => trivial
    | nan => exact keeps_passNaN ctx (.inr rfl)
  | infinite s =>
    cases b with
    | finite t d f => trivial
    | infinite t => exact .ite trivial trivial
    | nan => exact keeps_passNaN ctx (.inr rfl)
  | nan => cases b <;> exact keeps_passNaN ctx (.inl rfl)

theorem keeps_mul (a b : Decimal) : ctx.Keeps (ctx.mul a b) := by
  cases a with
  | finite s c e =>
    cases b with
    | finite t d f => exact keeps_round hctx _ _ _
    | infinite t => exact .ite trivial trivial
    | nan => exact keeps_passNaN ctx (.inr rfl)
  | infinite s =>
    cases b with
    | finite t d f => exact .ite trivial trivial
    | infinite t => trivial
    | nan => exact keeps_passNaN ctx (.inr rfl)
  | nan => cases b <;> exact keeps_passNaN ctx (.inl rfl)

theorem keeps_divFinite (s : Bool) (c : Nat) (e : Int) (t : Bool) (d : Nat) (f : Int) :
    ctx.Keeps (ctx.divFinite s c e t d f) := by
  unfold divFinite
  exact .ite (keeps_round hctx _ _ _) (keeps_round hctx _ _ _)

theorem keeps_div (a b : Decimal) : ctx.Keeps (ctx.div a b) := by
  have htiny := hctx.tiny_nonpos
  have hmax := hctx.max_nonneg
  cases a with
  | finite s c e =>
    cases b with
    | finite t d f =>
      exact .ite (.ite trivial trivial) (.ite (keeps_round hctx _ _ _)
        (keeps_divFinite hctx _ _ _ _ _ _))
    | infinite t => exact hctx.keeps_zero (Int.le_refl _) (by omega) _
    | nan => exact keeps_passNaN ctx (.inr rfl)
  | infinite s =>
    cases b with
    | finite t d f => trivial
    | infinite t => trivial
    | nan => exact keeps_passNaN ctx (.inr rfl)
  | nan => cases b <;> exact keeps_passNaN ctx (.inl rfl)

/-! ## Exponentials and powers -/

theorem keeps_roundEnd (b : Nat) (x shift : Int) : ctx.Keeps (ctx.roundEnd b x shift) :=
  keeps_round hctx _ _ _

theorem keeps_settle (shift : Int) (f : Nat → Enclosure) (b attempts : Nat) :
    ctx.Keeps (ctx.settle shift f b attempts) := by
  induction attempts generalizing b with
  | zero => exact keeps_roundEnd hctx _ _ _
  | succ attempts ih => exact .ite (keeps_roundEnd hctx _ _ _) (ih _)

theorem keeps_paddedOne (s : Bool) : ctx.Keeps (ctx.paddedOne s) := by
  have hpos := hctx.precision_pos
  have hmin := hctx.min_nonpos
  have hmax := hctx.max_nonneg
  refine hctx.keeps_pow (by omega) ?_ (by omega) s
  unfold tiny
  omega

theorem keeps_expFinite (s : Bool) (c : Nat) (e : Int) :
    ctx.Keeps (ctx.expFinite s c e) := by
  have htiny := hctx.tiny_nonpos
  have hmax := hctx.max_nonneg
  unfold expFinite
  exact .ite (.ite (hctx.keeps_zero (Int.le_refl _) (by omega) _) trivial)
    (.ite (keeps_paddedOne hctx _) (keeps_settle hctx _ _ _ _))

theorem keeps_exp (a : Decimal) : ctx.Keeps (ctx.exp a) := by
  cases a with
  | finite s c e => exact .ite (keeps_signedOne hctx false) (keeps_expFinite hctx s c e)
  | infinite s => exact .ite (keeps_signedZero hctx false) trivial
  | nan s signaling payload => exact @keeps_quiet ctx (.nan s signaling payload) rfl

theorem keeps_e : ctx.Keeps ctx.e := keeps_exp hctx .one

theorem keeps_pi : ctx.Keeps ctx.pi := keeps_plus hctx _

theorem keeps_ofDouble (x : Double) : ctx.Keeps (ctx.ofDouble x) := keeps_plus hctx _

theorem keeps_powUnit (s : Bool) (base y : Decimal) : ctx.Keeps (ctx.powUnit s base y) := by
  have hpos := hctx.precision_pos
  have hmin := hctx.min_nonpos
  have hmax := hctx.max_nonneg
  cases base with
  | finite _ c e =>
    cases y with
    | finite t d f =>
      have hzeros : (if t then 0 else min ((finite t d f).toInt.toNat * (-e).toNat)
          (ctx.precision - 1)) ≤ ctx.precision - 1 := by
        split <;> omega
      refine .ite (hctx.keeps_pow (by omega) ?_ (by omega) s) (keeps_paddedOne hctx s)
      unfold tiny
      omega
    | _ => trivial
  | _ => trivial

theorem keeps_powReal (base y : Decimal) : ctx.Keeps (ctx.powReal base y) := by
  cases base with
  | finite s c e => exact .ite (keeps_paddedOne hctx _) (keeps_fit hctx _)
  | _ => trivial

theorem keeps_pow (base y : Decimal) : ctx.Keeps (ctx.pow base y) := by
  have hzero := keeps_signedZero hctx
  have hone := keeps_signedOne hctx
  unfold pow
  split
  · rename_i hnan
    exact keeps_passNaN ctx (by simpa using hnan)
  · refine .ite (.ite trivial (.ite trivial (hzero _))) (.ite trivial (.ite ?_ (.ite ?_ ?_)))
    · exact .ite (keeps_paddedOne hctx _) (.ite trivial (hzero _))
    · exact .ite (hone _) (.ite (hzero _) trivial)
    · exact .ite (hone _) (.ite (keeps_powUnit hctx _ _ _)
        (.ite (keeps_fit hctx _) (keeps_powReal hctx _ _)))

theorem keeps_power {base y d : Decimal} (h : ctx.power base y = .ok d) : ctx.Keeps d := by
  unfold power at h
  cases hx : y.toDouble with
  | error fault =>
    rw [hx] at h
    cases h
  | ok x =>
    rw [hx] at h
    simp only [bind, Except.bind] at h
    split at h
    · cases h
      exact keeps_signedOne hctx false
    · split at h
      · cases h
        exact keeps_pow hctx _ _
      · cases h
        exact keeps_pow hctx _ _

/-! ## Counts -/

theorem keeps_factorialFrom (i count : Nat) {d : Decimal} (hd : ctx.Keeps d) :
    ctx.Keeps (ctx.factorialFrom i count d) := by
  induction count generalizing i d with
  | zero => exact hd
  | succ count ih => exact ih _ (keeps_mul hctx _ _)

theorem keeps_chooseFrom (n k i count : Nat) {d : Decimal} (hd : ctx.Keeps d) :
    ctx.Keeps (ctx.chooseFrom n k i count d) := by
  induction count generalizing i d with
  | zero => exact hd
  | succ count ih => exact ih _ (keeps_div hctx _ _)

theorem keeps_arrangeFrom (n i count : Nat) {d : Decimal} (hd : ctx.Keeps d) :
    ctx.Keeps (ctx.arrangeFrom n i count d) := by
  induction count generalizing i d with
  | zero => exact hd
  | succ count ih => exact ih _ (keeps_mul hctx _ _)

theorem keeps_factorial (n : Int) : ctx.Keeps (ctx.factorial n) :=
  keeps_factorialFrom hctx _ _ (keeps_signedOne hctx false)

theorem keeps_choose (n r : Int) : ctx.Keeps (ctx.choose n r) :=
  .ite (keeps_chooseFrom hctx _ _ _ _ (keeps_signedOne hctx false)) (keeps_signedZero hctx false)

theorem keeps_arrange (n r : Int) : ctx.Keeps (ctx.arrange n r) :=
  .ite (keeps_arrangeFrom hctx _ _ _ (keeps_signedOne hctx false)) (keeps_signedZero hctx false)

end Context

end DeskCalculator
