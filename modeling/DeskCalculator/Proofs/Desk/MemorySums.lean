import DeskCalculator.Proofs.Decimal.HalfUp
import DeskCalculator.Proofs.Decimal.NonFinite
import DeskCalculator.Proofs.Decimal.SumOverflow
import DeskCalculator.Proofs.Stack.Results

/-!
# Sums of integers in the memory

A cleared memory is the decimal zero, and a decimal is what adding an integer to a decimal gives. So
the memory holds every sum rounded half up, until one overflows, and it holds the exact sums just as
long as the context can keep them (`Desk.memory_sums`). A memory that is an exact integer stays one
and is never rounded (`Desk.memory_afterSteps_exact`).
-/

namespace DeskCalculator

/-- A change of the memory by an integer. -/
inductive MemoryStep where
  | add (n : Int)
  | subtract (n : Int)
  deriving DecidableEq, Repr

def MemoryStep.change : MemoryStep → Int
  | add n => n
  | subtract n => -n

def MemoryStep.total (steps : List MemoryStep) : Int := (steps.map change).sum

namespace Context

open Decimal

variable {ctx : Context} {x : ℚ}

/-- A number that the context can keep as it is. -/
def CanKeep (ctx : Context) (x : ℚ) : Prop := ∃ c e, ctx.Represents c e ∧ |x| = scaled c e

/-- A number as the context rounds it, if it does not overflow. -/
def rounded? (ctx : Context) (x : ℚ) : Option ℚ :=
  if |x| < ctx.overflowBound then some (roundHalfUp ctx.precision x) else none

theorem Keeps.canKeep {d : Decimal} (h : ctx.Keeps d) (hx : d.toRat? = some x) :
    ctx.CanKeep x := by
  cases d with
  | finite s c e =>
    obtain rfl := Option.some.inj hx
    exact ⟨c, e, h, abs_ite_neg s (scaled_nonneg c e)⟩
  | infinite s => cases hx
  | nan s signaling payload => cases hx

theorem CanKeep.roundHalfUp (h : ctx.CanKeep x) : roundHalfUp ctx.precision x = x := by
  obtain ⟨c, e, hrepresents, heq⟩ := h
  have hscaled := roundHalfUp_scaled hrepresents.digitCount_le e
  rcases abs_choice x with habs | habs
  · rwa [← heq, habs] at hscaled
  · rw [← heq, habs, roundHalfUp_neg] at hscaled
    exact neg_injective hscaled

theorem CanKeep.rounded? (h : ctx.CanKeep x) : ctx.rounded? x = some x := by
  rw [Context.rounded?, h.roundHalfUp, if_pos]
  obtain ⟨c, e, hrepresents, heq⟩ := h
  exact heq ▸ hrepresents.scaled_lt

theorem Rounds.toRat?_eq {d : Decimal} (h : ctx.Rounds x d) (hctx : ctx.IsWide)
    (hmode : ctx.rounding = .halfUp) (hmin : x ≠ 0 → 10 ^ ctx.minExponent ≤ |x|) :
    d.toRat? = ctx.rounded? x := by
  have hfinite := h.isFinite_iff hctx
  unfold Context.rounded?
  split
  · rename_i hlt
    exact h.toRat? hctx hmode hmin (hfinite.2 hlt)
  · rename_i hge
    exact toRat?_eq_none_iff.2 (Bool.eq_false_iff.2 fun h => hge (hfinite.1 h))

/-! ## Integers -/

theorem exists_int_roundHalfUp (k : Nat) (n : ℤ) :
    ∃ m : ℤ, DeskCalculator.roundHalfUp k n = m := by
  by_cases hn : n = 0
  · exact ⟨0, by simp [hn]⟩
  have hn : n.natAbs ≠ 0 := Int.natAbs_ne_zero.2 hn
  have habs : |(n : ℚ)| = scaled n.natAbs 0 := by simp [scaled, Nat.cast_natAbs]
  by_cases hdigits : Numeral.digitCount n.natAbs ≤ k
  · have hscaled := roundHalfUp_scaled hdigits 0
    rw [← habs] at hscaled
    rcases abs_choice (n : ℚ) with h | h
    · exact ⟨n, h ▸ hscaled⟩
    · rw [h, roundHalfUp_neg] at hscaled
      exact ⟨n, neg_injective hscaled⟩
  · -- the unit of the last digit is a whole number
    obtain ⟨i, hi⟩ : ∃ i : Nat, leadingExponent n.natAbs 0 + 1 - k = i :=
      ⟨Numeral.digitCount n.natAbs - k, by unfold leadingExponent; omega⟩
    rw [DeskCalculator.roundHalfUp, digitUnit_eq hn habs, habs, hi]
    refine ⟨SignType.sign (n : ℚ) * ⌊scaled n.natAbs 0 / 10 ^ (i : Int) + 1 / 2⌋ * 10 ^ i, ?_⟩
    push_cast
    rfl

theorem zpow_minExponent_le (hmin : ctx.minExponent ≤ 0) {n : ℤ} (hn : (n : ℚ) ≠ 0) :
    10 ^ ctx.minExponent ≤ |(n : ℚ)| := by
  have hone : (1 : ℤ) ≤ |n| := Int.one_le_abs (by exact_mod_cast hn)
  calc (10 : ℚ) ^ ctx.minExponent ≤ 10 ^ (0 : Int) := zpow_le_zpow_right₀ (by norm_num) hmin
    _ ≤ |(n : ℚ)| := by exact_mod_cast hone

/-- The sum of all steps, with every partial sum rounded. -/
def roundedSum (ctx : Context) (steps : List MemoryStep) : Option ℚ :=
  steps.foldl (fun sum step => sum.bind fun x => ctx.rounded? (x + step.change)) (some 0)

theorem roundedSum_append_singleton (ctx : Context) (steps : List MemoryStep) (step : MemoryStep) :
    ctx.roundedSum (steps ++ [step]) =
      (ctx.roundedSum steps).bind fun x => ctx.rounded? (x + step.change) := by
  rw [roundedSum, List.foldl_append]
  rfl

theorem roundedSum_of_canKeep {steps : List MemoryStep}
    (h : ∀ front, front <+: steps → ctx.CanKeep (MemoryStep.total front)) :
    ctx.roundedSum steps = some (MemoryStep.total steps : ℚ) := by
  induction steps using List.reverseRecOn with
  | nil => simp [roundedSum, MemoryStep.total]
  | append_singleton steps step ih =>
    have hsum := (h _ (List.prefix_refl _)).rounded?
    have htotal : (MemoryStep.total steps : ℚ) + step.change =
        (MemoryStep.total (steps ++ [step]) : ℚ) := by
      simp [MemoryStep.total]
    have hfront := ih fun front hfront => h _ (hfront.trans (List.prefix_append _ _))
    rw [roundedSum_append_singleton, hfront, Option.bind_some, htotal, hsum]

end Context

/-! ## The memory -/

namespace Desk

open Decimal

variable {desk : Desk} {step : MemoryStep} {steps : List MemoryStep} {sum : Option ℚ}

def afterStep (desk : Desk) : MemoryStep → Desk
  | .add n => desk.memoryAdd (.exact n)
  | .subtract n => desk.memorySubtract (.exact n)

def afterSteps (desk : Desk) (steps : List MemoryStep) : Desk := steps.foldl afterStep desk

@[simp] theorem context_afterStep (desk : Desk) (step : MemoryStep) :
    (desk.afterStep step).context = desk.context := by
  cases step <;> rfl

@[simp] theorem context_afterSteps (desk : Desk) (steps : List MemoryStep) :
    (desk.afterSteps steps).context = desk.context := by
  induction steps generalizing desk with
  | nil => rfl
  | cons step steps ih => exact (ih _).trans (context_afterStep desk step)

theorem memory_afterSteps_exact {m : Int} (h : desk.memory = .exact m) :
    (desk.afterSteps steps).memory = .exact (m + MemoryStep.total steps) := by
  induction steps generalizing desk m with
  | nil => simpa [afterSteps, MemoryStep.total] using h
  | cons step steps ih =>
    have hstep : (desk.afterStep step).memory = .exact (m + step.change) := by
      cases step <;> simp [afterStep, memoryAdd, memorySubtract, sum, difference, h,
        MemoryStep.change, Int.sub_eq_add_neg]
    refine (ih hstep).trans ?_
    rw [Int.add_assoc]
    rfl

/-- **A step** from a decimal on rounds the exact sum once. -/
theorem exists_memory_afterStep {d : Decimal} (h : desk.memory = .decimal d) (step : MemoryStep) :
    ∃ d', (desk.afterStep step).memory = .decimal d' ∧ desk.context.Keeps d' ∧
      (∀ x, d.toRat? = some x → desk.context.Rounds (x + step.change) d') ∧
      (d.toRat? = none → d'.toRat? = none) := by
  have hpos := desk.isWide_context.precision_pos
  cases step with
  | add n =>
    have hn : (Decimal.ofInt n).toRat? = some (n : ℚ) := (standsFor_ofInt n).toRat?
    refine ⟨desk.context.add d (.ofInt n), ?_,
      Context.keeps_add desk.isModerate_context _ _, ?_, ?_⟩
    · simp [afterStep, memoryAdd, Desk.sum, h, Value.toDecimal]
    · exact fun x hx => Context.rounds_add hpos hx hn
    · exact fun hd => toRat?_eq_none_iff.2 (Context.isFinite_add _ (.inl (toRat?_eq_none_iff.1 hd)))
  | subtract n =>
    have hn : (Decimal.ofInt n).toRat? = some (n : ℚ) := (standsFor_ofInt n).toRat?
    refine ⟨desk.context.sub d (.ofInt n), ?_,
      Context.keeps_sub desk.isModerate_context _ _, ?_, ?_⟩
    · simp [afterStep, memorySubtract, difference, h, Value.toDecimal]
    · intro x hx
      have hrounds := Context.rounds_sub hpos hx hn
      rwa [sub_eq_add_neg, ← Int.cast_neg] at hrounds
    · exact fun hd => toRat?_eq_none_iff.2 (Context.isFinite_sub _ (.inl (toRat?_eq_none_iff.1 hd)))

/-- The memory is a decimal that the context can keep: an integer, or beyond the range of the
decimals. -/
structure HoldsSum (desk : Desk) (sum : Option ℚ) : Prop where
  memory : ∃ d, desk.memory = .decimal d ∧ desk.context.Keeps d ∧ d.toRat? = sum
  integer : ∀ x ∈ sum, ∃ n : ℤ, x = n

theorem holdsSum_memoryClear (desk : Desk) : desk.memoryClear.HoldsSum (some 0) where
  memory := ⟨.zero, rfl, Context.keeps_signedZero desk.isModerate_context false, by
    simp [Decimal.zero, Decimal.ofNat, Decimal.toRat?, scaled]⟩
  integer x hx := ⟨0, by simpa using hx.symm⟩

theorem HoldsSum.afterStep (h : desk.HoldsSum sum) (step : MemoryStep) :
    (desk.afterStep step).HoldsSum
      (sum.bind fun x => desk.context.rounded? (x + step.change)) := by
  obtain ⟨⟨d, hmemory, -, hsum⟩, hinteger⟩ := h
  obtain ⟨d', hmemory', hkeeps', hrounds, hlost⟩ := exists_memory_afterStep hmemory step
  have hkeeps' : (desk.afterStep step).context.Keeps d' := by rwa [context_afterStep]
  cases sum with
  | none => exact ⟨⟨d', hmemory', hkeeps', hlost hsum⟩, by simp⟩
  | some x =>
    obtain ⟨n, rfl⟩ := hinteger x rfl
    have hstep := hrounds n hsum
    rw [← Int.cast_add] at hstep
    refine ⟨⟨d', hmemory', hkeeps', ?_⟩, ?_⟩
    · rw [hstep.toRat?_eq desk.isWide_context rfl
        (Context.zpow_minExponent_le desk.isModerate_context.min_nonpos), Int.cast_add]
      rfl
    · rintro y hy
      rw [Option.bind_some, ← Int.cast_add, Context.rounded?] at hy
      split at hy
      · obtain ⟨m, hm⟩ := Context.exists_int_roundHalfUp desk.context.precision (n + step.change)
        exact ⟨m, (Option.some.inj hy).symm.trans hm⟩
      · cases hy

/-- **All steps** from a decimal on. -/
theorem HoldsSum.afterSteps (h : desk.HoldsSum sum) (steps : List MemoryStep) :
    (desk.afterSteps steps).HoldsSum
      (steps.foldl (fun sum step => sum.bind fun x => desk.context.rounded? (x + step.change))
        sum) := by
  induction steps generalizing desk sum with
  | nil => exact h
  | cons step steps ih =>
    have hnext := ih (h.afterStep step)
    rwa [context_afterStep] at hnext

theorem HoldsSum.toRat?_memory (h : desk.HoldsSum sum) : desk.memory.toRat? = sum := by
  obtain ⟨d, hmemory, -, hsum⟩ := h.memory
  rwa [hmemory]

theorem HoldsSum.canKeep {x : ℚ} (h : desk.HoldsSum (some x)) : desk.context.CanKeep x := by
  obtain ⟨d, -, hkeeps, hsum⟩ := h.memory
  exact hkeeps.canKeep hsum

theorem holdsSum_afterSteps (desk : Desk) (steps : List MemoryStep) :
    (desk.memoryClear.afterSteps steps).HoldsSum (desk.context.roundedSum steps) :=
  desk.holdsSum_memoryClear.afterSteps steps

theorem canKeep_total (h : (desk.memoryClear.afterSteps steps).memory.toRat? =
    some (MemoryStep.total steps : ℚ)) : desk.context.CanKeep (MemoryStep.total steps) := by
  have hholds := desk.holdsSum_afterSteps steps
  rw [← hholds.toRat?_memory, h] at hholds
  have hkeep := hholds.canKeep
  rwa [context_afterSteps] at hkeep

/-- **The memory after any steps from a cleared one** holds their sum with every partial sum rounded
half up to the precision. It is the exact sum all along just if the context can keep all the partial
sums: if none of them has more digits than the precision, zeros at the end apart, and none is beyond
the range of the decimals. So a single integer is recalled just if the context can keep it. -/
theorem memory_sums (desk : Desk) (steps : List MemoryStep) :
    (desk.memoryClear.afterSteps steps).memory.toRat? = desk.context.roundedSum steps ∧
    ((∀ front, front <+: steps →
        (desk.memoryClear.afterSteps front).memory.toRat? = some (MemoryStep.total front : ℚ)) ↔
      ∀ front, front <+: steps → desk.context.CanKeep (MemoryStep.total front)) ∧
    ∀ n : Int, (desk.memoryClear.memoryAdd (.exact n)).memory.toRat? = some (n : ℚ) ↔
      desk.context.CanKeep n := by
  refine ⟨(desk.holdsSum_afterSteps steps).toRat?_memory,
    ⟨fun h front hfront => canKeep_total (h front hfront), fun h front hfront => ?_⟩,
    fun n => ⟨fun h => ?_, fun h => ?_⟩⟩
  · rw [(desk.holdsSum_afterSteps front).toRat?_memory]
    exact Context.roundedSum_of_canKeep fun first hfirst => h first (hfirst.trans hfront)
  · have hkeep : desk.context.CanKeep (MemoryStep.total [.add n]) :=
      canKeep_total (by simpa [afterSteps, afterStep, MemoryStep.total, MemoryStep.change] using h)
    simpa [MemoryStep.total, MemoryStep.change] using hkeep
  · have hsum := (desk.holdsSum_afterSteps [.add n]).toRat?_memory
    refine hsum.trans ?_
    simpa [Context.roundedSum, MemoryStep.change] using h.rounded?

/-- With the standard precision an integer of 35 digits is not recalled. -/
theorem memory_sum_inexact :
    let steps := [MemoryStep.add 10000000000000000000000000000000001]
    let memory := Value.decimal (.finite false 1000000000000000000000000000000000 1)
    (({} : Desk).memoryClear.afterSteps steps).memory = memory ∧
      ¬ ∀ (desk : Desk) (steps : List MemoryStep),
        (desk.memoryClear.afterSteps steps).memory.toRat? = some (MemoryStep.total steps : ℚ) := by
  intro steps memory
  have hmemory : (({} : Desk).memoryClear.afterSteps steps).memory = memory := by decide +kernel
  refine ⟨hmemory, fun h => ?_⟩
  have hsum := h {} steps
  rw [hmemory] at hsum
  norm_num [steps, memory, MemoryStep.total, MemoryStep.change, Value.toRat?, Decimal.toRat?,
    scaled] at hsum

/-- A new desk is one with a cleared memory. -/
example (p : Precision) : ({ precision := p } : Desk).memoryClear = { precision := p } := rfl

end Desk

end DeskCalculator
