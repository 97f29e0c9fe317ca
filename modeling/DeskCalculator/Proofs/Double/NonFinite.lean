import DeskCalculator.Proofs.Value.Yields
import DeskCalculator.Value.Gamma

/-!
# Infinities and NaNs through the functions on doubles

Most functions give no finite number for an argument that is not finite (`Propagates`): they pass
the infinity or the NaN on, or they fail. The others have a limit at an infinity: `exp` at the
negative one, the arc tangent, the hyperbolic tangent and the error function at both, and a power in
the cases of `pow_cases`.
-/

namespace DeskCalculator.Double

/-! ## Arithmetic -/

section Arithmetic

variable {x y : Double}

theorem isFinite_add (h : x.isFinite = false ∨ y.isFinite = false) :
    (x.add y).isFinite = false := by
  cases x with
  | nan => rfl
  | infinite s =>
    cases y with
    | infinite t => cases s <;> cases t <;> rfl
    | _ => rfl
  | finite s m q =>
    cases y with
    | finite t n r => rcases h with h | h <;> cases h
    | _ => rfl

theorem isFinite_sub (h : x.isFinite = false ∨ y.isFinite = false) : (x.sub y).isFinite = false :=
  isFinite_add (h.imp_right fun hy => by cases y <;> first | rfl | cases hy)

theorem nan_mul (y : Double) : nan.mul y = nan := rfl

theorem div_nan (x : Double) : x.div nan = nan := by cases x <;> rfl

end Arithmetic

/-! ## Functions of one argument -/

/-- A function that gives no finite number for an argument that is not finite. -/
def Propagates (f : Double → Except ArithmeticFault Double) : Prop :=
  ∀ x, x.isFinite = false → Yields (·.isFinite = false) (f x)

theorem yields_of_all {p : Double → Bool} {r : Except ArithmeticFault Double}
    (h : r.toOption.all p) : Yields (p ·) r := by
  rintro a rfl
  exact h

theorem propagates_of_all {f : Double → Except ArithmeticFault Double}
    (hnan : (f nan).toOption.all (!·.isFinite))
    (hinfinite : ∀ s, (f (infinite s)).toOption.all (!·.isFinite)) : Propagates f := by
  intro x hx
  cases x with
  | nan => simpa using yields_of_all hnan
  | infinite s => simpa using yields_of_all (hinfinite s)
  | finite => cases hx

theorem propagates_sin : Propagates sin := propagates_of_all (by decide) (by decide)

theorem propagates_cos : Propagates cos := propagates_of_all (by decide) (by decide)

theorem propagates_tan : Propagates tan := propagates_of_all (by decide) (by decide)

theorem propagates_asin : Propagates asin := propagates_of_all (by decide) (by decide)

theorem propagates_acos : Propagates acos := propagates_of_all (by decide) (by decide)

theorem propagates_sinh : Propagates sinh := propagates_of_all (by decide) (by decide)

theorem propagates_cosh : Propagates cosh := propagates_of_all (by decide) (by decide)

theorem propagates_asinh : Propagates asinh := propagates_of_all (by decide) (by decide)

theorem propagates_acosh : Propagates acosh := propagates_of_all (by decide) (by decide)

theorem propagates_atanh : Propagates atanh := propagates_of_all (by decide) (by decide)

theorem propagates_log : Propagates log := propagates_of_all (by decide) (by decide)

theorem propagates_log10 : Propagates log10 := propagates_of_all (by decide) (by decide)

theorem propagates_squareRoot : Propagates squareRoot := propagates_of_all (by decide) (by decide)

/-- Gamma at the positive infinity is a NaN, since its decaying factor vanishes there. -/
theorem isNaN_gamma {x : Double} (hx : x.isFinite = false) : Yields (· = nan) (gamma x) := by
  have hnan : (gamma x).toOption.all (· = nan) := by
    cases x with
    | nan => decide +kernel
    | infinite s => cases s <;> decide +kernel
    | finite => cases hx
  simpa using yields_of_all hnan

theorem propagates_gamma : Propagates gamma := fun _ hx =>
  (isNaN_gamma hx).mono fun _ h => h ▸ rfl

/-- Functions with a limit at an infinity still pass a NaN on. -/
theorem isFinite_exp {x : Double} (hx : x.isFinite = false) (hne : x ≠ infinite true) :
    Yields (·.isFinite = false) (exp x) := by
  cases x with
  | nan => exact yields_ok rfl
  | infinite s =>
    cases s with
    | false => exact yields_ok rfl
    | true => exact absurd rfl hne
  | finite => cases hx

theorem isFinite_tanh_nan : Yields (·.isFinite = false) (tanh nan) := yields_ok rfl

theorem isFinite_erf_nan : Yields (·.isFinite = false) (erf nan) := by
  have hnan : (erf nan).toOption.all (!·.isFinite) := by decide +kernel
  simpa using yields_of_all hnan

/-! ## Functions of two arguments -/

section Two

variable {x y : Double} (h : x.isFinite = false ∨ y.isFinite = false)
include h

theorem isFinite_choose : Yields (·.isFinite = false) (choose x y) := by
  refine .bind fun top htop => .bind fun left hleft => .bind fun right hright => ?_
  have hone : x.isFinite = false → top = nan :=
    fun hx => isNaN_gamma (isFinite_add (.inl hx)) _ htop
  have hquotient : top = nan ∨ left = nan := by
    refine h.imp hone fun hy => isNaN_gamma (isFinite_add (.inl hy)) _ hleft
  unfold quotient
  refine .ite (yields_error _) (yields_ok ?_)
  rcases hquotient with rfl | rfl
  · rfl
  · rw [nan_mul, div_nan]
    rfl

theorem isFinite_arrange : Yields (·.isFinite = false) (arrange x y) := by
  refine .bind fun top htop => .bind fun bottom hbottom => ?_
  have hnan : bottom = nan := isNaN_gamma (isFinite_add (.inl (isFinite_sub h))) _ hbottom
  unfold quotient
  refine .ite (yields_error _) (yields_ok ?_)
  rw [hnan, div_nan]
  rfl

/-- **A power** with an operand that is not finite is finite if the exponent is zero, the base one,
the base infinite and the exponent negative, or the exponent infinite with a base that does not
grow. -/
theorem pow_cases {z : Double} (hpow : pow x y = .ok z) (hz : z.isFinite) :
    y.isZero ∨ x = ofNat 1 ∨ (∃ s, x = infinite s) ∧ y.isNegative ∨ x.isFinite ∧ y.isInfinite := by
  have hspecial : (!x.isFinite || !y.isFinite) = true := by rcases h with h | h <;> simp [h]
  rw [pow, if_pos hspecial, Except.ok.injEq] at hpow
  subst hpow
  cases x with
  | nan =>
    rw [powSpecial] at hz
    split at hz
    · exact .inl ‹_›
    · cases hz
  | infinite s =>
    cases y with
    | nan =>
      rw [powSpecial] at hz
      split at hz
      · exact .inr (.inl ‹_›)
      · cases hz
      all_goals nofun
    | _ =>
      simp only [powSpecial] at hz
      split at hz
      · exact .inl ‹_›
      · split at hz
        · exact .inr (.inr (.inl ⟨⟨s, rfl⟩, ‹_›⟩))
        · cases hz
  | finite s m q =>
    cases y with
    | nan =>
      rw [powSpecial] at hz
      · split at hz
        · exact .inr (.inl ‹_›)
        · cases hz
      all_goals nofun
    | infinite t => exact .inr (.inr (.inr ⟨rfl, rfl⟩))
    | finite => rcases h with h | h <;> cases h

end Two

end DeskCalculator.Double
