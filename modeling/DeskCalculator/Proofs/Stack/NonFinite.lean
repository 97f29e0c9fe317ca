import DeskCalculator.Evaluation
import DeskCalculator.Proofs.Decimal.NonFinite
import DeskCalculator.Proofs.Stack.Faults
import DeskCalculator.Proofs.Stack.Step

/-!
# Whether an infinity or a NaN is told

A run fails if the value that it ends with is not finite. A value that is not finite and is stacked
on the way is passed on by most operations, so that the run fails too. `Absorbs` lists the others:
quotients, powers, roots and functions with a limit make a finite value of it. So a run that stacks
something that is not finite fails unless one of them comes upon it
(`run_fails_of_stacksNonFinite_iff`).
-/

namespace DeskCalculator

theorem Value.isFinite_toDecimal (v : Value) : v.toDecimal.isFinite = v.isFinite := by
  cases v <;> rfl

theorem Value.isFinite_toDouble {v : Value} (h : v.isFinite = false) :
    Yields (·.isFinite = false) v.toDouble := by
  cases v with
  | exact n => cases h
  | decimal d => exact Decimal.isFinite_toDouble h

namespace Stack

/-- An item and its operands, the topmost first, of which some value is not finite, that may still
give a finite value. -/
inductive Absorbs : Item → List Value → Prop
  /-- A finite number over an infinity is zero. -/
  | quotient {a : Value} (t : Bool) (ha : a.isFinite) :
      Absorbs (.operator .divide) [.decimal (.infinite t), a]
  /-- A power is one if its exponent is zero as a double, whatever the base. -/
  | zerothPower {a b : Value} {x : Double} (ha : a.isFinite = false)
      (hx : b.toDecimal.toDouble = .ok x) (hzero : x.isZero) : Absorbs (.operator .power) [b, a]
  /-- A negative power of an infinity is zero; of the negative one, if the exponent is whole. -/
  | negativePower {b : Value} {x : Double} (s : Bool) (hx : b.toDecimal.toDouble = .ok x)
      (hneg : x.isNegative) (hwhole : s → x.isWhole) :
      Absorbs (.operator .power) [b, .decimal (.infinite s)]
  /-- A power with an infinite exponent is zero or one if the base does not grow. -/
  | infinitePower {a : Value} (t : Bool) (ha : a.isFinite)
      (hbounded : a.toDecimal.isBoundedToward t) :
      Absorbs (.operator .power) [.decimal (.infinite t), a]
  /-- The exponential vanishes at the negative infinity. -/
  | exponential {name : Text} (hname : Function.ofName? name = some .exp) :
      Absorbs (.call name (some 1)) [.decimal (.infinite true)]
  /-- Three functions have a limit at both infinities. -/
  | limit {name : Text} {f : Function} (s : Bool) (hname : Function.ofName? name = some f)
      (hf : f = .atan ∨ f = .tanh ∨ f = .erf) :
      Absorbs (.call name (some 1)) [.decimal (.infinite s)]
  /-- A root is one if the reciprocal of its degree is zero as a double. -/
  | zerothRoot {name : Text} {a n : Value} {y z : Double}
      (hname : Function.ofName? name = some .root) (h : a.isFinite = false ∨ n.isFinite = false)
      (hy : n.toDouble = .ok y) (hz : (Double.ofNat 1).quotient y = .ok z) (hzero : z.isZero) :
      Absorbs (.call name (some 2)) [n, a]
  /-- A root of one is one, even if its degree is a NaN. -/
  | rootOfOne {name : Text} {a : Value} {d : Decimal} (hname : Function.ofName? name = some .root)
      (hd : d.isNaN) (ha : a.toDouble = .ok (.ofNat 1)) :
      Absorbs (.call name (some 2)) [.decimal d, a]
  /-- A root of an infinity with a negative degree is zero. -/
  | negativeRoot {name : Text} {n : Value} {y z : Double} (s : Bool)
      (hname : Function.ofName? name = some .root) (hy : n.toDouble = .ok y)
      (hz : (Double.ofNat 1).quotient y = .ok z) (hneg : z.isNegative) :
      Absorbs (.call name (some 2)) [n, .decimal (.infinite s)]

theorem Absorbs.exists_not_isFinite {item : Item} {operands : List Value}
    (h : Absorbs item operands) : ∃ w ∈ operands, w.isFinite = false := by
  cases h with
  | quotient t ha => exact ⟨.decimal (.infinite t), by simp, rfl⟩
  | zerothPower ha => exact ⟨_, by simp, ha⟩
  | negativePower s => exact ⟨.decimal (.infinite s), by simp, rfl⟩
  | infinitePower t => exact ⟨.decimal (.infinite t), by simp, rfl⟩
  | exponential => exact ⟨.decimal (.infinite true), by simp, rfl⟩
  | limit s => exact ⟨.decimal (.infinite s), by simp, rfl⟩
  | zerothRoot _ h =>
    rcases h with h | h
    · exact ⟨_, by simp, h⟩
    · exact ⟨_, by simp, h⟩
  | @rootOfOne _ _ d _ hd =>
    refine ⟨.decimal d, by simp, ?_⟩
    cases d with
    | nan => rfl
    | _ => cases hd
  | negativeRoot s => exact ⟨.decimal (.infinite s), by simp, rfl⟩

end Stack

namespace Operations

variable (desk : Desk) {a b v w : Value}

/-! ## Signs and operators -/

theorem isFinite_negate (h : v.isFinite = false) : (negate desk v).isFinite = false := by
  cases v with
  | exact n => cases h
  | decimal d => exact Context.isFinite_minus desk.context h

theorem isFinite_ofDouble {r : Except ArithmeticFault Double} (h : Yields (·.isFinite = false) r) :
    Yields (·.isFinite = false) (ofDouble desk r) :=
  .map (h.mono fun _ hx => Context.isFinite_ofDouble desk.context hx)

theorem isFinite_factorial (h : v.isFinite = false) :
    Yields (·.isFinite = false) (factorial desk v) := by
  cases v with
  | exact n => cases h
  | decimal d =>
    intro w hw
    have hwhole : (d.isIntegral && (!d.isNegative || d.isZero)) = false := by
      cases d with
      | finite => cases h
      | _ => rfl
    have hgamma : Yields (·.isFinite = false) (decimalFactorial desk d) := by
      unfold decimalFactorial
      rw [hwhole]
      refine isFinite_ofDouble desk (.bind ((Decimal.isFinite_toDouble h).mono fun x hx => ?_))
      exact Double.propagates_gamma _ (Double.isFinite_add (.inl hx))
    exact hgamma w (named_eq_ok_iff.1 hw)

theorem isFinite_percent (h : v.isFinite = false) :
    Yields (·.isFinite = false) (percent desk v) := by
  cases v with
  | exact n => cases h
  | decimal d => exact yields_ok (Context.isFinite_div_left desk.context h)

theorem operate_eq_decimalOperate (h : a.isFinite = false ∨ b.isFinite = false) (symbol : Symbol) :
    operate desk symbol a b = decimalOperate desk symbol a.toDecimal b.toDecimal := by
  cases a with
  | decimal d => rfl
  | exact m =>
    cases b with
    | decimal d => rfl
    | exact n => rcases h with h | h <;> cases h

theorem absorbs_of_operate {symbol : Symbol} (h : a.isFinite = false ∨ b.isFinite = false)
    (hv : operate desk symbol a b = .ok v) (hfinite : v.isFinite) :
    Stack.Absorbs (.operator symbol) [b, a] := by
  have hdecimal : a.toDecimal.isFinite = false ∨ b.toDecimal.isFinite = false := by
    rwa [Value.isFinite_toDecimal, Value.isFinite_toDecimal]
  have hinfinite : ∀ {u : Value} {t}, u.toDecimal = .infinite t → u = .decimal (.infinite t) := by
    intro u t hu
    cases u with
    | exact n => cases hu
    | decimal d => exact congrArg _ hu
  rw [operate_eq_decimalOperate desk h] at hv
  cases symbol with
  | plus =>
    cases hv
    simp [Value.isFinite, Context.isFinite_add desk.context hdecimal] at hfinite
  | minus =>
    cases hv
    simp [Value.isFinite, Context.isFinite_sub desk.context hdecimal] at hfinite
  | times =>
    cases hv
    simp [Value.isFinite, Context.isFinite_mul desk.context hdecimal] at hfinite
  | divide =>
    simp only [decimalOperate] at hv
    split at hv
    · cases hv
    · cases hv
      obtain ⟨ha, t, hb⟩ := Context.div_cases desk.context hdecimal hfinite
      rw [hinfinite hb]
      exact .quotient t (by rwa [← Value.isFinite_toDecimal])
  | power =>
    have hpower := named_eq_ok_iff.1 hv
    cases hd : desk.context.power a.toDecimal b.toDecimal with
    | error e =>
      rw [hd] at hpower
      cases hpower
    | ok d =>
      rw [hd] at hpower
      cases hpower
      obtain ⟨x, hx, ⟨ha, hzero⟩ | ⟨s, ha, hneg, hwhole⟩ | ⟨t, hb, ha, hbounded⟩⟩ :=
        Context.power_cases desk.context hdecimal hd hfinite
      · exact .zerothPower (by rwa [← Value.isFinite_toDecimal]) hx hzero
      · rw [hinfinite ha]
        exact .negativePower s hx hneg hwhole
      · rw [hinfinite hb]
        exact .infinitePower t (by rwa [← Value.isFinite_toDecimal]) hbounded
  | _ => cases hv

/-! ## Functions -/

theorem isFinite_toRadians (h : v.isFinite = false) :
    Yields (·.isFinite = false) (toRadians desk v) := by
  refine .ite ?_ (Value.isFinite_toDouble h)
  refine Decimal.isFinite_toDouble (Context.isFinite_div_left _ (Context.isFinite_mul _ (.inl ?_)))
  rwa [Value.isFinite_toDecimal]

theorem isFinite_fromRadians {x : Double} (h : x.isFinite = false) :
    (fromRadians desk x).isFinite = false := by
  have hd := Context.isFinite_ofDouble desk.context h
  unfold fromRadians
  simp only
  split
  · exact Context.isFinite_div_left _ (Context.isFinite_mul _ (.inl hd))
  · exact hd

section Propagates

variable {f : Double → Except ArithmeticFault Double} (hf : Double.Propagates f)
include hf

theorem isFinite_ofAngle (h : v.isFinite = false) :
    Yields (·.isFinite = false) (ofAngle desk f v) :=
  .bind ((isFinite_toRadians desk h).mono fun x hx => isFinite_ofDouble desk (hf x hx))

theorem isFinite_toAngle (h : v.isFinite = false) :
    Yields (·.isFinite = false) (toAngle desk f v) :=
  .bind ((Value.isFinite_toDouble h).mono fun x hx =>
    .bind ((hf x hx).mono fun _ hy => yields_ok (isFinite_fromRadians desk hy)))

theorem isFinite_inDoubles (h : v.isFinite = false) :
    Yields (·.isFinite = false) (inDoubles desk f v) :=
  .bind ((Value.isFinite_toDouble h).mono fun x hx => isFinite_ofDouble desk (hf x hx))

end Propagates

theorem isFinite_magnitude (h : v.isFinite = false) : (magnitude desk v).isFinite = false := by
  cases v with
  | exact n => cases h
  | decimal d => exact Context.isFinite_abs desk.context h

theorem isFinite_applyOne_nan {f : Function} (hf : f = .atan ∨ f = .tanh ∨ f = .erf) {d : Decimal}
    (hd : d.isNaN) : Yields (·.isFinite = false) (applyOne desk f (.decimal d)) := by
  cases d with
  | nan s signaling payload =>
    cases signaling with
    | true => rcases hf with rfl | rfl | rfl <;> exact yields_error _
    | false =>
      rcases hf with rfl | rfl | rfl
      · exact .bind (yields_ok (yields_ok (isFinite_fromRadians desk rfl)))
      · exact isFinite_ofDouble desk Double.isFinite_tanh_nan
      · exact isFinite_ofDouble desk Double.isFinite_erf_nan
  | _ => cases hd

theorem absorbs_of_applyOne {name : Text} {f : Function} (hname : Function.ofName? name = some f)
    (hv : v.isFinite = false) (h : applyOne desk f v = .ok w) (hw : w.isFinite) :
    Stack.Absorbs (.call name (some 1)) [v] := by
  have habsurd : ¬ Yields (·.isFinite = false) (applyOne desk f v) := fun hlost => by
    simp [hlost w h] at hw
  cases v with
  | exact n => cases hv
  | decimal d =>
    have hlimit : f = .atan ∨ f = .tanh ∨ f = .erf →
        Stack.Absorbs (.call name (some 1)) [.decimal d] := fun hf => by
      cases d with
      | finite => cases hv
      | infinite s => exact .limit s hname hf
      | nan => exact absurd (isFinite_applyOne_nan desk hf rfl) habsurd
    cases f with
    | sin => exact absurd (isFinite_ofAngle desk Double.propagates_sin hv) habsurd
    | cos => exact absurd (isFinite_ofAngle desk Double.propagates_cos hv) habsurd
    | tan => exact absurd (isFinite_ofAngle desk Double.propagates_tan hv) habsurd
    | asin => exact absurd (isFinite_toAngle desk Double.propagates_asin hv) habsurd
    | acos => exact absurd (isFinite_toAngle desk Double.propagates_acos hv) habsurd
    | sinh => exact absurd (isFinite_inDoubles desk Double.propagates_sinh hv) habsurd
    | cosh => exact absurd (isFinite_inDoubles desk Double.propagates_cosh hv) habsurd
    | asinh => exact absurd (isFinite_inDoubles desk Double.propagates_asinh hv) habsurd
    | acosh => exact absurd (isFinite_inDoubles desk Double.propagates_acosh hv) habsurd
    | atanh => exact absurd (isFinite_inDoubles desk Double.propagates_atanh hv) habsurd
    | ln => exact absurd (isFinite_inDoubles desk Double.propagates_log hv) habsurd
    | log => exact absurd (isFinite_inDoubles desk Double.propagates_log10 hv) habsurd
    | sqrt => exact absurd (isFinite_inDoubles desk Double.propagates_squareRoot hv) habsurd
    | gamma => exact absurd (isFinite_inDoubles desk Double.propagates_gamma hv) habsurd
    | atan => exact hlimit (.inl rfl)
    | tanh => exact hlimit (.inr (.inl rfl))
    | erf => exact hlimit (.inr (.inr rfl))
    | exp =>
      by_cases hd : d = .infinite true
      · rw [hd]
        exact .exponential hname
      · refine absurd (.bind fun x hx => isFinite_ofDouble desk ?_) habsurd
        refine Double.isFinite_exp (Decimal.isFinite_toDouble hv x hx) ?_
        rintro rfl
        cases d with
        | finite => cases hv
        | infinite s =>
          cases hx
          exact hd rfl
        | nan s signaling payload => cases signaling <;> cases hx
    | _ =>
      refine absurd ?_ habsurd
      exact yields_ok (isFinite_magnitude desk hv)

theorem isFinite_count {exact : Int → Int → Int} {rounded : Int → Int → Decimal}
    {general : Double → Double → Except ArithmeticFault Double}
    (hgeneral : ∀ {x y : Double}, x.isFinite = false ∨ y.isFinite = false →
      Yields (·.isFinite = false) (general x y)) (h : a.isFinite = false ∨ b.isFinite = false) :
    Yields (·.isFinite = false) (count desk exact rounded general a b) := by
  have hwhole : (a.isIntegral && b.isIntegral) = false := by
    have hlost : ∀ {u : Value}, u.isFinite = false → u.isIntegral = false := by
      intro u hu
      cases u with
      | exact n => cases hu
      | decimal d =>
        cases d with
        | finite => cases hu
        | _ => rfl
    rcases h with h | h
    · rw [hlost h, Bool.false_and]
    · rw [hlost h, Bool.and_false]
  unfold count
  rw [hwhole]
  refine isFinite_ofDouble desk (.bind fun x hx => .bind fun y hy => hgeneral ?_)
  exact h.imp (fun ha => Value.isFinite_toDouble ha x hx) fun hb => Value.isFinite_toDouble hb y hy

/-- A root takes the reciprocal of its degree for an exponent. -/
theorem exists_of_root_eq_ok (h : root desk a b = .ok v) :
    ∃ x y z r, a.toDouble = .ok x ∧ b.toDouble = .ok y ∧ (Double.ofNat 1).quotient y = .ok z ∧
      x.pow z = .ok r ∧ v = .decimal (desk.context.ofDouble r) := by
  unfold root at h
  cases hx : a.toDouble with
  | error e =>
    rw [hx] at h
    cases h
  | ok x =>
    cases hy : b.toDouble with
    | error e =>
      rw [hx, hy] at h
      cases h
    | ok y =>
      cases hz : (Double.ofNat 1).quotient y with
      | error e =>
        simp only [hx, hy, hz, bind, Except.bind] at h
        cases h
      | ok z =>
        simp only [hx, hy, hz, bind, Except.bind] at h
        cases hr : x.pow z with
        | error e =>
          rw [hr] at h
          cases h
        | ok r =>
          rw [hr] at h
          cases h
          exact ⟨x, y, z, r, rfl, rfl, hz, hr, rfl⟩

theorem absorbs_of_root {name : Text} (hname : Function.ofName? name = some .root)
    (h : a.isFinite = false ∨ b.isFinite = false) (hv : root desk a b = .ok v)
    (hfinite : v.isFinite) : Stack.Absorbs (.call name (some 2)) [b, a] := by
  obtain ⟨x, y, z, r, hx, hy, hz, hr, rfl⟩ := exists_of_root_eq_ok desk hv
  by_cases hzero : z.isZero
  · exact .zerothRoot hname h hy hz hzero
  have hrfinite : r.isFinite := by
    by_contra hlost
    simp [Value.isFinite, Context.isFinite_ofDouble desk.context (by simpa using hlost)] at hfinite
  -- With a finite exponent that is not zero, the degree is finite and the base is not.
  by_cases hb : b.isFinite
  · have ha : a.isFinite = false := h.resolve_right (by simp [hb])
    have hlost := Value.isFinite_toDouble ha x hx
    rcases Double.pow_cases (.inl hlost) hr hrfinite with h | rfl | ⟨⟨s, rfl⟩, hneg⟩ | ⟨hfinite, -⟩
    · exact absurd h hzero
    · cases hlost
    · have hinfinite : a = .decimal (.infinite s) := by
        cases a with
        | exact n => cases ha
        | decimal d =>
          cases d with
          | finite => cases ha
          | infinite t =>
            cases hx
            rfl
          | nan t signaling payload => cases signaling <;> cases hx
      rw [hinfinite]
      exact .negativeRoot s hname hy hz hneg
    · rw [hlost] at hfinite
      cases hfinite
  · cases b with
    | exact n => exact absurd rfl hb
    | decimal d =>
      cases d with
      | finite => exact absurd rfl hb
      | infinite t =>
        cases hy
        cases hz
        cases t <;> exact absurd rfl hzero
      | nan t signaling payload =>
        cases signaling <;> cases hy
        cases hz
        rcases Double.pow_cases (.inr rfl) hr hrfinite with h | rfl | ⟨-, hneg⟩ | ⟨-, hinf⟩
        · exact absurd h hzero
        · exact .rootOfOne hname rfl hx
        · cases hneg
        · cases hinf

theorem absorbs_of_applyTwo {name : Text} {f : Function} (hname : Function.ofName? name = some f)
    (harity : f.arity = 2) (h : a.isFinite = false ∨ b.isFinite = false)
    (hv : applyTwo desk f a b = .ok v) (hfinite : v.isFinite) :
    Stack.Absorbs (.call name (some 2)) [b, a] := by
  have habsurd : ¬ Yields (·.isFinite = false) (applyTwo desk f a b) := fun hlost => by
    simp [hlost v hv] at hfinite
  cases f with
  | root => exact absorbs_of_root desk hname h hv hfinite
  | ncr => exact absurd (isFinite_count desk Double.isFinite_choose h) habsurd
  | npr => exact absurd (isFinite_count desk Double.isFinite_arrange h) habsurd
  | _ => cases harity

end Operations

namespace Stack

variable {desk : Desk} {item : Item} {items : List Item} {operands stack stack' : List Value}
  {v : Value}

/-- **One item** that makes a finite value of operands that are not all finite absorbs. -/
theorem absorbs_of_gives (h : Gives desk item operands v)
    (hoperands : ∃ w ∈ operands, w.isFinite = false) (hv : v.isFinite) : Absorbs item operands := by
  have hone : ∀ {a : Value}, (∃ w ∈ [a], w.isFinite = false) → a.isFinite = false := by simp
  have htwo : ∀ {a b : Value}, (∃ w ∈ [b, a], w.isFinite = false) →
      a.isFinite = false ∨ b.isFinite = false := by
    intro a b h
    simpa [or_comm] using h
  cases h with
  | number t => simp at hoperands
  | constant name => simp at hoperands
  | negate a =>
    rw [Operations.isFinite_negate desk (hone hoperands)] at hv
    cases hv
  | operate hsymbol h => exact Operations.absorbs_of_operate desk (htwo hoperands) h hv
  | factorial h =>
    rw [Operations.isFinite_factorial desk (hone hoperands) v h] at hv
    cases hv
  | percent hsign h =>
    rw [Operations.isFinite_percent desk (hone hoperands) v h] at hv
    cases hv
  | callOne hname harity h => exact Operations.absorbs_of_applyOne desk hname (hone hoperands) h hv
  | callTwo hname harity h =>
    exact Operations.absorbs_of_applyTwo desk hname harity (htwo hoperands) h hv

/-! ## Runs -/

/-- After some of the items a value on the stack is not finite. -/
def StacksNonFinite (desk : Desk) (items : List Item) : Prop :=
  ∃ before after stack, items = before ++ after ∧ feedAll desk before [] = .ok stack ∧
    ∃ w ∈ stack, w.isFinite = false

/-- An item of the list absorbs what is on the stack when its turn comes. -/
def AbsorbsOn (desk : Desk) (items : List Item) (stack : List Value) : Prop :=
  ∃ before item after operands rest, items = before ++ item :: after ∧
    feedAll desk before stack = .ok (operands ++ rest) ∧ Absorbs item operands

theorem feedAll_cons_eq_ok_iff :
    feedAll desk (item :: items) stack = .ok stack' ↔
      ∃ mid, feed desk item stack = .ok mid ∧ ¬ maxEntries < mid.length ∧
        feedAll desk items mid = .ok stack' := by
  rw [feedAll]
  cases feed desk item stack with
  | error e => simp
  | ok mid =>
    simp only [Except.ok.injEq, exists_eq_left']
    split <;> simp [*]

theorem exists_not_isFinite_or_absorbsOn (hstack : ∃ w ∈ stack, w.isFinite = false)
    (h : feedAll desk items stack = .ok stack') :
    (∃ w ∈ stack', w.isFinite = false) ∨ AbsorbsOn desk items stack := by
  induction items generalizing stack with
  | nil =>
    cases h
    exact .inl hstack
  | cons item items ih =>
    obtain ⟨mid, hfeed, hlength, hrest⟩ := feedAll_cons_eq_ok_iff.1 h
    obtain ⟨operands, rest, v, rfl, rfl, hv⟩ := feed_eq_ok_iff.1 hfeed
    have hmid : (∃ w ∈ v :: rest, w.isFinite = false) ∨ Absorbs item operands := by
      obtain ⟨w, hw, hlost⟩ := hstack
      rcases List.mem_append.1 hw with hoperand | hbelow
      · cases hfinite : v.isFinite with
        | false => exact .inl ⟨v, List.mem_cons_self, hfinite⟩
        | true => exact .inr (absorbs_of_gives hv ⟨w, hoperand, hlost⟩ hfinite)
      · exact .inl ⟨w, List.mem_cons_of_mem _ hbelow, hlost⟩
    rcases hmid with hmid | habsorbs
    · refine (ih hmid hrest).imp_right ?_
      rintro ⟨before, item', after, operands', rest', rfl, hbefore, habsorbs⟩
      exact ⟨item :: before, item', after, operands', rest', rfl,
        feedAll_cons_eq_ok_iff.2 ⟨_, hfeed, hlength, hbefore⟩, habsorbs⟩
    · exact .inr ⟨[], item, items, operands, rest, rfl, rfl, habsorbs⟩

/-- A run with a value stacked something that is not finite on the way if and only if an item
absorbed it. -/
theorem stacksNonFinite_iff (h : run desk items = .ok v) :
    StacksNonFinite desk items ↔ AbsorbsOn desk items [] := by
  obtain ⟨hfeed, hfinite⟩ := run_eq_ok_iff.1 h
  constructor
  · rintro ⟨before, after, stack, rfl, hbefore, hstack⟩
    have hafter : feedAll desk after stack = .ok [v] := by
      rw [feedAll_append, hbefore] at hfeed
      exact hfeed
    rcases exists_not_isFinite_or_absorbsOn hstack hafter with hlost | habsorbs
    · simp [hfinite] at hlost
    · obtain ⟨between, item, rest, operands, below, rfl, hbetween, habsorbs⟩ := habsorbs
      refine ⟨before ++ between, item, rest, operands, below, by simp, ?_, habsorbs⟩
      rw [feedAll_append, hbefore]
      exact hbetween
  · rintro ⟨before, item, after, operands, rest, rfl, hbefore, habsorbs⟩
    obtain ⟨w, hw, hlost⟩ := habsorbs.exists_not_isFinite
    exact ⟨before, item :: after, _, rfl, hbefore, w, List.mem_append_left _ hw, hlost⟩

/-- **Whether an infinity or a NaN is told.** A list of items that stacks something that is not
finite fails, whatever follows, except for the lists that have a value although one of their items
absorbs. -/
theorem run_fails_of_stacksNonFinite_iff (desk : Desk) (items : List Item) :
    (StacksNonFinite desk items → ∃ failure, run desk items = .error failure) ↔
      ¬ (AbsorbsOn desk items [] ∧ ∃ v, run desk items = .ok v) := by
  cases h : run desk items with
  | error failure => simp
  | ok v => simp [stacksNonFinite_iff h]

/-- The power overflows, and the hyperbolic tangent of the infinity is one. -/
theorem run_tanh_of_overflow :
    ∃ items v, Item.ofText (Text.ofString "tanh(10^10^18)") = .ok items ∧ StacksNonFinite {} items ∧
      run {} items = .ok v := by
  refine ⟨[.number ['1', '0'], .number ['1', '0'], .number ['1', '8'], .operator .power,
    .operator .power] ++ [.call (Text.ofString "tanh") (some 1)], .decimal (.finite false 10 (-1)),
    ?_, ?_, ?_⟩
  · exact eq_ok_of_toOption (by decide +kernel)
  · exact ⟨_, _, [.decimal (.infinite false)], rfl, eq_ok_of_toOption (by decide +kernel), _,
      List.mem_cons_self, rfl⟩
  · exact eq_ok_of_toOption (by decide +kernel)

end Stack

end DeskCalculator
