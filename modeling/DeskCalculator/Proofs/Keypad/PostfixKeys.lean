import DeskCalculator.Proofs.Evaluation.Continuation
import DeskCalculator.Proofs.Keypad.Consistency
import DeskCalculator.Proofs.Keypad.FiniteRegisters

/-!
# A postfix key straight after an evaluation

The key puts its sign behind the text of the result and evaluates that. The text is the one of the
last answer (`Arises.showsAnswer`), also where a fault has stopped an evaluation before, as long as
the result is no exact integer. But it is read from the start: the sign binds more tightly than a
minus before the numeral. So the key does to the result what the sign does to the last answer, except
for the factorial of a number with a minus, which is the opposite of the factorial of the opposite
number (`strike_postfixed_outcome`).
-/

namespace DeskCalculator.Keypad

open Decimal (finite scaled signText)

variable {k : Keypad} {key : Key} {expression : Text}

/-- The keypads that keys and changes of the settings lead to from a new one. Where a fault escapes,
the next key goes on from what it left. -/
inductive Arises : Keypad → Prop
  | new (desk : Desk) (history : List StateFile.Entry) (keepsFile : Bool) :
      Arises (new desk history keepsFile)
  | strike {k : Keypad} (before : Arises k) (key : Key) : Arises (k.strike key).keypad
  | settings {k : Keypad} (before : Arises k) (precision : Precision) (angle : AngleUnit)
      (exact : Switch) : Arises { k with desk := { k.desk with precision, angle, exact } }

/-- A result that is no exact integer is the last answer, and its text is in the buffer. -/
def ShowsAnswer (k : Keypad) : Prop :=
  k.mode = .evaluated →
    k.desk.answer.isExact ∨ k.desk.answer.isFinite ∧ k.desk.answer.plain = .ok k.buffer

/-! ## One key -/

theorem saving_of_evaluated {k' : Keypad} {reply : Reply} (hmode : k'.mode = k.mode)
    (hbuffer : k'.buffer = k.buffer) (h : (k'.saving reply).keypad.mode = .evaluated) :
    k.mode = .evaluated ∧ (k'.saving reply).keypad.buffer = k.buffer := by
  obtain ⟨archive, hsaving⟩ := k'.exists_keypad_saving reply
  rw [hsaving] at h ⊢
  exact ⟨hmode.symm.trans h, hbuffer⟩

theorem memorize_of_evaluated {update : Desk → Value → Desk}
    (h : (k.memorize update).keypad.mode = .evaluated) :
    k.mode = .evaluated ∧ (k.memorize update).keypad.buffer = k.buffer := by
  unfold memorize at h ⊢
  cases hshown : k.shownNumber with
  | error p =>
    rw [hshown] at h
    cases h
  | ok v =>
    rw [hshown] at h
    exact saving_of_evaluated rfl rfl h

theorem act_of_evaluated (h : (k.act key).keypad.mode = .evaluated) :
    k.mode = .evaluated ∧ (k.act key).keypad.buffer = k.buffer := by
  cases key with
  | text t =>
    simp only [act, type] at h
    split at h <;> cases h
  | function name =>
    simp only [act, openCall] at h
    split at h
    · cases h
    · split at h <;> cases h
  | postfixed symbol =>
    simp only [act] at h ⊢
    split at h
    · cases h
    · rename_i hsign
      rw [if_neg hsign]
      exact ⟨h, rfl⟩
  | evaluate => exact ⟨h, rfl⟩
  | clear => cases h
  | backspace =>
    simp only [act, backspace] at h
    split at h <;> cases h
  | answer => cases h
  | memoryRecall =>
    simp only [act] at h ⊢
    split at h
    · cases h
    · exact ⟨h, rfl⟩
  | memoryAdd => exact memorize_of_evaluated h
  | memorySubtract => exact memorize_of_evaluated h
  | memoryClear => exact saving_of_evaluated rfl rfl h
  | clearHistory => exact saving_of_evaluated rfl rfl h

theorem showsAnswer_act (h : k.ShowsAnswer) (key : Key) : (k.act key).keypad.ShowsAnswer := by
  intro hmode
  obtain ⟨hbefore, hbuffer⟩ := act_of_evaluated hmode
  rw [answer_act, hbuffer]
  exact h hbefore

theorem isExact_of_isTooLong {v : Value} (h : v.IsTooLong) : v.isExact := by
  cases v with
  | exact n => rfl
  | decimal d => exact h.elim

/-- The text of a finite value is a signed numeral, so that a fault while it is computed on means
that the value is an exact integer. -/
theorem isExact_of_signsLongInteger (h : k.ShowsAnswer) (hmode : k.mode = .evaluated)
    (hkey : k.expression? key = some expression) (hsigns : k.desk.SignsLongInteger expression) :
    k.desk.answer.isExact := by
  refine (h hmode).resolve_right fun ⟨hfinite, hplain⟩ => ?_
  by_cases hlong : k.desk.answer.IsTooLong
  · rw [Value.plain_of_isTooLong hlong] at hplain
    cases hplain
  · obtain ⟨s, w, htext, hw⟩ := Value.plain_eq hfinite hlong
    have hbuffer : k.buffer = signText s ++ w := Except.ok.inj (hplain.symm.trans htext)
    exact isTold_compute_expression hbuffer hw hkey _ (Desk.compute_fault_iff.2 ⟨rfl, hsigns⟩)

theorem showsAnswer_evaluate (h : k.ShowsAnswer) (hkey : k.expression? key = some expression) :
    (k.evaluate expression).keypad.ShowsAnswer := by
  by_cases hfails : k.FailsMidway expression
  · generalize k.evaluate expression = struck, breaks_evaluate hfails = hbreaks
    cases hbreaks with
    | computing signs =>
      exact fun hmode => .inl (isExact_of_signsLongInteger (k := k) h hmode hkey signs)
    | writing compute long => exact fun _ => .inl (isExact_of_isTooLong long)
    | displaying compute plain => exact fun _ => .inr ⟨isFinite_of_compute compute, plain⟩
    | saving compute plain => exact fun _ => .inr ⟨isFinite_of_compute compute, plain⟩
  · generalize k.evaluate expression = struck, settles_evaluate hfails = hsettles
    cases hsettles with
    | value compute plain => exact fun _ => .inr ⟨isFinite_of_compute compute, plain⟩
    | problem compute => exact nofun

theorem showsAnswer_strike (h : k.ShowsAnswer) (key : Key) :
    (k.strike key).keypad.ShowsAnswer := by
  unfold strike
  split
  · rename_i expression hkey
    exact showsAnswer_evaluate h hkey
  · exact showsAnswer_act h key

/-! ## Runs of keys -/

theorem Arises.strikeAll (h : k.Arises) (keys : List Key) : (k.strikeAll keys).Arises := by
  induction keys generalizing k with
  | nil => exact h
  | cons key keys ih => exact ih (h.strike key)

/-- **The text of a result** is that of the last answer. -/
theorem Arises.showsAnswer (h : k.Arises) : k.ShowsAnswer := by
  induction h with
  | new desk history keepsFile => exact nofun
  | strike before key ih => exact showsAnswer_strike ih key
  | settings before precision angle exact ih => exact ih

/-! ## The key -/

section Key

variable {s : Bool} {c : Nat} {e : Int}

theorem exists_outcome_iff :
    (∃ o, (k.evaluate expression).reply = .ok (some o)) ↔ ¬ k.FailsMidway expression := by
  constructor
  · rintro ⟨o, ho⟩ hfails
    obtain ⟨fault, hfault, -⟩ := (breaks_evaluate hfails).exists_fault
    cases hfault.symm.trans ho
  · intro hfails
    generalize k.evaluate expression = struck, settles_evaluate hfails = hsettles
    cases hsettles <;> exact ⟨_, rfl⟩

theorem compute_of_outcome {o : Except Problem Value}
    (h : (k.evaluate expression).reply = .ok (some o)) :
    k.desk.compute expression = o.mapError .problem := by
  have hsettles := settles_evaluate (exists_outcome_iff.1 ⟨o, h⟩)
  generalize k.evaluate expression = struck at h hsettles
  cases hsettles with
  | value compute =>
    cases h
    exact compute
  | problem compute =>
    cases h
    exact compute

theorem told_compute_sign {desk : Desk} (hanswer : desk.answer = .decimal (finite s c e))
    (hrepresents : desk.context.Represents c e) (sign : PostfixSign) {t : Text}
    (hplain : desk.answer.plain = .ok t) :
    told (desk.compute (t ++ sign.symbol.text)) =
      told ((Tree.markedAnswer s sign).result desk) := by
  obtain ⟨w, d, places, htext, hnumeral, hscaled, hle⟩ := Decimal.plain_eq s c e
  have ht : t = signText s ++ w := by
    rw [hanswer] at hplain
    exact (Except.ok.inj hplain).symm.trans htext
  have hread := hnumeral.read? (Desk.isStorable_of_represents hrepresents hscaled hle)
  obtain ⟨d', f', hround, hsame, -⟩ := Context.round_of_scaled_eq hrepresents hscaled false
  have hnumber : Operations.number desk w = .decimal (finite false d' f') := by
    rw [Operations.number, hread]
    exact congrArg Value.decimal hround
  rw [ht, Desk.compute_marked s sign hnumeral.isWrittenAs]
  exact Tree.told_marked hnumber hsame hrepresents s sign hanswer

/-- **A postfix key straight after an evaluation** has an outcome exactly when no fault stops it. The
outcome is that of the sign on the last answer, a number of the context, unless the sign is that of
the factorial and the number has a minus: then it is the opposite of the factorial of the opposite
number. -/
theorem strike_postfixed_outcome (hk : k.Arises) (hmode : k.mode = .evaluated)
    (hanswer : k.desk.answer = .decimal (finite s c e)) (hrepresents : k.desk.context.Represents c e)
    (sign : PostfixSign) :
    let struck := k.strike (.postfixed sign.symbol.text)
    let ans : Item := .constant ['a', 'n', 's']
    ((∃ o, struck.reply = .ok (some o)) ↔ ¬ k.FailsMidway (k.buffer ++ sign.symbol.text)) ∧
    ∀ o, struck.reply = .ok (some o) →
      told (o.mapError .problem) =
        told (Stack.run k.desk
          (if s ∧ sign = .factorial then
            [ans, .operator .negate, .postfixed .factorial, .operator .negate]
          else [ans, .postfixed sign.symbol])) := by
  intro struck ans
  have hstruck : struck = k.evaluate (k.buffer ++ sign.symbol.text) := by
    have hsign : isPostfixSign sign.symbol.text := isPostfixSign_iff.2 ⟨sign, rfl⟩
    show k.strike _ = _
    rw [strike, expression?, if_pos ⟨hmode, hsign⟩]
  rw [hstruck]
  refine ⟨exists_outcome_iff, fun o ho => ?_⟩
  have hplain : k.desk.answer.plain = .ok k.buffer := by
    refine ((hk.showsAnswer hmode).resolve_left ?_).2
    rw [hanswer]
    exact Bool.false_ne_true
  rw [← compute_of_outcome ho, told_compute_sign hanswer hrepresents sign hplain,
    ← Stack.run_items]
  · unfold Tree.markedAnswer
    split <;> rfl
  · unfold Tree.markedAnswer
    split <;> trivial
  · unfold Tree.markedAnswer
    split <;> exact (by decide : 1 ≤ 5000)

/-- A factorial of five, and a hundredth of minus five. -/
theorem strike_postfixed_outcome_five :
    let k (t : Text) := (new {} [] false).strikeAll [.text t, .evaluate]
    let ans : Item := .constant ['a', 'n', 's']
    (∃ o, ((k ['5']).strike (.postfixed ['!'])).reply = .ok (some o) ∧
      told (o.mapError .problem) =
        told (Stack.run (k ['5']).desk [ans, .postfixed .factorial])) ∧
    ∃ o, ((k ['-', '5']).strike (.postfixed ['%'])).reply = .ok (some o) ∧
      told (o.mapError .problem) =
        told (Stack.run (k ['-', '5']).desk [ans, .postfixed .percent]) := by
  intro k ans
  have harises (t : Text) : (k t).Arises := (Arises.new {} [] false).strikeAll _
  constructor
  · refine ⟨.ok (.decimal (finite false 120 0)), by decide +kernel, ?_⟩
    exact (strike_postfixed_outcome (s := false) (c := 5) (e := 0) (harises ['5'])
      (by decide +kernel) (by decide +kernel)
      ⟨by decide +kernel, by decide +kernel, by decide +kernel⟩ .factorial).2 _ (by decide +kernel)
  · refine ⟨.ok (.decimal (finite true 5 (-2))), by decide +kernel, ?_⟩
    exact (strike_postfixed_outcome (s := true) (c := 5) (e := 0) (harises ['-', '5'])
      (by decide +kernel) (by decide +kernel)
      ⟨by decide +kernel, by decide +kernel, by decide +kernel⟩ .percent).2 _ (by decide +kernel)

/-- The factorial of minus one is a math error, but the key makes minus one of it. -/
theorem strike_factorial_of_negative :
    let k := (new {} [] false).strikeAll [.text ['-', '1'], .evaluate]
    k.Arises ∧ k.mode = .evaluated ∧ k.desk.answer = .decimal (finite true 1 0) ∧
    (k.strike (.postfixed ['!'])).reply = .ok (some (.ok (.decimal (finite true 1 0)))) ∧
    told (Stack.run k.desk [.constant ['a', 'n', 's'], .postfixed .factorial]) =
      .error (some .mathError) :=
  ⟨(Arises.new {} [] false).strikeAll _, by decide +kernel, by decide +kernel, by decide +kernel,
    by decide +kernel⟩

end Key

end DeskCalculator.Keypad
