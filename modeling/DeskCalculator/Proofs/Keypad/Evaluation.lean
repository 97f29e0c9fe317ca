import DeskCalculator.Keypad
import DeskCalculator.Proofs.Stack.Faults
import DeskCalculator.Proofs.Value.Display

/-!
# How a key evaluates

A key that evaluates an expression shows its value or the problem with it: `Keypad.Settles` says
what all registers hold then. It does not always get there. The registers change one after the
other, and a fault in between leaves the first ones changed: `Keypad.Breaks` says what they hold
then, and `Keypad.FailsMidway` when this happens.
-/

namespace DeskCalculator

namespace StateFile

theorem write_of_isTooLong {desk : Desk} {history : List Entry}
    (h : desk.answer.IsTooLong ∨ desk.memory.IsTooLong) :
    write desk history = .error .integerTooLong := by
  by_cases ha : desk.answer.IsTooLong
  · simp only [write, toJson, ofValue, Value.text_of_isTooLong ha]
    rfl
  · obtain ⟨t, ht⟩ := Value.exists_text ha
    simp only [write, toJson, ofValue, ht, Value.text_of_isTooLong (h.resolve_left ha)]
    rfl

theorem exists_write {desk : Desk} (history : List Entry) (ha : ¬ desk.answer.IsTooLong)
    (hm : ¬ desk.memory.IsTooLong) : ∃ t, write desk history = .ok t := by
  obtain ⟨answer, hanswer⟩ := Value.exists_text ha
  obtain ⟨memory, hmemory⟩ := Value.exists_text hm
  simp only [write, toJson, ofValue, hanswer, hmemory]
  exact ⟨_, rfl⟩

end StateFile

namespace Keypad

variable {k : Keypad} {expression : Text} {v : Value}

/-- The keypad that shows the value of an expression, before the state file is written. -/
def showing (k : Keypad) (expression : Text) (v : Value) (result shown : Text) : Keypad :=
  { k with
    desk := k.desk.setAnswer v
    history := (.ofTexts expression result :: k.history).take historySize
    buffer := result
    mode := .evaluated
    display := shown
    subdisplay := expression ++ [' ', '=']
    problem := none }

def failing (k : Keypad) (p : Problem) : Keypad :=
  { k with buffer := [], mode := .editing, display := p.display, subdisplay := [], problem := some p }

/-- An evaluation that is complete: its value is in all registers, in the history and in the state
file, or its problem is shown and nothing else has changed. -/
inductive Settles (k : Keypad) (expression : Text) : Struck → Prop
  | value {v : Value} {result shown : Text} {archive : Option Archive}
      (compute : k.desk.compute expression = .ok v) (plain : v.plain = .ok result)
      (display : v.display = .ok shown)
      (save : (k.showing expression v result shown).save =
        .ok { k.showing expression v result shown with archive }) :
      Settles k expression ⟨{ k.showing expression v result shown with archive }, .ok (some (.ok v))⟩
  | problem {p : Problem} (compute : k.desk.compute expression = .error (.problem p)) :
      Settles k expression ⟨k.failing p, .ok (some (.error p))⟩

/-- An evaluation that a fault has stopped, with the registers that have changed until then. -/
inductive Breaks (k : Keypad) (expression : Text) : Struck → Prop
  | computing (signs : k.desk.SignsLongInteger expression) :
      Breaks k expression ⟨{ k with buffer := expression }, .error .integerTooLong⟩
  | writing {v : Value} (compute : k.desk.compute expression = .ok v) (long : v.IsTooLong) :
      Breaks k expression
        ⟨{ k with desk := k.desk.setAnswer v, buffer := expression }, .error .integerTooLong⟩
  | displaying {v : Value} {result : Text} (compute : k.desk.compute expression = .ok v)
      (plain : v.plain = .ok result) (beyond : v.IsBeyondDisplay) :
      Breaks k expression
        ⟨{ k with desk := k.desk.setAnswer v, buffer := result, mode := .evaluated },
          .error .displayOverflow⟩
  | saving {v : Value} {result shown : Text} (compute : k.desk.compute expression = .ok v)
      (plain : v.plain = .ok result) (display : v.display = .ok shown) (kept : k.archive.isSome)
      (long : k.desk.memory.IsTooLong) :
      Breaks k expression ⟨k.showing expression v result shown, .error .integerTooLong⟩

/-- A fault stops the evaluation: a postfix sign meets an integer of more than 4300 digits, or the
value is such an integer or a decimal beyond the display, or such an integer is in the memory when
the state file has to be written. -/
def FailsMidway (k : Keypad) (expression : Text) : Prop :=
  k.desk.SignsLongInteger expression ∨
    ∃ v, k.desk.compute expression = .ok v ∧
      (v.IsTooLong ∨ v.IsBeyondDisplay ∨ k.archive.isSome ∧ k.desk.memory.IsTooLong)

/-! ## The steps of an evaluation -/

theorem evaluate_of_value (h : k.desk.compute expression = .ok v) :
    k.evaluate expression =
      { k with desk := k.desk.setAnswer v, buffer := expression }.showResult expression v := by
  simp only [evaluate, Desk.evaluate, h]

theorem evaluate_of_problem {p : Problem} (h : k.desk.compute expression = .error (.problem p)) :
    k.evaluate expression = ⟨k.failing p, .ok (some (.error p))⟩ := by
  simp only [evaluate, Desk.evaluate, h]
  rfl

theorem evaluate_of_fault {fault : Fault}
    (h : k.desk.compute expression = .error (.fault fault)) :
    k.evaluate expression = ⟨{ k with buffer := expression }, .error fault⟩ := by
  simp only [evaluate, Desk.evaluate, h]

theorem evaluate_of_isTooLong (h : k.desk.compute expression = .ok v) (hlong : v.IsTooLong) :
    k.evaluate expression =
      ⟨{ k with desk := k.desk.setAnswer v, buffer := expression }, .error .integerTooLong⟩ := by
  rw [evaluate_of_value h]
  simp only [showResult, Value.plain_of_isTooLong hlong]

theorem evaluate_of_isBeyondDisplay {result : Text} (h : k.desk.compute expression = .ok v)
    (hplain : v.plain = .ok result) (hbeyond : v.IsBeyondDisplay) :
    k.evaluate expression =
      ⟨{ k with desk := k.desk.setAnswer v, buffer := result, mode := .evaluated },
        .error .displayOverflow⟩ := by
  rw [evaluate_of_value h]
  simp only [showResult, hplain, Value.display_of_isBeyondDisplay hbeyond]

theorem evaluate_of_texts {result shown : Text} (h : k.desk.compute expression = .ok v)
    (hplain : v.plain = .ok result) (hdisplay : v.display = .ok shown) :
    k.evaluate expression = (k.showing expression v result shown).saving (some (.ok v)) := by
  rw [evaluate_of_value h]
  simp only [showResult, hplain, hdisplay]
  rfl

theorem exists_keypad_saving (k : Keypad) (reply : Reply) :
    ∃ archive, (k.saving reply).keypad = { k with archive } := by
  unfold saving save
  cases k.archive with
  | none => exact ⟨k.archive, rfl⟩
  | some archive => cases StateFile.write k.desk k.history <;> exact ⟨_, rfl⟩

theorem exists_save (k : Keypad) (hanswer : ¬ k.desk.answer.IsTooLong)
    (hmemory : k.archive.isSome → ¬ k.desk.memory.IsTooLong) :
    ∃ archive, k.save = .ok { k with archive } := by
  unfold save
  cases harchive : k.archive with
  | none => exact ⟨k.archive, rfl⟩
  | some archive =>
    obtain ⟨t, ht⟩ := StateFile.exists_write k.history hanswer (hmemory (by rw [harchive]; rfl))
    exact ⟨some { saves := archive.saves + 1, last := some t }, by simp only [ht]; rfl⟩

theorem save_of_isTooLong {k : Keypad} (hkept : k.archive.isSome)
    (hlong : k.desk.memory.IsTooLong) : k.save = .error .integerTooLong := by
  obtain ⟨archive, harchive⟩ := Option.isSome_iff_exists.1 hkept
  unfold save
  simp only [harchive, StateFile.write_of_isTooLong (.inr hlong)]
  rfl

/-! ## Complete and stopped evaluations -/

theorem settles_evaluate (h : ¬ k.FailsMidway expression) :
    k.Settles expression (k.evaluate expression) := by
  cases hcompute : k.desk.compute expression with
  | error failure =>
    cases failure with
    | problem p =>
      rw [evaluate_of_problem hcompute]
      exact .problem hcompute
    | fault f => exact absurd (.inl (Desk.compute_fault_iff.1 hcompute).2) h
  | ok v =>
    have hlong : ¬ v.IsTooLong := fun hlong => h (.inr ⟨v, hcompute, .inl hlong⟩)
    have hbeyond : ¬ v.IsBeyondDisplay := fun hb => h (.inr ⟨v, hcompute, .inr (.inl hb)⟩)
    have hmemory : k.archive.isSome → ¬ k.desk.memory.IsTooLong :=
      fun hkept hm => h (.inr ⟨v, hcompute, .inr (.inr ⟨hkept, hm⟩)⟩)
    obtain ⟨result, hplain⟩ := Value.exists_plain hlong
    obtain ⟨shown, hdisplay⟩ := Value.exists_display hlong hbeyond
    obtain ⟨archive, hsave⟩ := exists_save (k.showing expression v result shown) hlong hmemory
    rw [evaluate_of_texts hcompute hplain hdisplay, saving, hsave]
    exact .value hcompute hplain hdisplay hsave

theorem breaks_evaluate (h : k.FailsMidway expression) :
    k.Breaks expression (k.evaluate expression) := by
  rcases h with hsigns | ⟨v, hcompute, hv⟩
  · rw [evaluate_of_fault (Desk.compute_fault_iff.2 ⟨rfl, hsigns⟩)]
    exact .computing hsigns
  · by_cases hlong : v.IsTooLong
    · rw [evaluate_of_isTooLong hcompute hlong]
      exact .writing hcompute hlong
    · obtain ⟨result, hplain⟩ := Value.exists_plain hlong
      by_cases hbeyond : v.IsBeyondDisplay
      · rw [evaluate_of_isBeyondDisplay hcompute hplain hbeyond]
        exact .displaying hcompute hplain hbeyond
      · obtain ⟨shown, hdisplay⟩ := Value.exists_display hlong hbeyond
        obtain ⟨hkept, hmemory⟩ := (hv.resolve_left hlong).resolve_left hbeyond
        have hsave : (k.showing expression v result shown).save = .error .integerTooLong :=
          save_of_isTooLong hkept hmemory
        rw [evaluate_of_texts hcompute hplain hdisplay, saving, hsave]
        exact .saving hcompute hplain hdisplay hkept hmemory

/-- **A key that evaluates** does nothing on a blank buffer. On an expression it completes the
evaluation, unless a fault stops it. -/
theorem strike_evaluation (k : Keypad) (key : Key) :
    (key = .evaluate → Text.isAllBlank k.buffer → k.strike key = ⟨k, .ok none⟩) ∧
    ∀ expression, k.expression? key = some expression →
      (¬ k.FailsMidway expression → k.Settles expression (k.strike key)) ∧
      (k.FailsMidway expression → k.Breaks expression (k.strike key)) := by
  refine ⟨?_, fun expression hexpression => ?_⟩
  · rintro rfl hblank
    simp only [strike, expression?, hblank, if_true]
    rfl
  · have hstrike : k.strike key = k.evaluate expression := by rw [strike, hexpression]
    rw [hstrike]
    exact ⟨settles_evaluate, breaks_evaluate⟩

/-- The last answer of a new desk is evaluated and shown. -/
theorem strike_evaluation_answer :
    ({ buffer := ['a', 'n', 's'] } : Keypad).Settles ['a', 'n', 's']
      (({ buffer := ['a', 'n', 's'] } : Keypad).strike .evaluate) := by
  have hcompute : Desk.compute {} ['a', 'n', 's'] = .ok (.decimal .zero) := rfl
  refine ((strike_evaluation { buffer := ['a', 'n', 's'] } .evaluate).2 _ rfl).1 ?_
  rintro (hsigns | ⟨v, hv, hlong⟩)
  · have hfault := Desk.compute_fault_iff.2 ⟨rfl, hsigns⟩
    rw [hcompute] at hfault
    cases hfault
  · rw [hcompute] at hv
    cases hv
    rcases hlong with hlong | hbeyond | hkept
    · exact hlong
    · exact @Decimal.ne_zero_of_isBeyondDisplay false 0 0 hbeyond rfl
    · cases hkept.1

def typedFactorial : Keypad :=
  ((new { exact := .truth true } [] false).strike (.text "2000!".toList)).keypad

/-- The factorial of 2000 becomes the last answer and then has no text, so that the buffer, the
mode, the display and the history know nothing of it. -/
theorem strike_typedFactorial :
    (∃ fault, (typedFactorial.strike .evaluate).reply = .error fault) ∧
      (typedFactorial.strike .evaluate).keypad.desk.answer ≠ typedFactorial.desk.answer ∧
      (typedFactorial.strike .evaluate).keypad.buffer = typedFactorial.buffer ∧
      (typedFactorial.strike .evaluate).keypad.mode = .editing ∧
      (typedFactorial.strike .evaluate).keypad.history.isEmpty := by
  have hstruck : (typedFactorial.strike .evaluate).reply.toBool = false ∧
      (typedFactorial.strike .evaluate).keypad.desk.answer ≠ typedFactorial.desk.answer ∧
      (typedFactorial.strike .evaluate).keypad.buffer = typedFactorial.buffer ∧
      (typedFactorial.strike .evaluate).keypad.mode = .editing ∧
      (typedFactorial.strike .evaluate).keypad.history.isEmpty := by
    decide +kernel
  exact ⟨exists_error_of_toBool hstruck.1, hstruck.2⟩

end Keypad

end DeskCalculator
