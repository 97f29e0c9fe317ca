import DeskCalculator.Proofs.Decimal.SumOverflow
import DeskCalculator.Proofs.Keypad.Archive
import DeskCalculator.Proofs.Keypad.Evaluation
import DeskCalculator.Proofs.Stack.Step

/-!
# Whether the registers stay finite

Three ways lead into the registers of a desk: an evaluation, whose value is finite, a number that is
typed, which has to be finite, and the last answer. But the memory is changed by a sum or a
difference that nothing checks, and this may overflow: `Overflows` says when a key does that. The
last answer stays finite under all keys, and the memory exactly as long as no key overflows
(`hasFiniteRegisters_iff`).
-/

namespace DeskCalculator

structure Desk.HasFiniteRegisters (desk : Desk) : Prop where
  answer : desk.answer.isFinite
  memory : desk.memory.isFinite

/-! ## Sums and differences -/

namespace Desk

variable {desk : Desk} {a b : Value} {x y : ℚ}

theorem isFinite_sum_iff (ha : a.toRat? = some x) (hb : b.toRat? = some y) :
    (desk.sum a b).isFinite ↔ (a.isExact && b.isExact) ∨ |x + y| < desk.context.overflowBound := by
  rw [← Value.toRat?_toDecimal] at ha hb
  have hdecimal := Context.isFinite_add_iff desk.isWide_context ha hb
  cases a <;> cases b <;> simp_all [sum, Value.isExact, Value.isFinite, Value.toDecimal]

theorem isFinite_difference_iff (ha : a.toRat? = some x) (hb : b.toRat? = some y) :
    (desk.difference a b).isFinite ↔
      (a.isExact && b.isExact) ∨ |x - y| < desk.context.overflowBound := by
  rw [← Value.toRat?_toDecimal] at ha hb
  have hdecimal := Context.isFinite_sub_iff desk.isWide_context ha hb
  cases a <;> cases b <;> simp_all [difference, Value.isExact, Value.isFinite, Value.toDecimal]

end Desk

def Key.changesMemory : Key → Bool
  | memoryAdd | memorySubtract | memoryClear => true
  | _ => false

namespace Keypad

variable {k : Keypad} {key : Key} {keys : List Key}

/-- The memory and the number that is shown, not both of them integers, whose sum or difference is
beyond the range of the decimals. -/
def OverflowsBy (k : Keypad) (combine : ℚ → ℚ → ℚ) : Prop :=
  ∃ v x y, k.shownNumber = .ok v ∧ ¬ (k.desk.memory.isExact && v.isExact) ∧
    k.desk.memory.toRat? = some x ∧ v.toRat? = some y ∧
    k.desk.context.overflowBound ≤ |combine x y|

/-- A memory key brings the memory out of the range of the decimals. -/
def Overflows (k : Keypad) : Key → Prop
  | .memoryAdd => k.OverflowsBy (· + ·)
  | .memorySubtract => k.OverflowsBy (· - ·)
  | _ => False

/-- The keypad after several keys. Where a fault escapes, the next key goes on from what it left. -/
def strikeAll (k : Keypad) (keys : List Key) : Keypad :=
  keys.foldl (fun k key => (k.strike key).keypad) k

/-! ## One key -/

@[simp] theorem desk_saving (k : Keypad) (reply : Reply) :
    (k.saving reply).keypad.desk = k.desk := by
  obtain ⟨archive, hsaving⟩ := k.exists_keypad_saving reply
  rw [hsaving]

theorem desk_act (k : Keypad) (hkey : key.changesMemory = false) :
    (k.act key).keypad.desk = k.desk := by
  cases hwrites : key.writes with
  | false => exact (k.keepsRecords_act hwrites).desk
  | true =>
    cases key with
    | clearHistory => exact desk_saving _ _
    | memoryAdd | memorySubtract | memoryClear => cases hkey
    | _ => cases hwrites

theorem answer_memorize (k : Keypad) {update : Desk → Value → Desk}
    (hanswer : ∀ v, (update k.desk v).answer = k.desk.answer) :
    (k.memorize update).keypad.desk.answer = k.desk.answer := by
  unfold memorize
  split
  · rfl
  · rw [desk_saving]
    exact hanswer _

theorem answer_act (k : Keypad) (key : Key) : (k.act key).keypad.desk.answer = k.desk.answer := by
  cases key with
  | memoryAdd | memorySubtract => exact answer_memorize k fun _ => rfl
  | memoryClear =>
    rw [act, desk_saving]
    rfl
  | _ => rw [desk_act k rfl]

theorem desk_evaluate (k : Keypad) (expression : Text) :
    (k.evaluate expression).keypad.desk = k.desk ∨
      ∃ v, k.desk.compute expression = .ok v ∧
        (k.evaluate expression).keypad.desk = k.desk.setAnswer v := by
  by_cases hfails : k.FailsMidway expression
  · generalize k.evaluate expression = struck, breaks_evaluate hfails = h
    cases h with
    | computing => exact .inl rfl
    | writing compute => exact .inr ⟨_, compute, rfl⟩
    | displaying compute => exact .inr ⟨_, compute, rfl⟩
    | saving compute => exact .inr ⟨_, compute, rfl⟩
  · generalize k.evaluate expression = struck, settles_evaluate hfails = h
    cases h with
    | value compute => exact .inr ⟨_, compute, rfl⟩
    | problem compute => exact .inl rfl

theorem isFinite_of_compute {desk : Desk} {expression : Text} {v : Value}
    (h : desk.compute expression = .ok v) : v.isFinite := by
  unfold Desk.compute at h
  split at h
  · exact (Stack.run_eq_ok_iff.1 h).2
  · cases h

theorem isFinite_of_shownNumber {v : Value} (hanswer : k.desk.answer.isFinite)
    (h : k.shownNumber = .ok v) : v.isFinite := by
  unfold shownNumber at h
  split at h
  · cases h
    exact hanswer
  · split at h
    · split at h
      · cases h
        assumption
      · cases h
    · cases h

theorem hasFiniteRegisters_evaluate (h : k.desk.HasFiniteRegisters) (expression : Text) :
    (k.evaluate expression).keypad.desk.HasFiniteRegisters := by
  rcases k.desk_evaluate expression with hdesk | ⟨v, hcompute, hdesk⟩
  · rwa [hdesk]
  · rw [hdesk]
    exact ⟨isFinite_of_compute hcompute, h.memory⟩

/-- A memory key fails, or combines the memory with a finite number. -/
theorem hasFiniteRegisters_memorize_iff (h : k.desk.HasFiniteRegisters)
    {update : Desk → Value → Desk} {combine : ℚ → ℚ → ℚ}
    (hanswer : ∀ v, (update k.desk v).answer = k.desk.answer)
    (hmemory : ∀ v x y, k.desk.memory.toRat? = some x → v.toRat? = some y →
      ((update k.desk v).memory.isFinite ↔ (k.desk.memory.isExact && v.isExact) ∨
        |combine x y| < k.desk.context.overflowBound)) :
    (k.memorize update).keypad.desk.HasFiniteRegisters ↔ ¬ k.OverflowsBy combine := by
  unfold memorize
  cases hshown : k.shownNumber with
  | error p => exact iff_of_true h (by simp [OverflowsBy, hshown])
  | ok v =>
    obtain ⟨x, hx⟩ := Value.exists_toRat? h.memory
    obtain ⟨y, hy⟩ := Value.exists_toRat? (isFinite_of_shownNumber h.answer hshown)
    have hoverflows : k.OverflowsBy combine ↔ ¬ (k.desk.memory.isExact && v.isExact) ∧
        k.desk.context.overflowBound ≤ |combine x y| := by
      simp [OverflowsBy, hshown, hx, hy]
    rw [hoverflows, ← not_lt, ← not_or, not_not, ← hmemory v x y hx hy]
    simp only [desk_saving]
    exact ⟨fun hregisters => hregisters.memory, fun hfinite => ⟨hanswer v ▸ h.answer, hfinite⟩⟩

/-- **One key** leaves finite registers finite, unless it overflows. -/
theorem hasFiniteRegisters_strike_iff (h : k.desk.HasFiniteRegisters) (key : Key) :
    (k.strike key).keypad.desk.HasFiniteRegisters ↔ ¬ k.Overflows key := by
  have hexpression : ∀ {expression}, k.expression? key = some expression → ¬ k.Overflows key := by
    intro expression hexpression
    cases key <;> first | exact not_false | cases hexpression
  unfold strike
  split
  · rename_i expression hsome
    exact iff_of_true (hasFiniteRegisters_evaluate h expression) (hexpression hsome)
  · cases key with
    | memoryAdd =>
      exact hasFiniteRegisters_memorize_iff h (fun _ => rfl) fun _ _ _ => Desk.isFinite_sum_iff
    | memorySubtract =>
      exact hasFiniteRegisters_memorize_iff h (fun _ => rfl)
        fun _ _ _ => Desk.isFinite_difference_iff
    | memoryClear =>
      refine iff_of_true ?_ not_false
      rw [act, desk_saving]
      exact ⟨h.answer, rfl⟩
    | _ =>
      refine iff_of_true ?_ not_false
      rw [desk_act k rfl]
      exact h

theorem isFinite_answer_strike (h : k.desk.answer.isFinite) (key : Key) :
    (k.strike key).keypad.desk.answer.isFinite := by
  unfold strike
  split
  · rename_i expression _
    rcases k.desk_evaluate expression with hdesk | ⟨v, hcompute, hdesk⟩
    · rwa [hdesk]
    · rw [hdesk]
      exact isFinite_of_compute hcompute
  · rwa [answer_act]

/-! ## Runs of keys -/

theorem strikeAll_append (k : Keypad) (before after : List Key) :
    k.strikeAll (before ++ after) = (k.strikeAll before).strikeAll after := List.foldl_append ..

theorem isFinite_answer_strikeAll (h : k.desk.answer.isFinite) (keys : List Key) :
    (k.strikeAll keys).desk.answer.isFinite := by
  induction keys generalizing k with
  | nil => exact h
  | cons key keys ih => exact ih (isFinite_answer_strike h key)

/-- Along a run of keys the registers are finite as long as no key has overflowed. -/
theorem hasFiniteRegisters_strikeAll (h : k.desk.HasFiniteRegisters)
    (hkeys : ∀ before key after, keys = before ++ key :: after →
      ¬ (k.strikeAll before).Overflows key) : (k.strikeAll keys).desk.HasFiniteRegisters := by
  induction keys generalizing k with
  | nil => exact h
  | cons key keys ih =>
    have hkey := (hasFiniteRegisters_strike_iff h key).2 (hkeys [] key keys rfl)
    refine ih hkey fun before key' after hsplit => ?_
    exact hkeys (key :: before) key' after (by rw [hsplit]; rfl)

/-- **Whether the registers stay finite.** The last answer does, whatever keys are struck. Both
registers are finite at first and after each key if and only if they are finite at first and no key
brings the sum or the difference that goes into the memory out of the range of the decimals. -/
theorem hasFiniteRegisters_iff (k : Keypad) (keys : List Key) :
    (k.desk.answer.isFinite → (k.strikeAll keys).desk.answer.isFinite) ∧
    ((∀ before after, keys = before ++ after → (k.strikeAll before).desk.HasFiniteRegisters) ↔
      k.desk.HasFiniteRegisters ∧
        ∀ before key after, keys = before ++ key :: after → ¬ (k.strikeAll before).Overflows key) := by
  refine ⟨fun h => isFinite_answer_strikeAll h keys, fun h => ⟨h [] keys rfl, ?_⟩, ?_⟩
  · intro before key after hsplit
    have hbefore := h before (key :: after) hsplit
    have hafter := h (before ++ [key]) after (by simp [hsplit])
    rw [strikeAll_append] at hafter
    exact (hasFiniteRegisters_strike_iff hbefore key).1 hafter
  · rintro ⟨hstart, hkeys⟩ before after rfl
    exact hasFiniteRegisters_strikeAll hstart fun first key rest hsplit =>
      hkeys first key (rest ++ after) (by simp [hsplit])

/-- A number near the end of the range is added to the memory twice. -/
theorem memory_after_overflow :
    let k : Keypad := .new {} [] false
    let keys : List Key := [.text (Text.ofString "9e999999999999999999"), .memoryAdd, .memoryAdd]
    k.desk.HasFiniteRegisters ∧ (k.strikeAll keys).desk.memory = .decimal (.infinite false) :=
  ⟨⟨rfl, rfl⟩, by decide +kernel⟩

end Keypad

end DeskCalculator
