import DeskCalculator.CommandLine.Console
import DeskCalculator.Proofs.CommandLine.Registers
import DeskCalculator.Proofs.Keypad.Archive

/-!
# Lines and the state file

What holds of every key with regard to the state file holds of every line, whether it is an
expression or a command, and so of many lines: they are worked through in the same way whatever was
written before (`turns_after`), and a file is kept behind them if one was kept before them
(`keepsFile_turns`).
-/

namespace DeskCalculator.CommandLine

/-! ## What was written before -/

/-- A turn, if something was written to the state file before it. -/
def Turn.after (turn : Turn) (before : Archive) : Turn :=
  { turn with keypad := turn.keypad.after before }

section After

variable (verbose : Bool) (k : Keypad) (before : Archive)

namespace Turn

theorem notes_after (key : Key) (reply : Except Fault Reply) :
    notes (k.after before) key reply = notes k key reply := by
  have hbuffer : (k.after before).buffer = k.buffer := rfl
  simp only [notes, Keypad.expression?_after, hbuffer]

theorem printing_after (prints : List Print) (result : Except Fault (List Print)) :
    printing (k.after before) prints result = (printing k prints result).after before := by
  cases result <;> rfl

theorem strike_after (key : Key) {shown : Keypad → Option Value → Except Fault (List Print)}
    (hshown : ∀ k v, shown (k.after before) v = shown k v) :
    strike verbose (k.after before) key shown = (strike verbose k key shown).after before := by
  have hreply : ((k.strike key).after before).reply = (k.strike key).reply := rfl
  have hkeypad : ((k.strike key).after before).keypad = (k.strike key).keypad.after before := rfl
  simp only [strike, Keypad.strike_after, notes_after, hreply, hkeypad, hshown]
  cases (k.strike key).reply with
  | error f => rfl
  | ok reply =>
    cases reply with
    | none => exact printing_after _ _ _ _
    | some outcome =>
      cases outcome with
      | error p => rfl
      | ok v => exact printing_after _ _ _ _

theorem showBuffer_after (k : Keypad) (v : Option Value) :
    showBuffer (k.after before) v = showBuffer k v := by
  cases v <;> rfl

theorem showRest_after (k : Keypad) (v : Option Value) :
    showRest (k.after before) v = showRest k v := rfl

theorem showMemory_after (k : Keypad) (v : Option Value) :
    showMemory (k.after before) v = showMemory k v := rfl

theorem showNothing_after (k : Keypad) (v : Option Value) :
    showNothing (k.after before) v = showNothing k v := rfl

theorem ofCommand_after (c : Command) :
    ofCommand verbose (k.after before) c = (ofCommand verbose k c).after before := by
  have hdesk : (k.after before).desk = k.desk := rfl
  cases c with
  | key key => exact strike_after verbose k before key (showBuffer_after before)
  | backspace => exact strike_after verbose k before .backspace (showRest_after before)
  | memoryAdd | memorySubtract => exact strike_after verbose k before _ (showMemory_after before)
  | memoryClear | forget => exact strike_after verbose k before _ (showNothing_after before)
  | precision setting =>
    simp only [ofCommand, hdesk]
    cases k.desk.setPrecision (.string setting) <;> rfl
  | answer | memory => exact printing_after k before _ _
  | _ => rfl

end Turn

theorem typing_after (t : Text) : typing (k.after before) t = (typing k t).after before := by
  have hmode : (k.after before).mode = k.mode := rfl
  have hclear : (k.after before).clear = k.clear.after before := rfl
  simp only [typing, hmode, hclear]
  split <;> exact Keypad.type_after _ before t

theorem Turn.ofLine_after (line : Line) :
    ofLine verbose (k.after before) line = (ofLine verbose k line).after before := by
  cases line with
  | blank => rfl
  | command c => exact ofCommand_after verbose k before c
  | expression t =>
    simp only [ofLine, ofExpression_eq, typing_after]
    exact strike_after verbose _ before _ (showBuffer_after before)

/-- **Lines** are worked through in the same way whatever was written before. -/
theorem turns_after (lines : List Text) :
    turns verbose (k.after before) lines = (turns verbose k lines).after before := by
  induction lines generalizing k with
  | nil => rfl
  | cons line rest ih =>
    have hturn := Turn.ofLine_after verbose k before (.ofText line)
    simp only [turns, hturn]
    have hfault : ((Turn.ofLine verbose k (.ofText line)).after before).fault =
      (Turn.ofLine verbose k (.ofText line)).fault := rfl
    have hkeypad : ((Turn.ofLine verbose k (.ofText line)).after before).keypad =
      (Turn.ofLine verbose k (.ofText line)).keypad.after before := rfl
    rw [hfault, hkeypad, ih]
    cases (Turn.ofLine verbose k (.ofText line)).fault <;> rfl

end After

/-! ## Keeping a state file -/

theorem Turn.keypad_strike (verbose : Bool) (k : Keypad) (key : Key)
    (shown : Keypad → Option Value → Except Fault (List Print)) :
    (strike verbose k key shown).keypad = (k.strike key).keypad := by
  have hprinting : ∀ k notes result, (printing k notes result).keypad = k := by
    intro k notes result
    cases result <;> rfl
  unfold strike
  simp only
  split
  · rfl
  · exact hprinting _ _ _
  · exact hprinting _ _ _
  · rfl

/-- Typing changes only what is typed, to a text that ends in the expression. -/
theorem typing_eq (k : Keypad) (t : Text) : ∃ text subdisplay, t <:+ text ∧
    typing k t = { k.edit text with subdisplay } := by
  unfold typing Keypad.type
  split <;> split
  · exact ⟨t, [], List.suffix_rfl, rfl⟩
  · exact ⟨_, [], List.suffix_append _ _, rfl⟩
  · exact ⟨t, k.subdisplay, List.suffix_rfl, rfl⟩
  · exact ⟨_, k.subdisplay, List.suffix_append _ _, rfl⟩

section KeepsFile

variable (verbose : Bool) (k : Keypad)

theorem Turn.keepsFile_strike (key : Key)
    (shown : Keypad → Option Value → Except Fault (List Print)) :
    (strike verbose k key shown).keypad.keepsFile = k.keepsFile := by
  rw [keypad_strike, Keypad.keepsFile_strike]

theorem Turn.keepsFile_ofCommand (c : Command) :
    (ofCommand verbose k c).keypad.keepsFile = k.keepsFile := by
  have hprinting : ∀ result, (printing k [] result).keypad.keepsFile = k.keepsFile := by
    intro result
    cases result <;> rfl
  cases c with
  | key | backspace | memoryAdd | memorySubtract | memoryClear | forget =>
    exact keepsFile_strike verbose k _ _
  | precision setting =>
    simp only [ofCommand]
    split <;> rfl
  | answer | memory => exact hprinting _
  | _ => rfl

theorem Turn.keepsFile_ofLine (line : Line) :
    (ofLine verbose k line).keypad.keepsFile = k.keepsFile := by
  cases line with
  | blank => rfl
  | command c => exact keepsFile_ofCommand verbose k c
  | expression t =>
    obtain ⟨text, subdisplay, -, htyping⟩ := typing_eq k t
    simp only [ofLine, ofExpression_eq, htyping, keepsFile_strike]
    rfl

theorem keepsFile_turns (lines : List Text) :
    (turns verbose k lines).keypad.keepsFile = k.keepsFile := by
  induction lines generalizing k with
  | nil => rfl
  | cons line rest ih =>
    rw [turns, ← Turn.keepsFile_ofLine verbose k (.ofText line)]
    simp only
    split
    · rfl
    · exact ih _

end KeepsFile

end DeskCalculator.CommandLine
