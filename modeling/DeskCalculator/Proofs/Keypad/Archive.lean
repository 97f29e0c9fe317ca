import DeskCalculator.Keypad

/-!
# What has been written before

A keypad notes how often it has written the state file and what it wrote the last time, and no key
ever reads this. So it makes no difference whether a file was already written when a key is struck
(`Keypad.strike_after`): the key does the same, and what it writes comes after what was written
before. Nor does any key start or stop keeping a file (`Keypad.keepsFile_strike`), and few keys change
what a file holds (`Keypad.keepsRecords_act`).
-/

namespace DeskCalculator

/-- What has been written in all, if `before` was written first. -/
def Archive.after (archive before : Archive) : Archive where
  saves := before.saves + archive.saves
  last := archive.last.or before.last

namespace Keypad

def after (k : Keypad) (before : Archive) : Keypad :=
  { k with archive := k.archive.map (·.after before) }

end Keypad

def Struck.after (struck : Struck) (before : Archive) : Struck :=
  { struck with keypad := struck.keypad.after before }

/-- Whether a key changes the memory or the history and then writes the state file. -/
def Key.writes : Key → Bool
  | memoryAdd | memorySubtract | memoryClear | clearHistory => true
  | _ => false

namespace Keypad

variable (k : Keypad) (before : Archive)

/-! ## Writing the state file -/

theorem save_after : (k.after before).save = k.save.map (·.after before) := by
  cases harchive : k.archive with
  | none => simp only [save, after, harchive, Option.map_none, Except.map]
  | some archive =>
    simp only [save, after, harchive, Option.map_some]
    cases StateFile.write k.desk k.history <;> rfl

theorem saving_after (reply : Reply) :
    (k.after before).saving reply = (k.saving reply).after before := by
  unfold saving
  rw [save_after]
  cases k.save <;> rfl

/-! ## Keys -/

theorem showResult_after (expression : Text) (v : Value) :
    (k.after before).showResult expression v = (k.showResult expression v).after before := by
  unfold showResult
  cases v.plain with
  | error f => rfl
  | ok result =>
    cases v.display with
    | error f => rfl
    | ok shown =>
      let shownAs : Keypad :=
        { k with buffer := result, mode := .evaluated, display := shown
                 subdisplay := expression ++ [' ', '='], problem := none }
      exact saving_after (shownAs.record expression result) before _

theorem evaluate_after (expression : Text) :
    (k.after before).evaluate expression = (k.evaluate expression).after before := by
  have hdesk : (k.after before).desk = k.desk := rfl
  simp only [evaluate, hdesk]
  match k.desk.evaluate expression with
  | .error f => rfl
  | .ok (_, .error p) => rfl
  | .ok (desk, .ok v) => exact showResult_after { k with desk, buffer := expression } before _ v

theorem memorize_after (update : Desk → Value → Desk) :
    (k.after before).memorize update = (k.memorize update).after before := by
  have hnumber : (k.after before).shownNumber = k.shownNumber := rfl
  simp only [memorize, hnumber]
  cases k.shownNumber with
  | error p => rfl
  | ok v => exact saving_after { k with desk := update k.desk v } before _

theorem type_after (t : Text) : (k.after before).type t = (k.type t).after before := by
  have hmode : (k.after before).mode = k.mode := rfl
  simp only [type, hmode]
  split <;> rfl

theorem backspace_after : (k.after before).backspace = k.backspace.after before := by
  have hmode : (k.after before).mode = k.mode := rfl
  simp only [backspace, hmode]
  split <;> rfl

theorem openCall_after (name : Text) :
    (k.after before).openCall name = (k.openCall name).after before := by
  have hmode : (k.after before).mode = k.mode := rfl
  simp only [openCall, hmode]
  split
  · rfl
  · split <;> rfl

theorem act_after (key : Key) : (k.after before).act key = (k.act key).after before := by
  cases key with
  | text t => exact congrArg silent (type_after k before t)
  | function name => exact congrArg silent (openCall_after k before name)
  | postfixed symbol =>
    simp only [act]
    split <;> rfl
  | backspace => exact congrArg silent (backspace_after k before)
  | memoryRecall =>
    have hdesk : (k.after before).desk = k.desk := rfl
    simp only [act, hdesk]
    cases k.desk.memory.plain <;> rfl
  | memoryAdd => exact memorize_after k before _
  | memorySubtract => exact memorize_after k before _
  | memoryClear => exact saving_after { k with desk := k.desk.memoryClear } before _
  | clearHistory => exact saving_after { k with history := [] } before _
  | _ => rfl

theorem expression?_after (key : Key) : (k.after before).expression? key = k.expression? key := by
  cases key <;> rfl

/-- **A key** does the same whatever was written before. -/
theorem strike_after (key : Key) : (k.after before).strike key = (k.strike key).after before := by
  simp only [strike, expression?_after]
  cases k.expression? key with
  | none => exact act_after k before key
  | some expression => exact evaluate_after k before expression

/-! ## Keys that write nothing -/

/-- The desk, the history and the state file are as they were. -/
structure KeepsRecords (k k' : Keypad) : Prop where
  desk : k'.desk = k.desk
  history : k'.history = k.history
  archive : k'.archive = k.archive

/-- **A key that writes nothing** only changes what is typed and shown. -/
theorem keepsRecords_act {key : Key} (hkey : key.writes = false) :
    k.KeepsRecords (k.act key).keypad := by
  cases key with
  | text t =>
    simp only [act, type]
    split <;> exact ⟨rfl, rfl, rfl⟩
  | function name =>
    simp only [act, openCall]
    split
    · exact ⟨rfl, rfl, rfl⟩
    · split <;> exact ⟨rfl, rfl, rfl⟩
  | postfixed symbol =>
    simp only [act]
    split <;> exact ⟨rfl, rfl, rfl⟩
  | backspace =>
    simp only [act, backspace]
    split <;> exact ⟨rfl, rfl, rfl⟩
  | memoryRecall =>
    simp only [act]
    split <;> exact ⟨rfl, rfl, rfl⟩
  | memoryAdd | memorySubtract | memoryClear | clearHistory => cases hkey
  | _ => exact ⟨rfl, rfl, rfl⟩

/-! ## Keeping a state file -/

def keepsFile (k : Keypad) : Bool := k.archive.isSome

theorem keepsFile_saving (reply : Reply) : (k.saving reply).keypad.keepsFile = k.keepsFile := by
  unfold saving save keepsFile
  cases harchive : k.archive with
  | none => simp only [harchive]
  | some archive =>
    cases StateFile.write k.desk k.history with
    | error f => simp only [Except.map, harchive]
    | ok t => rfl

theorem keepsFile_evaluate (expression : Text) :
    (k.evaluate expression).keypad.keepsFile = k.keepsFile := by
  simp only [evaluate]
  match k.desk.evaluate expression with
  | .error f => rfl
  | .ok (_, .error p) => rfl
  | .ok (desk, .ok v) =>
    simp only [showResult]
    cases v.plain with
    | error f => rfl
    | ok result =>
      cases v.display with
      | error f => rfl
      | ok shown => exact keepsFile_saving _ _

theorem keepsFile_memorize (update : Desk → Value → Desk) :
    (k.memorize update).keypad.keepsFile = k.keepsFile := by
  unfold memorize
  cases k.shownNumber with
  | error p => rfl
  | ok v => exact keepsFile_saving _ _

theorem keepsFile_act (key : Key) : (k.act key).keypad.keepsFile = k.keepsFile := by
  cases hkey : key.writes with
  | false => exact congrArg Option.isSome (k.keepsRecords_act hkey).archive
  | true =>
    cases key with
    | memoryAdd | memorySubtract => exact keepsFile_memorize k _
    | memoryClear | clearHistory => exact keepsFile_saving _ _
    | _ => cases hkey

theorem keepsFile_strike (key : Key) : (k.strike key).keypad.keepsFile = k.keepsFile := by
  unfold strike
  split
  · exact keepsFile_evaluate k _
  · exact keepsFile_act k key

end Keypad

end DeskCalculator
