import DeskCalculator.Proofs.Keypad.Archive
import DeskCalculator.Proofs.Keypad.Consistency

/-!
# The history and the state file

The history of a keypad is what its evaluations have left: each enters its expression and its
result in front, the oldest entries drop out at the end, and one key empties it. `Keypad.Logs` is a
run of keys with the entries of their evaluations, from which `recorded` tells the history. The
state file is written after every change of the last answer, the memory or the history, so that it
never holds an older one of them (`history_of_logs`).
-/

namespace DeskCalculator

open StateFile (Entry)

def Struck.value? (struck : Struck) : Option Value :=
  match struck.reply with
  | .ok (some (.ok v)) => some v
  | _ => none

namespace Keypad

variable {k k₀ : Keypad} {log : List (Key × Option Entry)}

/-- The expression and the result of a key that evaluates an expression and gets a value. -/
def record? (k : Keypad) (key : Key) : Option Entry := do
  let expression ← k.expression? key
  let v ← (k.strike key).value?
  let result ← v.plain.toOption
  return Entry.ofTexts expression result

/-- The keypads that keys lead to, with the keys and their entries, the latest first. No fault has
escaped but that of a postfix key that does not exist. -/
inductive Logs (k₀ : Keypad) : List (Key × Option Entry) → Keypad → Prop
  | start : Logs k₀ [] k₀
  | strike {log : List (Key × Option Entry)} {k : Keypad} (before : Logs k₀ log k) (key : Key)
      (quiet : ∀ fault, (k.strike key).reply = .error fault →
        ∃ symbol, fault = .unknownPostfix symbol) :
      Logs k₀ ((key, k.record? key) :: log) (k.strike key).keypad

/-- The entries since the history was cleared, with the initial ones behind them if it never was. -/
def recorded (log : List (Key × Option Entry)) (initial : List Entry) : List Entry :=
  (log.takeWhile (·.1 ≠ .clearHistory)).filterMap Prod.snd ++
    bif log.any (·.1 = .clearHistory) then [] else initial

/-- The state file holds what is on the desk and in the history now. -/
def IsSaved (k : Keypad) : Prop :=
  ∃ archive t, k.archive = some archive ∧ archive.last = some t ∧
    StateFile.write k.desk k.history = .ok t

theorem keepsRecords_refl (k : Keypad) : k.KeepsRecords k := ⟨rfl, rfl, rfl⟩

theorem KeepsRecords.trans {k' k'' : Keypad} (h : k.KeepsRecords k') (h' : k'.KeepsRecords k'') :
    k.KeepsRecords k'' :=
  ⟨h'.desk.trans h.desk, h'.history.trans h.history, h'.archive.trans h.archive⟩

theorem KeepsRecords.isSaved {k' : Keypad} (h : k.KeepsRecords k') (hsaved : k.IsSaved) :
    k'.IsSaved := by
  obtain ⟨archive, t, harchive, hlast, hwrite⟩ := hsaved
  exact ⟨archive, t, h.archive.trans harchive, hlast, by rw [h.desk, h.history, hwrite]⟩

/-! ## Writing the state file -/

theorem isSaved_of_save {k' : Keypad} (hkept : k.keepsFile) (h : k.save = .ok k') :
    k'.IsSaved ∧ k'.history = k.history := by
  obtain ⟨archive, harchive⟩ := Option.isSome_iff_exists.1 hkept
  unfold save at h
  simp only [harchive] at h
  cases hwrite : StateFile.write k.desk k.history with
  | error fault =>
    rw [hwrite] at h
    cases h
  | ok t =>
    rw [hwrite] at h
    cases h
    exact ⟨⟨_, t, rfl, rfl, hwrite⟩, rfl⟩

theorem save_eq_ok_or (k : Keypad) :
    (∃ k', k.save = .ok k') ∨ k.save = .error .integerTooLong := by
  unfold save
  cases k.archive with
  | none => exact .inl ⟨k, rfl⟩
  | some archive =>
    by_cases hlong : k.desk.answer.IsTooLong ∨ k.desk.memory.IsTooLong
    · simp only [StateFile.write_of_isTooLong hlong]
      exact .inr rfl
    · obtain ⟨t, ht⟩ := StateFile.exists_write k.history (fun h => hlong (.inl h))
        (fun h => hlong (.inr h))
      simp only [ht]
      exact .inl ⟨_, rfl⟩

theorem isSaved_saving {reply : Reply} (hkept : k.keepsFile)
    (quiet : ∀ fault, (k.saving reply).reply = .error fault →
      ∃ symbol, fault = .unknownPostfix symbol) :
    (k.saving reply).keypad.IsSaved ∧ (k.saving reply).keypad.history = k.history := by
  unfold saving at quiet ⊢
  rcases k.save_eq_ok_or with ⟨k', hsave⟩ | hsave
  · rw [hsave]
    exact isSaved_of_save hkept hsave
  · rw [hsave] at quiet
    obtain ⟨symbol, hsymbol⟩ := quiet _ rfl
    cases hsymbol

/-! ## One key -/

/-- A memory key writes the state file, unless there is no number to take. -/
theorem isSaved_memorize_or {update : Desk → Value → Desk} (hkept : k.keepsFile)
    (quiet : ∀ fault, (k.memorize update).reply = .error fault →
      ∃ symbol, fault = .unknownPostfix symbol) :
    ((k.memorize update).keypad.IsSaved ∧ (k.memorize update).keypad.history = k.history) ∨
      k.KeepsRecords (k.memorize update).keypad := by
  unfold memorize at quiet ⊢
  cases hshown : k.shownNumber with
  | error p => exact .inr ⟨rfl, rfl, rfl⟩
  | ok v =>
    simp only [hshown] at quiet
    exact .inl (isSaved_saving (k := { k with desk := update k.desk v }) hkept quiet)

/-- A key that does not evaluate writes the state file or leaves alone what is in it, and only one
key changes the history. -/
theorem isSaved_act_or {key : Key} (hkept : k.keepsFile)
    (quiet : ∀ fault, (k.act key).reply = .error fault → ∃ symbol, fault = .unknownPostfix symbol) :
    (k.act key).keypad.history = (if key = .clearHistory then [] else k.history) ∧
      ((k.act key).keypad.IsSaved ∨ k.KeepsRecords (k.act key).keypad) := by
  cases hkey : key.writes with
  | false =>
    have hne : key ≠ .clearHistory := by
      rintro rfl
      cases hkey
    have hkeeps := k.keepsRecords_act hkey
    exact ⟨by rw [if_neg hne, hkeeps.history], .inr hkeeps⟩
  | true =>
    cases key with
    | memoryAdd | memorySubtract =>
      rcases isSaved_memorize_or hkept quiet with ⟨hsaved, hhistory⟩ | hkeeps
      · exact ⟨hhistory, .inl hsaved⟩
      · exact ⟨hkeeps.history, .inr hkeeps⟩
    | memoryClear =>
      obtain ⟨hsaved, hhistory⟩ :=
        isSaved_saving (k := { k with desk := k.desk.memoryClear }) hkept quiet
      exact ⟨hhistory, .inl hsaved⟩
    | clearHistory =>
      obtain ⟨hsaved, hhistory⟩ := isSaved_saving (k := { k with history := [] }) hkept quiet
      exact ⟨hhistory, .inl hsaved⟩
    | _ => cases hkey

/-- **One key.** An evaluation that has a value enters it into the history, and one key empties the
history. After a key the state file holds all there is now, or nothing in it has changed. -/
theorem history_strike {key : Key} (hkept : k.keepsFile)
    (quiet : ∀ fault, (k.strike key).reply = .error fault →
      ∃ symbol, fault = .unknownPostfix symbol) :
    (k.strike key).keypad.history =
        (match k.record? key with
          | some entry => (entry :: k.history).take historySize
          | none => if key = .clearHistory then [] else k.history) ∧
      ((k.strike key).keypad.IsSaved ∨ k.KeepsRecords (k.strike key).keypad) := by
  cases hexpression : k.expression? key with
  | none =>
    have hstrike : k.strike key = k.act key := by rw [strike, hexpression]
    rw [hstrike] at quiet ⊢
    rw [record?, hexpression]
    exact isSaved_act_or hkept quiet
  | some expression =>
    have hstrike : k.strike key = k.evaluate expression := by rw [strike, hexpression]
    have hne : key ≠ .clearHistory := by
      rintro rfl
      cases hexpression
    rw [record?, hexpression, hstrike]
    rw [hstrike] at quiet
    have h := settles_of_quiet quiet
    generalize k.evaluate expression = struck at h ⊢
    cases h with
    | problem compute => exact ⟨by rw [if_neg hne]; rfl, .inr ⟨rfl, rfl, rfl⟩⟩
    | value compute plain display save =>
      exact ⟨by simp [Struck.value?, plain, Except.toOption, showing],
        .inl (isSaved_of_save (k := k.showing _ _ _ _) hkept save).1⟩

/-! ## Runs of keys -/

theorem recorded_cons (key : Key) (entry : Option Entry) (log : List (Key × Option Entry))
    (initial : List Entry) :
    recorded ((key, entry) :: log) initial =
      if key = .clearHistory then [] else entry.toList ++ recorded log initial := by
  by_cases hkey : key = .clearHistory
  · subst hkey
    simp [recorded]
  · cases entry <;> simp [recorded, hkey]

theorem records_of_logs (hkept : k₀.keepsFile) (hsize : k₀.history.length ≤ historySize)
    (h : k₀.Logs log k) :
    k.keepsFile ∧ k.history = (recorded log k₀.history).take historySize ∧
      (k.IsSaved ∨ k₀.KeepsRecords k) := by
  induction h with
  | start => exact ⟨hkept, (List.take_of_length_le hsize).symm, .inr (keepsRecords_refl k₀)⟩
  | @strike log k before key quiet ih =>
    obtain ⟨hkept, hhistory, hsaved⟩ := ih
    obtain ⟨hhistory', hsaved'⟩ := history_strike hkept quiet
    refine ⟨by rw [keepsFile_strike, hkept], ?_, ?_⟩
    · rw [hhistory', recorded_cons]
      cases hentry : k.record? key with
      | none =>
        show (if key = .clearHistory then [] else k.history) = _
        split
        · rfl
        · exact hhistory
      | some entry =>
        have hne : key ≠ .clearHistory := by
          rintro rfl
          cases hentry
        rw [if_neg hne, if_neg hne, hhistory]
        show (entry :: (recorded log k₀.history).take historySize).take historySize =
          (entry :: recorded log k₀.history).take historySize
        rw [historySize, List.take_succ_cons, List.take_succ_cons, List.take_take]
        rfl
    · rcases hsaved' with hsaved' | hkeeps
      · exact .inl hsaved'
      · exact hsaved.imp hkeeps.isSaved (·.trans hkeeps)

/-- **The history and the state file are never stale.** Whatever keys have been struck on a keypad
with a state file that is not written yet, and with no more entries than fit, the history is the
first entries of those of the evaluations since it was cleared, the latest first, with the initial
ones behind them if it never was. What was last written to the state file is the desk and the
history of now; if nothing was written yet, they are still the initial ones. -/
theorem history_of_logs {archive₀ : Archive} (hstore : k₀.archive = some archive₀)
    (hnew : archive₀.last = none) (hsize : k₀.history.length ≤ historySize) (h : k₀.Logs log k) :
    k.history = (recorded log k₀.history).take historySize ∧
      ∃ archive, k.archive = some archive ∧
        (∀ t, archive.last = some t → StateFile.write k.desk k.history = .ok t) ∧
        (archive.last = none → k.desk.answer = k₀.desk.answer ∧
          k.desk.memory = k₀.desk.memory ∧ k.history = k₀.history) := by
  have hkept : k₀.keepsFile := by rw [keepsFile, hstore]; rfl
  obtain ⟨-, hhistory, hsaved⟩ := records_of_logs hkept hsize h
  refine ⟨hhistory, ?_⟩
  rcases hsaved with ⟨archive, t, harchive, hlast, hwrite⟩ | hkeeps
  · refine ⟨archive, harchive, fun t' ht' => ?_, fun hnone => ?_⟩
    · obtain rfl : t = t' := Option.some.inj (hlast.symm.trans ht')
      exact hwrite
    · rw [hlast] at hnone
      cases hnone
  · refine ⟨archive₀, hkeeps.archive.trans hstore, fun t ht => ?_, fun _ => ?_⟩
    · rw [hnew] at ht
      cases ht
    · exact ⟨congrArg _ hkeeps.desk, congrArg _ hkeeps.desk, hkeeps.history⟩

/-- The last answer is typed and evaluated, and then a postfix key is struck that does not exist. -/
theorem history_of_logs_answer :
    let k₀ := new {} [.ofTexts ['e'] ['2']] true
    let typed := (k₀.strike (.text ['a', 'n', 's'])).keypad
    let evaluated := (typed.strike .evaluate).keypad
    let struck := (evaluated.strike (.postfixed ['?'])).keypad
    struck.history = [.ofTexts ['a', 'n', 's'] ['0'], .ofTexts ['e'] ['2']] ∧
      ∃ archive, struck.archive = some archive ∧ archive.last ≠ none ∧
        ∀ t, archive.last = some t → StateFile.write struck.desk struck.history = .ok t := by
  intro k₀ typed evaluated struck
  have hevaluate : (typed.strike .evaluate).reply = .ok (some (.ok (.decimal .zero))) := rfl
  have hstruck : (evaluated.strike (.postfixed ['?'])).reply = .error (.unknownPostfix ['?']) := rfl
  have hlogs : k₀.Logs [(.postfixed ['?'], evaluated.record? (.postfixed ['?'])),
      (.evaluate, typed.record? .evaluate),
      (.text ['a', 'n', 's'], k₀.record? (.text ['a', 'n', 's']))] struck := by
    refine .strike (.strike (.strike .start (.text ['a', 'n', 's']) nofun) .evaluate ?_)
      (.postfixed ['?']) ?_
    · intro fault hfault
      cases hevaluate.symm.trans hfault
    · intro fault hfault
      exact ⟨['?'], Except.error.inj (hfault.symm.trans hstruck)⟩
  obtain ⟨hhistory, archive, harchive, hlast, -⟩ := history_of_logs rfl rfl (by decide) hlogs
  refine ⟨hhistory, archive, harchive, ?_, hlast⟩
  have hsaved : (struck.archive.bind Archive.last).isSome := by decide +kernel
  rintro hnone
  rw [harchive] at hsaved
  simp [hnone] at hsaved

end Keypad

end DeskCalculator
