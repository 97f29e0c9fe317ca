import DeskCalculator.Proofs.Keypad.Evaluation

/-!
# What a keypad shows

The registers of a keypad are written by a dozen keys, some of which fill the buffer before they
evaluate it. `Keypad.IsConsistent` says what they have to do with each other between two keys: a
result is the last answer, an expression in the making is on the display as it is, and a problem
stands alone. Every key keeps this (`isConsistent_strike`), and so does every run of keys
(`isConsistent_of_reaches`), unless a fault stops an evaluation or the writing of the state file.
-/

namespace DeskCalculator.Keypad

variable {k : Keypad}

/-- The registers fit together. -/
structure IsConsistent (k : Keypad) : Prop where
  /-- A result is the last answer, as an expression in the buffer and for people on the display, with
  what was evaluated above it. -/
  evaluated : k.mode = .evaluated → k.problem = none ∧ k.desk.answer.plain = .ok k.buffer ∧
    k.desk.answer.display = .ok k.display ∧ [' ', '='] <:+ k.subdisplay
  /-- An expression in the making is on the display. -/
  editing : k.mode = .editing → k.problem = none → k.display = k.buffer
  /-- A problem leaves nothing to go on with. -/
  problem : ∀ p, k.problem = some p →
    k.mode = .editing ∧ k.buffer = [] ∧ k.subdisplay = [] ∧ k.display = p.display

/-- The keypads that keys lead to, as long as none of them lets a fault escape but a postfix key that
does not exist. -/
inductive Reaches (k : Keypad) : Keypad → Prop
  | start : Reaches k k
  | strike {k' : Keypad} (before : Reaches k k') (key : Key)
      (quiet : ∀ fault, (k'.strike key).reply = .error fault →
        ∃ symbol, fault = .unknownPostfix symbol) :
      Reaches k (k'.strike key).keypad

/-! ## Keys that do not evaluate -/

theorem isConsistent_new (desk : Desk) (history : List StateFile.Entry) (keepsFile : Bool) :
    (new desk history keepsFile).IsConsistent where
  evaluated := nofun
  editing _ _ := rfl
  problem := nofun

theorem isConsistent_edit (k : Keypad) (buffer : Text) : (k.edit buffer).IsConsistent where
  evaluated := nofun
  editing _ _ := rfl
  problem := nofun

theorem isConsistent_clear (k : Keypad) : k.clear.IsConsistent where
  evaluated := nofun
  editing _ _ := rfl
  problem := nofun

theorem isConsistent_failing (k : Keypad) (p : Problem) : (k.failing p).IsConsistent where
  evaluated := nofun
  editing _ := nofun
  problem := by
    rintro _ ⟨⟩
    exact ⟨rfl, rfl, rfl, rfl⟩

theorem isConsistent_type (k : Keypad) (t : Text) : (k.type t).IsConsistent := by
  unfold type
  split
  · exact isConsistent_edit k t
  · exact isConsistent_edit k _

theorem isConsistent_backspace (k : Keypad) : k.backspace.IsConsistent := by
  unfold backspace
  cases k.mode with
  | evaluated => exact isConsistent_clear k
  | editing => exact isConsistent_edit k _

theorem isConsistent_openCall (k : Keypad) (name : Text) : (k.openCall name).IsConsistent := by
  unfold openCall
  cases k.mode with
  | editing => exact isConsistent_edit k _
  | evaluated =>
    dsimp only
    split <;> exact isConsistent_edit k _

theorem IsConsistent.of_eq {k' : Keypad} (h : k.IsConsistent)
    (hanswer : k'.desk.answer = k.desk.answer) (hbuffer : k'.buffer = k.buffer)
    (hmode : k'.mode = k.mode) (hdisplay : k'.display = k.display)
    (hsubdisplay : k'.subdisplay = k.subdisplay) (hproblem : k'.problem = k.problem) :
    k'.IsConsistent where
  evaluated := by
    rw [hanswer, hbuffer, hmode, hdisplay, hsubdisplay, hproblem]
    exact h.evaluated
  editing := by
    rw [hbuffer, hmode, hdisplay, hproblem]
    exact h.editing
  problem := by
    rw [hbuffer, hmode, hdisplay, hsubdisplay, hproblem]
    exact h.problem

theorem isConsistent_saving {reply : Reply} (h : k.IsConsistent) :
    (k.saving reply).keypad.IsConsistent := by
  obtain ⟨archive, hsaving⟩ := k.exists_keypad_saving reply
  rw [hsaving]
  exact h.of_eq rfl rfl rfl rfl rfl rfl

theorem isConsistent_memorize {update : Desk → Value → Desk} (h : k.IsConsistent)
    (hupdate : ∀ v, (update k.desk v).answer = k.desk.answer) :
    (k.memorize update).keypad.IsConsistent := by
  unfold memorize
  cases k.shownNumber with
  | error p => exact isConsistent_failing k p
  | ok v => exact isConsistent_saving (h.of_eq (hupdate v) rfl rfl rfl rfl rfl)

/-- A key that does not evaluate: one that edits makes the display the buffer, and the others leave
buffer, display and answer alone or show a problem. -/
theorem isConsistent_act (h : k.IsConsistent) (key : Key) : (k.act key).keypad.IsConsistent := by
  cases key with
  | text t => exact isConsistent_type k t
  | function name => exact isConsistent_openCall k name
  | postfixed symbol =>
    simp only [act]
    split
    · exact isConsistent_edit k _
    · exact h
  | evaluate => exact h
  | clear => exact isConsistent_clear k
  | backspace => exact isConsistent_backspace k
  | answer => exact isConsistent_edit k _
  | memoryRecall =>
    simp only [act]
    cases k.desk.memory.plain with
    | ok t => exact isConsistent_edit k _
    | error fault => exact h
  | memoryAdd => exact isConsistent_memorize h fun _ => rfl
  | memorySubtract => exact isConsistent_memorize h fun _ => rfl
  | memoryClear => exact isConsistent_saving (h.of_eq rfl rfl rfl rfl rfl rfl)
  | clearHistory => exact isConsistent_saving (h.of_eq rfl rfl rfl rfl rfl rfl)

/-! ## Keys that evaluate -/

theorem Settles.isConsistent {expression : Text} {struck : Struck}
    (h : k.Settles expression struck) : struck.keypad.IsConsistent := by
  cases h with
  | problem compute => exact isConsistent_failing k _
  | value compute plain display save =>
    exact
      { evaluated := fun _ => ⟨rfl, plain, display, List.suffix_append _ _⟩
        editing := nofun
        problem := nofun }

theorem Breaks.exists_fault {expression : Text} {struck : Struck}
    (h : k.Breaks expression struck) :
    ∃ fault, struck.reply = .error fault ∧ ∀ symbol, fault ≠ .unknownPostfix symbol := by
  cases h <;> exact ⟨_, rfl, nofun⟩

/-- An evaluation from which no fault escapes is complete. -/
theorem settles_of_quiet {expression : Text}
    (quiet : ∀ fault, (k.evaluate expression).reply = .error fault →
      ∃ symbol, fault = .unknownPostfix symbol) : k.Settles expression (k.evaluate expression) := by
  refine settles_evaluate fun hfails => ?_
  obtain ⟨fault, hfault, hne⟩ := (breaks_evaluate hfails).exists_fault
  obtain ⟨symbol, hsymbol⟩ := quiet fault hfault
  exact hne symbol hsymbol

theorem isConsistent_evaluate {expression : Text}
    (quiet : ∀ fault, (k.evaluate expression).reply = .error fault →
      ∃ symbol, fault = .unknownPostfix symbol) :
    (k.evaluate expression).keypad.IsConsistent := (settles_of_quiet quiet).isConsistent

/-! ## Runs of keys -/

theorem isConsistent_strike (h : k.IsConsistent) (key : Key)
    (quiet : ∀ fault, (k.strike key).reply = .error fault →
      ∃ symbol, fault = .unknownPostfix symbol) :
    (k.strike key).keypad.IsConsistent := by
  unfold strike at quiet ⊢
  cases hexpression : k.expression? key with
  | none => exact isConsistent_act h key
  | some expression =>
    rw [hexpression] at quiet
    exact isConsistent_evaluate quiet

/-- **A keypad is consistent** whatever keys have been struck on it, from a new one on, as long as no
fault has escaped but that of a postfix key that does not exist. -/
theorem isConsistent_of_reaches {desk : Desk} {history : List StateFile.Entry} {keepsFile : Bool}
    (h : (new desk history keepsFile).Reaches k) : k.IsConsistent := by
  induction h with
  | start => exact isConsistent_new desk history keepsFile
  | strike before key quiet ih => exact isConsistent_strike ih key quiet

/-- The last answer is typed and evaluated, and then a postfix key is struck that does not exist. -/
theorem isConsistent_of_reaches_answer :
    let typed := ((new {} [] false).strike (.text ['a', 'n', 's'])).keypad
    let evaluated := (typed.strike .evaluate).keypad
    let struck := (evaluated.strike (.postfixed ['?'])).keypad
    struck.mode = .evaluated ∧ struck.buffer = ['0'] ∧ (new {} [] false).Reaches struck ∧
      struck.IsConsistent := by
  intro typed evaluated struck
  have hreaches : (new {} [] false).Reaches struck := by
    refine .strike (.strike (.strike .start (.text ['a', 'n', 's']) ?_) .evaluate ?_)
      (.postfixed ['?']) ?_
    · intro fault hfault
      cases hfault
    · have hreply : (typed.strike .evaluate).reply = .ok (some (.ok (.decimal .zero))) := rfl
      intro fault hfault
      cases hreply.symm.trans hfault
    · have hreply : (evaluated.strike (.postfixed ['?'])).reply =
          .error (.unknownPostfix ['?']) := rfl
      intro fault hfault
      exact ⟨['?'], Except.error.inj (hfault.symm.trans hreply)⟩
  exact ⟨rfl, by decide +kernel, hreaches, isConsistent_of_reaches hreaches⟩

end DeskCalculator.Keypad
