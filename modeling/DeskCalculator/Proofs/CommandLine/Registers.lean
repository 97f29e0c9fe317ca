import DeskCalculator.CommandLine.Console
import DeskCalculator.Proofs.Keypad.Evaluation

/-!
# A run on expressions

Between two expressions a run goes by two things only: the desk with its last answer, and the result
that the next expression may carry on from. `Registers.fold` works through expressions on these two
registers, without a keypad. As long as no fault escapes, working through lines that are no commands
is this fold over the expressions among them (`turns_eq_fold`): at every line the keypad is as the
registers describe it, with a result in the buffer or with nothing.
-/

namespace DeskCalculator

namespace Text

theorem isAllBlank_trim {t : Text} (h : trim t ≠ []) : isAllBlank (trim t) = false := by
  have hne : (t.dropWhile isBlank).reverse.dropWhile isBlank ≠ [] := by
    simpa [trim, trimBy] using h
  have hmem : ((t.dropWhile isBlank).reverse.dropWhile isBlank).head hne ∈ trim t := by
    simp [trim, trimBy]
  exact List.all_eq_false.2 ⟨_, hmem, by simpa using List.head_dropWhile_not isBlank hne⟩

theorem isAllBlank_of_suffix {t u : Text} (h : isAllBlank t = false) (hsuffix : t <:+ u) :
    isAllBlank u = false := by
  obtain ⟨c, hc, hblank⟩ := List.all_eq_false.1 h
  exact List.all_eq_false.2 ⟨c, hsuffix.subset hc, hblank⟩

end Text

namespace CommandLine

/-! ## Expressions -/

/-- The expressions among lines without commands: what is left of a line without the blanks around
it, if anything is. -/
def expressions (lines : List Text) : List Text := (lines.map Text.trim).filter (· ≠ [])

theorem Line.ofText_eq {line : Text} (h : (Text.trim line).head? ≠ some ':') :
    ofText line =
      if Text.trim line = [] then blank else expression (Text.trim line) := by
  unfold ofText
  split
  · rename_i heq
    rw [heq, if_pos rfl]
  · rename_i rest heq
    rw [heq] at h
    exact absurd rfl h
  · rename_i hne _
    rw [if_neg hne]

theorem startsNumber_of_carriesOn {t : Text} (h : carriesOn t) : Keypad.startsNumber t = false := by
  cases t with
  | nil => cases h
  | cons c rest =>
    simp only [carriesOn, List.mem_cons, List.not_mem_nil, or_false, decide_eq_true_eq] at h
    rcases h with rfl | rfl | rfl | rfl | rfl | rfl | rfl <;> rfl

/-! ## Registers -/

/-- What a run on expressions goes by. -/
structure Registers where
  /-- The settings, the last answer and the memory. -/
  desk : Desk
  /-- The result of the expression before, unless it had a problem. -/
  previous : Option Value := none

/-- What a verbose run notes about the evaluation of a text, and about a problem with it. -/
def evaluationNotes (verbose : Bool) (t : Text) (problem : Option Problem) : List Print :=
  if verbose then
    Print.readingNotes t ++ problem.elim [] fun p => [Print.failureNote t p, Print.shownNote t p]
  else []

namespace Registers

/-- The text that an expression has evaluated: behind the text of the result before it if it carries
on from one, and the expression as it is otherwise. -/
def typed (r : Registers) (t : Text) : Except Fault Text :=
  match r.previous with
  | some v => if carriesOn t then v.plain.map (· ++ t) else .ok t
  | none => .ok t

/-- Evaluates an expression. The value is printed and may be carried on from; a problem is reported
and leaves nothing to carry on from. -/
def step (verbose : Bool) (r : Registers) (t : Text) : Except Fault (Registers × List Print) := do
  let text ← r.typed t
  match ← r.desk.evaluate text with
  | (desk, .ok v) =>
    let shown ← v.display
    return ({ desk, previous := some v }, evaluationNotes verbose text none ++ [.output shown])
  | (desk, .error p) =>
    return ({ desk }, evaluationNotes verbose text (some p) ++ Print.report verbose p)

def fold (verbose : Bool) (r : Registers) : List Text → Except Fault (Registers × List Print)
  | [] => .ok (r, [])
  | t :: rest => do
    let (r, prints) ← r.step verbose t
    let (r, more) ← r.fold verbose rest
    return (r, prints ++ more)

/-- The keypad between two lines: it has the desk, and the previous result in its buffer, or
nothing. -/
structure Describes (r : Registers) (k : Keypad) : Prop where
  desk : k.desk = r.desk
  nothing : r.previous = none → k.mode = .editing ∧ k.buffer = []
  result : ∀ v, r.previous = some v → k.mode = .evaluated ∧ v.plain = .ok k.buffer

variable {r : Registers} {k : Keypad} {verbose : Bool} {t : Text}

theorem typed_of_not_carriesOn (r : Registers) (h : ¬ carriesOn t) : r.typed t = .ok t := by
  cases hprevious : r.previous with
  | none => simp [typed, hprevious]
  | some v => simp [typed, hprevious, h]

end Registers

/-! ## What is typed -/

/-- The keypad on which an expression is typed; a result that it does not carry on from is cleared
before. -/
def typing (k : Keypad) (t : Text) : Keypad :=
  (if k.mode = .evaluated ∧ ¬ carriesOn t then k.clear else k).type t

theorem Turn.ofExpression_eq (verbose : Bool) (k : Keypad) (t : Text) :
    ofExpression verbose k t = strike verbose (typing k t) .evaluate showBuffer := rfl

namespace Registers

variable {r : Registers} {k : Keypad} {verbose : Bool} {t : Text}

theorem Describes.typing (h : r.Describes k) (t : Text) : ∃ text subdisplay,
    r.typed t = .ok text ∧ t <:+ text ∧
      typing k t = { k.edit text with subdisplay } := by
  cases hprevious : r.previous with
  | none =>
    obtain ⟨hmode, hbuffer⟩ := h.nothing hprevious
    refine ⟨t, k.subdisplay, by simp [typed, hprevious], List.suffix_rfl, ?_⟩
    simp [CommandLine.typing, Keypad.type, hmode, hbuffer]
    rfl
  | some v =>
    obtain ⟨hmode, hplain⟩ := h.result v hprevious
    by_cases hcarries : carriesOn t
    · refine ⟨k.buffer ++ t, k.subdisplay, ?_, List.suffix_append _ _, ?_⟩
      · simp [typed, hprevious, hcarries, hplain, Except.map]
      · simp [CommandLine.typing, Keypad.type, hcarries, startsNumber_of_carriesOn hcarries]
        rfl
    · refine ⟨t, [], typed_of_not_carriesOn r hcarries, List.suffix_rfl, ?_⟩
      simp [CommandLine.typing, Keypad.type, hmode, hcarries, Keypad.clear, Keypad.edit]

end Registers

/-! ## One expression -/

namespace Turn

variable {k : Keypad} {verbose : Bool}

theorem expression?_evaluate (h : Text.isAllBlank k.buffer = false) :
    k.expression? .evaluate = some k.buffer := by
  simp [Keypad.expression?, h]

/-- A turn without a fault completes its evaluation. -/
theorem settles_of_fault_eq_none (h : Text.isAllBlank k.buffer = false)
    (hfault : (strike verbose k .evaluate showBuffer).fault = none) :
    k.Settles k.buffer (k.strike .evaluate) := by
  have hstrike : k.strike .evaluate = k.evaluate k.buffer := by
    rw [Keypad.strike, expression?_evaluate h]
  rw [hstrike]
  refine Keypad.settles_evaluate fun hfails => ?_
  have hbreaks := Keypad.breaks_evaluate hfails
  rw [← hstrike] at hbreaks
  unfold strike at hfault
  generalize k.strike .evaluate = struck at hfault hbreaks
  cases hbreaks <;> cases hfault

theorem strike_of_value {struck : Keypad} {v : Value} (h : Text.isAllBlank k.buffer = false)
    (hstrike : k.strike .evaluate = ⟨struck, .ok (some (.ok v))⟩) :
    strike verbose k .evaluate showBuffer =
      ⟨struck, evaluationNotes verbose k.buffer none ++ [.output struck.display], none⟩ := by
  cases verbose <;>
    simp [strike, hstrike, notes, expression?_evaluate h, evaluationNotes, printing, showBuffer]

theorem strike_of_problem {struck : Keypad} {p : Problem} (h : Text.isAllBlank k.buffer = false)
    (hstrike : k.strike .evaluate = ⟨struck, .ok (some (.error p))⟩) :
    strike verbose k .evaluate showBuffer =
      ⟨struck, evaluationNotes verbose k.buffer (some p) ++ Print.report verbose p, none⟩ := by
  cases verbose <;>
    simp [strike, hstrike, notes, expression?_evaluate h, evaluationNotes]

theorem strike_of_fault {struck : Keypad} {f : Fault} (h : Text.isAllBlank k.buffer = false)
    (hstrike : k.strike .evaluate = ⟨struck, .error f⟩) :
    strike verbose k .evaluate showBuffer =
      ⟨struck, evaluationNotes verbose k.buffer none, some f⟩ := by
  cases verbose <;> simp [strike, hstrike, notes, expression?_evaluate h, evaluationNotes]

end Turn

namespace Registers

variable {r : Registers} {k : Keypad} {verbose : Bool} {t : Text}

/-- A turn on an expression is a step of the registers. -/
theorem Describes.ofExpression (h : r.Describes k) (ht : Text.isAllBlank t = false)
    (hfault : (Turn.ofExpression verbose k t).fault = none) :
    ∃ r', r.step verbose t = .ok (r', (Turn.ofExpression verbose k t).prints) ∧
      r'.Describes (Turn.ofExpression verbose k t).keypad := by
  obtain ⟨text, subdisplay, htyped, hsuffix, htyping⟩ := h.typing t
  have htext : Text.isAllBlank text = false := Text.isAllBlank_of_suffix ht hsuffix
  rw [Turn.ofExpression_eq, htyping] at hfault ⊢
  have hsettles := Turn.settles_of_fault_eq_none htext hfault
  generalize hstrike : Keypad.strike { k.edit text with subdisplay } .evaluate = struck at hsettles
  cases hsettles with
  | @value v result shown archive compute plain display save =>
    rw [Turn.strike_of_value htext hstrike]
    have hcompute : r.desk.compute text = .ok v := h.desk ▸ compute
    refine ⟨{ desk := r.desk.setAnswer v, previous := some v }, ?_, ?_⟩
    · simp only [step, htyped, Desk.evaluate, hcompute, display, bind, Except.bind]
      rfl
    · exact { desk := congrArg (Desk.setAnswer · v) h.desk
              nothing := by rintro ⟨⟩
              result := by
                rintro _ ⟨⟩
                exact ⟨rfl, plain⟩ }
  | @problem p compute =>
    rw [Turn.strike_of_problem htext hstrike]
    have hcompute : r.desk.compute text = .error (.problem p) := h.desk ▸ compute
    refine ⟨{ desk := r.desk }, ?_, ?_⟩
    · simp only [step, htyped, Desk.evaluate, hcompute, bind, Except.bind]
      rfl
    · exact { desk := h.desk
              nothing := fun _ => ⟨rfl, rfl⟩
              result := by rintro _ ⟨⟩ }

end Registers

/-! ## Many lines -/

section Turns

variable {verbose : Bool} {k : Keypad} {line : Text} {rest : List Text}

theorem turns_cons (h : (Turn.ofLine verbose k (.ofText line)).fault = none) :
    turns verbose k (line :: rest) =
      { turns verbose (Turn.ofLine verbose k (.ofText line)).keypad rest with
        prints := (Turn.ofLine verbose k (.ofText line)).prints ++
          (turns verbose (Turn.ofLine verbose k (.ofText line)).keypad rest).prints } := by
  rw [turns]
  simp only [h]

theorem fault_ofLine_of_turns (h : (turns verbose k (line :: rest)).fault = none) :
    (Turn.ofLine verbose k (.ofText line)).fault = none := by
  rw [turns] at h
  cases hfault : (Turn.ofLine verbose k (.ofText line)).fault with
  | none => rfl
  | some fault =>
    simp only [hfault] at h
    cases h

end Turns

namespace Registers

theorem describes_new (desk : Desk) (history : List StateFile.Entry) (keepsFile : Bool) :
    ({ desk } : Registers).Describes (.new desk history keepsFile) where
  desk := rfl
  nothing _ := ⟨rfl, rfl⟩
  result := nofun

/-- Turns on lines without commands fold the registers over the expressions among them. -/
theorem Describes.turns {r : Registers} {k : Keypad} {verbose : Bool} {lines : List Text}
    (h : r.Describes k) (hlines : ∀ line ∈ lines, (Text.trim line).head? ≠ some ':')
    (hfault : (turns verbose k lines).fault = none) :
    ∃ r', r.fold verbose (expressions lines) = .ok (r', (CommandLine.turns verbose k lines).prints) ∧
      r'.Describes (CommandLine.turns verbose k lines).keypad := by
  induction lines generalizing r k with
  | nil => exact ⟨r, rfl, h⟩
  | cons line rest ih =>
    have hline := fault_ofLine_of_turns hfault
    rw [turns_cons hline] at hfault ⊢
    have hrest : ∀ line ∈ rest, (Text.trim line).head? ≠ some ':' :=
      fun line hmem => hlines line (List.mem_cons_of_mem _ hmem)
    rw [Line.ofText_eq (hlines line List.mem_cons_self)] at hline hfault ⊢
    by_cases hblank : Text.trim line = []
    · rw [if_pos hblank] at hfault ⊢
      obtain ⟨r', hfold, hdescribes⟩ := ih h hrest hfault
      exact ⟨r', by simpa [expressions, hblank, Turn.ofLine] using hfold, hdescribes⟩
    · rw [if_neg hblank] at hline hfault ⊢
      obtain ⟨r₁, hstep, h₁⟩ := h.ofExpression (Text.isAllBlank_trim hblank) hline
      obtain ⟨r', hfold, hdescribes⟩ := ih h₁ hrest hfault
      refine ⟨r', ?_, hdescribes⟩
      have hexpressions : expressions (line :: rest) = Text.trim line :: expressions rest := by
        simp [expressions, hblank]
      simp only [hexpressions, fold, hstep, hfold, bind, Except.bind]
      rfl

/-- **Working through expressions** from a new keypad is the fold of two registers, the desk and the
previous result, as long as no fault escapes. An expression that does not carry on from the result
before it is evaluated as it is, whatever came before it. -/
theorem turns_eq_fold (verbose : Bool) (desk : Desk) (history : List StateFile.Entry)
    (keepsFile : Bool) (lines : List Text)
    (hlines : ∀ line ∈ lines, (Text.trim line).head? ≠ some ':')
    (hfault : (turns verbose (.new desk history keepsFile) lines).fault = none) :
    (∃ r', fold verbose { desk } (expressions lines) =
        .ok (r', (turns verbose (.new desk history keepsFile) lines).prints) ∧
      (turns verbose (.new desk history keepsFile) lines).keypad.desk = r'.desk) ∧
    ∀ (r : Registers) (t : Text), ¬ carriesOn t → r.typed t = .ok t := by
  obtain ⟨r', hfold, hdescribes⟩ :=
    (describes_new desk history keepsFile).turns hlines hfault
  exact ⟨⟨r', hfold, hdescribes.desk⟩, fun r t => typed_of_not_carriesOn r⟩

/-- A line that carries on from a result, one that has a problem with it, and one that starts like an
operator but has no result before it. -/
theorem turns_eq_fold_problem :
    let lines : List Text :=
      [Text.ofString "ans+2\n", ['\n'], Text.ofString " *21\n", ['/', '0'], ['-', '4']]
    let prints : List Print := [.output ['2'], .output ['4', '2'],
      .errors (Text.ofString "Math Error"), .output ['-', '4']]
    (turns false (.new {} [] true) lines).prints = prints ∧
    ∃ r', fold false { desk := {} } [Text.ofString "ans+2", Text.ofString "*21", ['/', '0'],
      ['-', '4']] = .ok (r', prints) := by
  intro lines prints
  have hlines : ∀ line ∈ lines, (Text.trim line).head? ≠ some ':' := by decide +kernel
  have hfault : (turns false (.new {} [] true) lines).fault = none := by decide +kernel
  have hprints : (turns false (.new {} [] true) lines).prints = prints := by decide +kernel
  obtain ⟨r', hfold, -⟩ := (turns_eq_fold false {} [] true lines hlines hfault).1
  exact ⟨hprints, r', hprints ▸ hfold⟩

end Registers

end CommandLine

end DeskCalculator
