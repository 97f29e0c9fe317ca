import DeskCalculator.Proofs.CommandLine.Archive
import DeskCalculator.Proofs.Expression.Spelling
import Mathlib.Data.List.Forall2

/-!
# Typographic signs at the command line

Lines that are alike, differing only in whether signs are typographic or plain, are read in the same
way by the lexer. But whether a line carries on from the result before it is told from its first
character as it is typed, and a typographic sign is none of the operators there (`buffer_typing`).
So alike lines print the same as long as, at each line behind a result, both or neither carry on
(`turns_of_alike`).
-/

namespace DeskCalculator

/-! ## Evaluations -/

/-- Two keypads that are the same between two lines, as far as later lines depend on them. -/
structure Keypad.Agrees (k k' : Keypad) : Prop where
  desk : k.desk = k'.desk
  mode : k.mode = k'.mode
  buffer : k.buffer = k'.buffer
  keepsFile : k.keepsFile = k'.keepsFile

inductive Struck.Agrees : Struck → Struck → Prop
  | fault (k k' : Keypad) (f : Fault) : Agrees ⟨k, .error f⟩ ⟨k', .error f⟩
  | outcome {k k' : Keypad} (h : k.Agrees k') (hdisplay : k.display = k'.display)
      (outcome : Except Problem Value) : Agrees ⟨k, .ok (some outcome)⟩ ⟨k', .ok (some outcome)⟩

namespace Keypad

variable {k k' : Keypad} {expression expression' : Text}

theorem agrees_refl (k : Keypad) : k.Agrees k := ⟨rfl, rfl, rfl, rfl⟩

theorem agrees_saving (h : k.Agrees k') (hdisplay : k.display = k'.display)
    (hanswer : ¬ k.desk.answer.IsTooLong) (outcome : Except Problem Value) :
    (k.saving (some outcome)).Agrees (k'.saving (some outcome)) := by
  by_cases hfails : k.keepsFile ∧ k.desk.memory.IsTooLong
  · have hsave := save_of_isTooLong hfails.1 hfails.2
    have hkept : k'.keepsFile := h.keepsFile ▸ hfails.1
    have hsave' := save_of_isTooLong hkept (h.desk ▸ hfails.2)
    simp only [saving, hsave, hsave']
    exact .fault k k' _
  · have hkeeps : (k.saving (some outcome)).keypad.keepsFile =
        (k'.saving (some outcome)).keypad.keepsFile := by
      rw [keepsFile_saving, keepsFile_saving, h.keepsFile]
    obtain ⟨a, hsave⟩ := exists_save k hanswer (not_and.1 hfails)
    rw [h.desk, h.keepsFile] at hfails
    obtain ⟨a', hsave'⟩ := exists_save k' (h.desk ▸ hanswer) (not_and.1 hfails)
    simp only [saving, hsave, hsave'] at hkeeps ⊢
    have hagrees : Agrees { k with archive := a } { k' with archive := a' } :=
      ⟨h.desk, h.mode, h.buffer, hkeeps⟩
    exact .outcome hagrees hdisplay outcome

theorem agrees_evaluate (hdesk : k.desk = k'.desk) (hkeeps : k.keepsFile = k'.keepsFile)
    (halike : expression.Alike expression') :
    (k.evaluate expression).Agrees (k'.evaluate expression') := by
  have hcompute' : k'.desk.compute expression' = k.desk.compute expression := by
    rw [← hdesk, halike.compute_eq]
  cases hcompute : k.desk.compute expression with
  | error failure =>
    rw [hcompute] at hcompute'
    cases failure with
    | problem p =>
      rw [evaluate_of_problem hcompute, evaluate_of_problem hcompute']
      have hagrees : (k.failing p).Agrees (k'.failing p) := ⟨hdesk, rfl, rfl, hkeeps⟩
      exact .outcome hagrees rfl (.error p)
    | fault fault =>
      rw [evaluate_of_fault hcompute, evaluate_of_fault hcompute']
      exact .fault _ _ fault
  | ok v =>
    rw [hcompute] at hcompute'
    by_cases hlong : v.IsTooLong
    · rw [evaluate_of_isTooLong hcompute hlong, evaluate_of_isTooLong hcompute' hlong]
      exact .fault _ _ _
    obtain ⟨result, hplain⟩ := Value.exists_plain hlong
    by_cases hbeyond : v.IsBeyondDisplay
    · rw [evaluate_of_isBeyondDisplay hcompute hplain hbeyond,
        evaluate_of_isBeyondDisplay hcompute' hplain hbeyond]
      exact .fault _ _ _
    obtain ⟨shown, hdisplay⟩ := Value.exists_display hlong hbeyond
    rw [evaluate_of_texts hcompute hplain hdisplay, evaluate_of_texts hcompute' hplain hdisplay]
    have hagrees : (k.showing expression v result shown).Agrees
        (k'.showing expression' v result shown) :=
      ⟨congrArg (Desk.setAnswer · v) hdesk, rfl, rfl, hkeeps⟩
    exact agrees_saving hagrees rfl hlong (.ok v)

end Keypad

/-! ## What is printed -/

namespace CommandLine

/-- The same line, or a line of errors of a verbose run that quotes alike texts. -/
inductive Print.Respells (verbose : Bool) : Print → Print → Prop
  | same (p : Print) : Respells verbose p p
  | quoting {t u : Text} (hverbose : verbose) (h : t.Alike u) :
      Respells verbose (.errors t) (.errors u)

namespace Print

variable {verbose : Bool} {t u : Text} {prints prints' : List Print}

theorem respells_same (prints : List Print) : List.Forall₂ (Respells verbose) prints prints :=
  List.forall₂_same.2 fun p _ => .same p

theorem respells_readingNotes (h : t.Alike u) :
    List.Forall₂ (Respells true) (readingNotes t) (readingNotes u) := by
  unfold readingNotes
  rw [h.scan_eq]
  split
  · exact .nil
  · refine .cons (.quoting rfl ?_) (respells_same _)
    exact (((Text.alike_refl _).append h.quoted).append (Text.alike_refl _)).append
      (Text.alike_refl _) |>.append (Text.alike_refl _)

theorem respells_failureNote (h : t.Alike u) (p : Problem) :
    Respells true (failureNote t p) (failureNote u p) :=
  .quoting rfl (((Text.alike_refl _).append h.quoted).append (Text.alike_refl _))

theorem respells_shownNote (h : t.Alike u) (p : Problem) :
    Respells true (shownNote t p) (shownNote u p) :=
  .quoting rfl ((Text.alike_refl _).append h.quoted)

theorem respells_evaluationNotes (h : t.Alike u) (problem : Option Problem) :
    List.Forall₂ (Respells verbose) (evaluationNotes verbose t problem)
      (evaluationNotes verbose u problem) := by
  unfold evaluationNotes
  cases verbose with
  | false => exact .nil
  | true =>
    refine List.rel_append (respells_readingNotes h) ?_
    cases problem with
    | none => exact .nil
    | some p => exact .cons (respells_failureNote h p) (.cons (respells_shownNote h p) .nil)

theorem outputText_eq (h : List.Forall₂ (Respells verbose) prints prints') :
    outputText prints = outputText prints' := by
  induction h with
  | nil => rfl
  | cons hp _ ih =>
    cases hp with
    | same => simpa [outputText] using ih
    | quoting => simpa [outputText] using ih

theorem alike_errorsText (h : List.Forall₂ (Respells verbose) prints prints') :
    (errorsText prints).Alike (errorsText prints') := by
  induction h with
  | nil => rfl
  | cons hp _ ih =>
    cases hp with
    | same p => exact (Text.alike_refl _).append ih
    | quoting _ h => exact (h.append (Text.alike_refl _)).append ih

/-- Without notes all lines are the same. -/
theorem eq_of_respells (h : List.Forall₂ (Respells false) prints prints') : prints = prints' := by
  induction h with
  | nil => rfl
  | cons hp _ ih =>
    cases hp with
    | same p => rw [ih]
    | quoting hverbose => cases hverbose

end Print

/-! ## What is typed -/

section Typing

open Keypad (agrees_refl)

variable {k k' : Keypad} {t u : Text}

/-- Of two alike texts both or neither carry on exactly if they start with the same character: a
plain sign carries on, and a typographic one does not. -/
theorem carriesOn_eq_iff (h : t.Alike u) : carriesOn t = carriesOn u ↔ t.head? = u.head? := by
  cases t with
  | nil =>
    rw [h.eq_nil_iff.1 rfl]
    exact iff_of_true rfl rfl
  | cons c rest =>
    cases u with
    | nil => exact absurd h.length_eq (by simp)
    | cons d rest' =>
      have hsign : Token.plainSign c = Token.plainSign d := (List.cons.inj h).1
      simp only [carriesOn, List.head?_cons, Option.some.injEq]
      rcases Token.plainSign_cases c with ⟨hc, -⟩ | hc <;>
        rcases Token.plainSign_cases d with ⟨hd, -⟩ | hd
      · rcases hc with rfl | rfl | rfl <;> rcases hd with rfl | rfl | rfl <;>
          revert hsign <;> decide
      · obtain rfl : d = Token.plainSign c := hd ▸ hsign.symm
        rcases hc with rfl | rfl | rfl <;> decide
      · obtain rfl : c = Token.plainSign d := hc ▸ hsign
        rcases hd with rfl | rfl | rfl <;> decide
      · rw [hc, hd] at hsign
        rw [hsign]
        exact iff_of_true rfl rfl

/-- What stands in the buffer before a line is evaluated. -/
theorem buffer_typing (k : Keypad) (t : Text) : (typing k t).buffer =
    if k.mode = .evaluated ∧ ¬ carriesOn t then t else k.buffer ++ t := by
  by_cases hdrops : k.mode = .evaluated ∧ ¬ carriesOn t
  · rw [typing, if_pos hdrops, if_pos hdrops]
    rfl
  · have hnumber : ¬ (k.mode = .evaluated ∧ Keypad.startsNumber t) := by
      rintro ⟨hmode, hnumber⟩
      have hcarries : carriesOn t := by simpa [hmode] using hdrops
      rw [startsNumber_of_carriesOn hcarries] at hnumber
      cases hnumber
    rw [typing, if_neg hdrops, if_neg hdrops, Keypad.type, if_neg hnumber]
    rfl

theorem alike_buffer_typing (h : k.Agrees k') (halike : t.Alike u)
    (hhead : k.mode = .evaluated → t.head? = u.head?) :
    (typing k t).buffer.Alike (typing k' u).buffer := by
  have hdrops : (k.mode = .evaluated ∧ ¬ carriesOn t) ↔ (k.mode = .evaluated ∧ ¬ carriesOn u) :=
    and_congr_right fun hmode => by rw [(carriesOn_eq_iff halike).2 (hhead hmode)]
  rw [buffer_typing, buffer_typing, ← h.mode, ← h.buffer]
  simp only [hdrops]
  split
  · exact halike
  · exact (Text.alike_refl _).append halike

/-- **Behind a result** alike lines have alike texts evaluated exactly if they start with the same
character. Otherwise one of them carries on from the result and the other one drops it. -/
theorem alike_buffer_typing_iff (halike : t.Alike u) (hbuffer : k.buffer ≠ [])
    (hmode : k.mode = .evaluated) :
    (typing k t).buffer.Alike (typing k u).buffer ↔ t.head? = u.head? := by
  refine ⟨fun htyped => ?_, fun hhead => alike_buffer_typing (agrees_refl k) halike fun _ => hhead⟩
  have hlength := htyped.length_eq
  have hsame := halike.length_eq
  have hpos : 0 < k.buffer.length := List.length_pos_iff.2 hbuffer
  rw [← carriesOn_eq_iff halike]
  rw [buffer_typing, buffer_typing] at hlength
  cases ht : carriesOn t <;> cases hu : carriesOn u
  all_goals simp [hmode, ht, hu] at hlength ⊢
  all_goals omega

end Typing

/-! ## One line -/

/-- Two turns that print the same but for notes, and leave the same to the next line. -/
structure Turn.Agrees (verbose : Bool) (turn turn' : Turn) : Prop where
  fault : turn.fault = turn'.fault
  prints : List.Forall₂ (Print.Respells verbose) turn.prints turn'.prints
  keypad : turn.fault = none → turn.keypad.Agrees turn'.keypad

namespace Turn

variable {verbose : Bool} {k k' : Keypad} {t u : Text}

theorem agrees_strike (hdesk : k.desk = k'.desk) (hkeeps : k.keepsFile = k'.keepsFile)
    (hbuffer : k.buffer.Alike k'.buffer) (hblank : Text.isAllBlank k.buffer = false) :
    Agrees verbose (strike verbose k .evaluate showBuffer)
      (strike verbose k' .evaluate showBuffer) := by
  have hblank' : Text.isAllBlank k'.buffer = false := hbuffer.isAllBlank_eq ▸ hblank
  have hstrike : k.strike .evaluate = k.evaluate k.buffer := by
    rw [Keypad.strike, expression?_evaluate hblank]
  have hstrike' : k'.strike .evaluate = k'.evaluate k'.buffer := by
    rw [Keypad.strike, expression?_evaluate hblank']
  have hagrees := Keypad.agrees_evaluate hdesk hkeeps hbuffer
  rw [← hstrike, ← hstrike'] at hagrees
  generalize hs : k.strike .evaluate = struck at hagrees
  generalize hs' : k'.strike .evaluate = struck' at hagrees
  cases hagrees with
  | fault s s' f =>
    rw [strike_of_fault hblank hs, strike_of_fault hblank' hs']
    refine ⟨rfl, Print.respells_evaluationNotes hbuffer none, fun hnone => ?_⟩
    cases hnone
  | outcome hagrees hdisplay outcome =>
    cases outcome with
    | error p =>
      rw [strike_of_problem hblank hs, strike_of_problem hblank' hs']
      exact ⟨rfl, List.rel_append (Print.respells_evaluationNotes hbuffer _)
        (Print.respells_same _), fun _ => hagrees⟩
    | ok v =>
      rw [strike_of_value hblank hs, strike_of_value hblank' hs', hdisplay]
      exact ⟨rfl, List.rel_append (Print.respells_evaluationNotes hbuffer _)
        (Print.respells_same _), fun _ => hagrees⟩

theorem agrees_ofExpression (h : k.Agrees k') (halike : t.Alike u)
    (hblank : Text.isAllBlank t = false) (hhead : k.mode = .evaluated → t.head? = u.head?) :
    Agrees verbose (ofExpression verbose k t) (ofExpression verbose k' u) := by
  have htyped := alike_buffer_typing h halike hhead
  obtain ⟨text, subdisplay, hsuffix, htyping⟩ := typing_eq k t
  obtain ⟨text', subdisplay', -, htyping'⟩ := typing_eq k' u
  rw [htyping, htyping'] at htyped
  rw [ofExpression_eq, ofExpression_eq, htyping, htyping']
  exact agrees_strike h.desk h.keepsFile htyped (Text.isAllBlank_of_suffix hblank hsuffix)

theorem agrees_ofLine {line line' : Text} (h : k.Agrees k') (halike : line.Alike line')
    (hline : (Text.trim line).head? ≠ some ':')
    (hhead : k.mode = .evaluated → (Text.trim line).head? = (Text.trim line').head?) :
    Agrees verbose (ofLine verbose k (.ofText line)) (ofLine verbose k' (.ofText line')) := by
  have htrim : (Text.trim line).Alike (Text.trim line') := halike.trim
  have hline' : (Text.trim line').head? ≠ some ':' := mt htrim.head?_eq_colon_iff.2 hline
  rw [Line.ofText_eq hline, Line.ofText_eq hline']
  by_cases hnil : Text.trim line = []
  · rw [if_pos hnil, if_pos (htrim.eq_nil_iff.1 hnil)]
    exact ⟨rfl, .nil, fun _ => h⟩
  · rw [if_neg hnil, if_neg (mt htrim.eq_nil_iff.2 hnil)]
    exact agrees_ofExpression h htrim (Text.isAllBlank_trim hnil) hhead

end Turn

/-! ## Many lines -/

theorem agrees_turns {verbose : Bool} {k k' : Keypad} {lines lines' : List Text} (h : k.Agrees k')
    (halike : List.Forall₂ Text.Alike lines lines')
    (hlines : ∀ line ∈ lines, (Text.trim line).head? ≠ some ':')
    (hhead : ∀ i, (turns verbose k (lines.take i)).fault = none →
      (turns verbose k (lines.take i)).keypad.mode = .evaluated →
      (Text.trim (lines.getD i [])).head? = (Text.trim (lines'.getD i [])).head?) :
    Turn.Agrees verbose (turns verbose k lines) (turns verbose k' lines') := by
  induction halike generalizing k k' with
  | nil => exact ⟨rfl, .nil, fun _ => h⟩
  | @cons line line' rest rest' hline hrest ih =>
    have hturn : Turn.Agrees verbose (Turn.ofLine verbose k (.ofText line))
        (Turn.ofLine verbose k' (.ofText line')) :=
      Turn.agrees_ofLine h hline (hlines line List.mem_cons_self) (hhead 0 rfl)
    cases hfault : (Turn.ofLine verbose k (.ofText line)).fault with
    | some f =>
      have hfault' := hturn.fault.symm.trans hfault
      simp only [turns, hfault, hfault']
      exact hturn
    | none =>
      rw [turns_cons hfault, turns_cons (hturn.fault.symm.trans hfault)]
      have hlater := ih (hturn.keypad hfault)
        (fun line hmem => hlines line (List.mem_cons_of_mem _ hmem)) fun i => by
          have := hhead (i + 1)
          rw [List.take_succ_cons, turns_cons hfault] at this
          exact this
      exact ⟨hlater.fault, List.rel_append hturn.prints hlater.prints, hlater.keypad⟩

/-- **Alike lines** that are no commands print the same, but for the signs that the notes of a
verbose run quote, and meet the same faults, if those behind a result start with the same character.
Behind a result a text that carries on is evaluated together with the result, and whether it carries
on depends on how the sign at its start is spelled. -/
theorem turns_of_alike (verbose : Bool) (k : Keypad) (lines lines' : List Text)
    (halike : List.Forall₂ Text.Alike lines lines')
    (hlines : ∀ line ∈ lines, (Text.trim line).head? ≠ some ':')
    (hhead : ∀ i, (turns verbose k (lines.take i)).fault = none →
      (turns verbose k (lines.take i)).keypad.mode = .evaluated →
      (Text.trim (lines.getD i [])).head? = (Text.trim (lines'.getD i [])).head?) :
    let turn := turns verbose k lines
    let turn' := turns verbose k lines'
    turn.fault = turn'.fault ∧
      Print.outputText turn.prints = Print.outputText turn'.prints ∧
      (Print.errorsText turn.prints).Alike (Print.errorsText turn'.prints) ∧
      (verbose = false → turn.prints = turn'.prints) := by
  have hagrees := agrees_turns (Keypad.agrees_refl k) halike hlines hhead
  refine ⟨hagrees.fault, Print.outputText_eq hagrees.prints, Print.alike_errorsText hagrees.prints,
    ?_⟩
  rintro rfl
  exact Print.eq_of_respells hagrees.prints

/-- The signs inside of the lines, at the start of the first one and behind a problem can be spelled
either way. -/
theorem turns_of_alike_differences :
    let k : Keypad := .new {} [] false
    let lines : List Text :=
      [Text.ofString "−2×3\n", Text.ofString " *2", Text.ofString "1÷0", Text.ofString "−5"]
    let lines' : List Text :=
      [Text.ofString "-2*3\n", Text.ofString " *2", Text.ofString "1/0", Text.ofString "-5"]
    (turns false k lines).prints = (turns false k lines').prints ∧
      (turns false k lines').prints = [.output ['-', '6'], .output ['-', '1', '2'],
        .errors (Text.ofString "Math Error"), .output ['-', '5']] := by
  intro k lines lines'
  have halike : List.Forall₂ Text.Alike lines lines' :=
    .cons (by rfl) (.cons (by rfl) (.cons (by rfl) (.cons (by rfl) .nil)))
  have hlines : ∀ line ∈ lines, (Text.trim line).head? ≠ some ':' := by decide +kernel
  have hstart : (turns false k (lines.take 0)).keypad.mode = .editing := rfl
  have hproblem : (turns false k (lines.take 3)).keypad.mode = .editing := by decide +kernel
  refine ⟨(turns_of_alike false k lines lines' halike hlines ?_).2.2.2 rfl, by decide +kernel⟩
  intro i _ hmode
  rcases i with - | - | - | - | i
  · exact absurd (hstart.symm.trans hmode) nofun
  · rfl
  · rfl
  · exact absurd (hproblem.symm.trans hmode) nofun
  · rfl

/-- Behind the result 5 a line that starts with a typographic sign does not carry on from it. -/
theorem turns_typographic_start :
    let k : Keypad := .new {} [] false
    let lines : List Text := [Text.ofString "2+3", Text.ofString "×4"]
    let lines' : List Text := [Text.ofString "2+3", Text.ofString "*4"]
    List.Forall₂ Text.Alike lines lines' ∧
      (∀ line ∈ lines, (Text.trim line).head? ≠ some ':') ∧
      (turns false k lines).prints = [.output ['5'], .errors (Text.ofString "Syntax Error")] ∧
      (turns false k lines').prints = [.output ['5'], .output ['2', '0']] := by
  intro k lines lines'
  refine ⟨.cons rfl (.cons (by rfl) .nil), ?_, ?_, ?_⟩ <;> decide +kernel

end CommandLine

end DeskCalculator
