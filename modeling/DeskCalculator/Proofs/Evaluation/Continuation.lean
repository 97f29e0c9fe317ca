import DeskCalculator.Keypad
import DeskCalculator.Proofs.Stack.Faults
import DeskCalculator.Proofs.Stack.PostfixSigns

/-!
# Going on from a result

Straight after an evaluation a key may evaluate the text of the result again, with a sign behind it
(`compute_marked`) or as the argument of a function (`compute_call`). The text of a result that is
no exact integer is a signed numeral, and none of these evaluations lets a fault escape
(`isTold_compute_expression`).
-/

namespace DeskCalculator

open Decimal (signText)

variable {desk : Desk} {s : Bool} {w name : Text} {f : Function} {sign : PostfixSign}

/-! ## A sign behind a numeral -/

theorem derives_marked (s : Bool) (sign : PostfixSign) (w : Text) :
    Derives .sum (Lexeme.signed s w ++ [.postfixed sign.symbol]) (.marked s sign w) := by
  have hmarked : Derives .marked [.number w, .postfixed sign.symbol]
      (.postfixed sign (.number w)) := .postfixed sign (.widen (.widen (.number w)))
  cases s with
  | false => exact .widen (.widen (.widen (.widen hmarked)))
  | true => exact .widen (.widen (.widen (.negate (.widen hmarked))))

theorem spells_sign (sign : PostfixSign) : Spells [.postfixed sign.symbol] sign.symbol.text := by
  have hnone : ∀ c ∈ ([] : Text), Text.isAsciiBlank c := by simp
  cases sign with
  | factorial => exact @Spells.cons _ _ [] ['!'] _ hnone (.sign (by decide)) (by simp) (.nil hnone)
  | percent => exact @Spells.cons _ _ [] ['%'] _ hnone (.sign (by decide)) (by simp) (.nil hnone)

/-- The sign binds more tightly than the minus. -/
theorem Desk.compute_marked (s : Bool) (sign : PostfixSign) (h : (Lexeme.number w).IsWrittenAs w) :
    desk.compute (signText s ++ w ++ sign.symbol.text) = (Tree.marked s sign w).result desk := by
  refine compute_of_derives (derives_marked s sign w) (spells_signed s h ?_ (spells_sign sign)) ?_ ?_
  · cases sign <;> exact fun _ hc => by cases hc; rfl
  · cases s <;> trivial
  · cases s <;> exact (by decide : 1 ≤ 5000)

/-! ## A numeral as the argument of a function -/

theorem Function.name_letters (f : Function) :
    f.name ≠ [] ∧ f.name.all Char.isAlpha ∧ f.name ∉ Token.constantNames := by
  cases f <;> decide

theorem Function.lower_eq_name (h : Function.ofName? (Text.lower name) = some f) :
    Text.lower name = f.name := by
  have hfind : Function.all.find? (·.name == Text.lower name) = some f := h
  exact (by simpa using List.find?_some hfind : f.name = Text.lower name).symm

theorem Text.isAlpha_of_mem_lower (h : (Text.lower name).all Char.isAlpha) :
    ∀ c ∈ name, c.isAlpha := by
  intro c hc
  have hlower := List.all_eq_true.1 h _ (List.mem_map_of_mem hc)
  split at hlower
  · rename_i hcapital
    have hrange : 65 ≤ c.val ∧ c.val ≤ 90 := hcapital
    rw [Token.isAlpha_eq, decide_eq_true hrange, Bool.true_or]
  · exact hlower

theorem isWrittenAs_function (h : Function.ofName? (Text.lower name) = some f) :
    (Lexeme.function (Text.lower name)).IsWrittenAs name := by
  obtain ⟨hne, hletters, hconstant⟩ := f.name_letters
  rw [← Function.lower_eq_name h] at hne hletters hconstant
  have halpha := Text.isAlpha_of_mem_lower hletters
  cases name with
  | nil => exact absurd rfl hne
  | cons c rest =>
    refine .function (halpha c List.mem_cons_self) (fun d hd => ?_) hconstant
    simp [Token.isNamePart, Char.isAlphanum, halpha d (List.mem_cons_of_mem c hd)]

theorem Desk.compute_call (s : Bool) (hname : Function.ofName? (Text.lower name) = some f)
    (harity : f.arity = 1) (h : (Lexeme.number w).IsWrittenAs w) :
    desk.compute (name ++ '(' :: (signText s ++ w ++ [')'])) =
      (Tree.call (Text.lower name) [.signed s w]).result desk := by
  have hnone : ∀ c ∈ ([] : Text), Text.isAsciiBlank c := by simp
  have hclosing : Spells [.closing] [')'] :=
    @Spells.cons _ _ [] [')'] _ hnone (.sign (by decide)) (by simp) (.nil hnone)
  have hargument : Spells (Lexeme.signed s w ++ [.closing]) (signText s ++ w ++ [')']) :=
    spells_signed s h (by rintro _ ⟨⟩; rfl) hclosing
  have hopening : Spells (.opening :: (Lexeme.signed s w ++ [.closing]))
      ('(' :: (signText s ++ w ++ [')'])) :=
    @Spells.cons _ _ [] ['('] _ hnone (.sign (by decide)) (fun _ _ => rfl) hargument
  have hspells : Spells
      (.function (Text.lower name) :: .opening :: (Lexeme.signed s w ++ [.closing]))
      (name ++ '(' :: (signText s ++ w ++ [')'])) :=
    @Spells.cons _ _ [] name _ hnone (isWrittenAs_function hname) (by rintro _ ⟨⟩; rfl) hopening
  have hderives : Derives .atom
      (.function (Text.lower name) :: .opening :: (Lexeme.signed s w ++ [.closing]))
      (.call (Text.lower name) [.signed s w]) :=
    @Derives.call (Text.lower name) [(Lexeme.signed s w, .signed s w)] (by simp)
      (by simpa using derives_signed s w)
  have happ : (Tree.signed s w).IsApplicable := by cases s <;> trivial
  have hheight : (Tree.signed s w).height desk = 1 := by cases s <;> rfl
  refine compute_of_derives
    (.widen (.widen (.widen (.widen (.widen (.widen hderives)))))) hspells ?_ ?_
  · exact ⟨⟨f, hname, harity.symm⟩, happ, trivial⟩
  · rw [Tree.height, Tree.heightAll, Tree.heightAll, hheight]
    split <;> exact (by decide : 1 ≤ 5000)

/-! ## No fault escapes -/

theorem IsTold.bind {α β : Type} {x : Except Failure α} {g : α → Except Failure β} (h : IsTold x)
    (hg : ∀ a, IsTold (g a)) : IsTold (x >>= g) := by
  cases x with
  | error failure => exact fun fault hfault => h fault (by cases hfault; rfl)
  | ok a => exact hg a

theorem Tree.isTold_result {e : Tree} (h : IsTold (e.value desk)) : IsTold (e.result desk) := by
  refine h.bind fun v => ?_
  cases v with
  | exact n => exact isTold_ok _
  | decimal d => exact .ite (isTold_ok _) (isTold_problem _)

theorem Tree.isTold_value_negate {e : Tree} (h : IsTold (e.value desk)) :
    IsTold ((Tree.negate e).value desk) := by
  rw [Tree.value]
  exact h.bind fun v => isTold_ok _

theorem Tree.isTold_value_signed (s : Bool) (w : Text) :
    IsTold ((Tree.signed s w).value desk) := by
  cases s with
  | false => exact isTold_ok _
  | true => exact isTold_value_negate (isTold_ok _)

theorem Tree.isTold_value_marked (s : Bool) (sign : PostfixSign) (w : Text) :
    IsTold ((Tree.marked s sign w).value desk) := by
  have hsign : IsTold ((Tree.postfixed sign (.number w)).value desk) := by
    -- the operand is a decimal, and these have a text
    intro fault hfault
    cases sign with
    | factorial =>
      exact ((Operations.factorial_fault_iff desk (v := Operations.number desk w)).1 hfault).2
    | percent =>
      exact ((Operations.percent_fault_iff desk (v := Operations.number desk w)).1 hfault).2
  cases s with
  | false => exact hsign
  | true => exact isTold_value_negate hsign

theorem Tree.isTold_value_call (s : Bool) (w : Text) :
    IsTold ((Tree.call name [.signed s w]).value desk) := by
  have hvalues : IsTold (values desk [.signed s w]) := by
    rw [Tree.values]
    exact (isTold_value_signed s w).bind fun v => isTold_ok _
  rw [Tree.value]
  refine hvalues.bind fun vs => ?_
  cases Function.ofName? name with
  | some f => exact Operations.isTold_apply desk f vs
  | none => exact isTold_problem _

theorem isPostfixSign_iff {t : Text} :
    Keypad.isPostfixSign t ↔ ∃ sign : PostfixSign, t = sign.symbol.text := by
  constructor
  · intro h
    rcases (by simpa [Keypad.isPostfixSign] using h : t = ['!'] ∨ t = ['%']) with rfl | rfl
    · exact ⟨.factorial, rfl⟩
    · exact ⟨.percent, rfl⟩
  · rintro ⟨sign, rfl⟩
    cases sign <;> rfl

/-- **What a key evaluates** with a signed numeral in the buffer lets no fault escape. -/
theorem Keypad.isTold_compute_expression {k : Keypad} {key : Key} {expression : Text}
    (hbuffer : k.buffer = signText s ++ w) (h : (Lexeme.number w).IsWrittenAs w)
    (hkey : k.expression? key = some expression) :
    IsTold (k.desk.compute expression) := by
  cases key with
  | evaluate =>
    obtain ⟨-, rfl⟩ := by simpa [expression?] using hkey
    rw [hbuffer, Desk.compute_signed_eq s h]
    exact Tree.isTold_result (Tree.isTold_value_signed s w)
  | postfixed symbol =>
    obtain ⟨⟨-, hsign⟩, rfl⟩ := by simpa [expression?] using hkey
    obtain ⟨sign, rfl⟩ := isPostfixSign_iff.1 hsign
    rw [hbuffer, Desk.compute_marked s sign h]
    exact Tree.isTold_result (Tree.isTold_value_marked s sign w)
  | function name =>
    obtain ⟨⟨-, hone⟩, rfl⟩ := by simpa [expression?] using hkey
    unfold takesOne at hone
    split at hone
    · rename_i f hname
      rw [hbuffer, Desk.compute_call s hname (by simpa using hone) h]
      exact Tree.isTold_result (Tree.isTold_value_call s w)
    · cases hone
  | _ => cases hkey

end DeskCalculator
