import DeskCalculator.Postfix.OfTokens
import DeskCalculator.Token.Scan

/-!
# The items of an expression

Tokens and items may come from elsewhere than a text. A lexeme `IsProper` if a text can have it, an
item if an expression can: its symbol has a meaning in its place, and a call tells how many arguments
it has. A text is scanned into proper lexemes (`Token.isProper_of_scan`); they are arranged into
proper items, or there is a problem, never a fault (`Postfix.isProper_of_ofTokens`,
`Postfix.problem_of_ofTokens`).
-/

namespace DeskCalculator

/-- Whether a symbol stands before an operand or between two. -/
def Symbol.isOperator : Symbol → Bool
  | plus | minus | times | divide | power | negate => true
  | _ => false

/-- Whether a symbol stands behind an operand. -/
def Symbol.isSign : Symbol → Bool
  | factorial | percent => true
  | _ => false

def Lexeme.IsProper : Lexeme → Prop
  | operator s => s.isOperator
  | postfixed s => s.isSign
  | foreign => False
  | _ => True

def Item.IsProper : Item → Prop
  | operator s => s.isOperator
  | postfixed s => s.isSign
  | call _ arity => ∃ n : Nat, arity = some (n : Int)
  | unknown .. => False
  | _ => True

/-! ## From a text -/

namespace Token

theorem isProper_of_first {position more : Nat} {c : Char} {rest : Text} {l : Lexeme}
    (h : first position c rest = .ok (some l, more)) : l.IsProper := by
  unfold first at h
  split at h
  · simp only at h
    split at h
    · cases h
      trivial
    · cases h
  · split at h
    · cases h
      unfold ofName
      simp only
      split <;> trivial
    · split at h
      · cases h
      · split at h
        · rename_i l' hsign
          cases h
          revert hsign
          unfold ofSign?
          split <;> (intro hsign; cases hsign) <;> trivial
        · cases h

theorem isProper_inPlace {previous : Option Lexeme} {l : Lexeme} (h : l.IsProper) :
    (inPlace previous l).IsProper := by
  unfold inPlace
  split
  · rfl
  · exact h

theorem isProper_of_scanFrom {position skip : Nat} {previous : Option Lexeme} {t : Text}
    {tokens : List Token} (h : scanFrom position previous skip t = .ok tokens) :
    ∀ token ∈ tokens, token.lexeme.IsProper := by
  fun_induction scanFrom position previous skip t generalizing tokens with
  | case1 => cases h; simp
  | case2 _ _ _ _ _ ih => exact ih h
  | case3 => cases h
  | case4 _ _ _ _ _ _ ih => exact ih h
  | case5 => simp_all
  | case6 =>
    rename_i hfirst _ _ htokens ih
    cases h
    intro token ht
    rcases List.mem_cons.1 ht with rfl | ht
    · exact isProper_inPlace (isProper_of_first hfirst)
    · exact ih htokens token ht

theorem isProper_of_scan {t : Text} {tokens : List Token} (h : scan t = .ok tokens) :
    ∀ token ∈ tokens, token.lexeme.IsProper := isProper_of_scanFrom h

end Token

/-! ## In postfix order -/

namespace Postfix

def Frame.IsProper : Frame → Prop
  | operator s => s.isOperator
  | postfixed s => s.isSign
  | _ => True

structure State.IsProper (s : State) : Prop where
  output : ∀ item ∈ s.output, item.IsProper
  stack : ∀ f ∈ s.stack, f.IsProper

/-- A result that is proper, or a problem. -/
def Sound : Except Failure State → Prop
  | .ok s => s.IsProper
  | .error e => ∃ p, e = .problem p

theorem Frame.IsProper.item {f : Frame} {item : Item} (h : f.IsProper) (hitem : f.item? = some item) :
    item.IsProper := by
  cases f <;> cases hitem
  · exact h
  · exact h
  · exact ⟨1, rfl⟩

theorem isProper_markContent {stack : List Frame} (h : ∀ f ∈ stack, f.IsProper) :
    ∀ f ∈ markContent stack, f.IsProper := by
  induction stack with
  | nil => exact h
  | cons f stack ih =>
    have ih := ih fun g hg => h g (List.mem_cons_of_mem _ hg)
    have hf := h f List.mem_cons_self
    cases f with
    | group n b => simpa [markContent, Frame.IsProper] using h
    | _ =>
      intro g hg
      rcases List.mem_cons.1 hg with rfl | hg
      · exact hf
      · exact ih g hg

theorem State.IsProper.mark {s : State} (h : s.IsProper) :
    ({ s with stack := markContent s.stack } : State).IsProper :=
  ⟨h.output, isProper_markContent h.stack⟩

theorem State.IsProper.push {s : State} {f : Frame} (h : s.IsProper) (hf : f.IsProper) :
    (⟨s.output, f :: s.stack⟩ : State).IsProper :=
  ⟨h.output, by simpa [hf] using h.stack⟩

theorem State.IsProper.emit {s : State} {item : Item} (h : s.IsProper) (hitem : item.IsProper) :
    (⟨item :: s.output, s.stack⟩ : State).IsProper :=
  ⟨by simpa [hitem] using h.output, h.stack⟩

theorem moveOut_induction {P : State → Prop} (test : Frame → Bool) {output : List Item}
    {stack : List Frame} (h : P ⟨output, stack⟩)
    (hstep : ∀ output f stack item, f.item? = some item → P ⟨output, f :: stack⟩ →
      P ⟨item :: output, stack⟩) : P (moveOut test output stack) := by
  induction stack generalizing output with
  | nil => exact h
  | cons f stack ih =>
    rw [moveOut]
    split
    · rename_i item hitem
      split
      · exact ih (hstep _ _ _ _ hitem h)
      · exact h
    · exact h

theorem State.IsProper.moveOut {output : List Item} {stack : List Frame} (test : Frame → Bool)
    (h : (⟨output, stack⟩ : State).IsProper) : (moveOut test output stack).IsProper := by
  refine moveOut_induction test h fun output f stack item hitem h => ?_
  have hout := h.output
  refine ⟨?_, fun g hg => h.stack g (List.mem_cons_of_mem _ hg)⟩
  simpa [(h.stack f List.mem_cons_self).item hitem] using hout

theorem State.IsProper.unwind {s : State} (h : s.IsProper) : (unwind s).IsProper :=
  State.IsProper.moveOut _ h

theorem sound_pushOperator {s : State} {f : Frame} {symbol : Symbol} (h : s.IsProper)
    (hf : f.IsProper) (hrank : symbol.rank?.isSome) : Sound (pushOperator f symbol s) := by
  obtain ⟨rank, hrank⟩ := Option.isSome_iff_exists.1 hrank
  simp only [pushOperator, hrank]
  exact (h.moveOut _).push hf

theorem sound_closeGroup {s : State} (h : s.IsProper) : Sound (closeGroup s) := by
  have hs := h.unwind
  unfold closeGroup
  simp only
  split
  · rename_i n b name rest hstack
    have hrest := hs.stack
    rw [hstack] at hrest
    have hrest : (⟨(unwind s).output, rest⟩ : State).IsProper :=
      ⟨hs.output, fun f hf => hrest f (by simp [hf])⟩
    exact hrest.emit ⟨_, rfl⟩
  · rename_i n b rest _ hstack
    have hrest := hs.stack
    rw [hstack] at hrest
    exact ⟨hs.output, fun f hf => hrest f (by simp [hf])⟩
  · exact ⟨_, rfl⟩

theorem sound_separate {s : State} {position : Nat} (h : s.IsProper) :
    Sound (separate position s) := by
  have hs := h.unwind
  unfold separate
  simp only
  split
  · rename_i n b rest hstack
    have hrest := hs.stack
    rw [hstack] at hrest
    refine ⟨hs.output, fun f hf => ?_⟩
    rcases List.mem_cons.1 hf with rfl | hf
    · trivial
    · exact hrest f (by simp [hf])
  · exact ⟨_, rfl⟩

theorem sound_step {s : State} {token : Token} (h : s.IsProper) (ht : token.lexeme.IsProper) :
    Sound (step s token) := by
  have hmark := h.mark
  unfold step
  cases hl : token.lexeme with
  | number t => exact hmark.emit trivial
  | constant name => exact hmark.emit trivial
  | function name => exact hmark.push trivial
  | operator symbol =>
    rw [hl] at ht
    exact sound_pushOperator hmark ht (by cases symbol <;> first | rfl | cases ht)
  | postfixed symbol =>
    rw [hl] at ht
    exact sound_pushOperator hmark ht (by cases symbol <;> first | rfl | cases ht)
  | opening => exact hmark.push trivial
  | closing => exact sound_closeGroup h
  | comma => exact sound_separate h
  | foreign =>
    rw [hl] at ht
    exact ht.elim

theorem sound_steps {s : State} {tokens : List Token} (h : s.IsProper)
    (ht : ∀ token ∈ tokens, token.lexeme.IsProper) : Sound (steps s tokens) := by
  induction tokens generalizing s with
  | nil => exact h
  | cons token tokens ih =>
    have hstep := sound_step h (ht token List.mem_cons_self)
    rw [steps]
    cases hs : step s token with
    | ok s' =>
      rw [hs] at hstep
      exact ih hstep fun t h => ht t (List.mem_cons_of_mem _ h)
    | error e =>
      rw [hs] at hstep
      exact hstep

variable {tokens : List Token}

theorem isProper_of_ofTokens {items : List Item} (ht : ∀ token ∈ tokens, token.lexeme.IsProper)
    (h : ofTokens tokens = .ok items) : ∀ item ∈ items, item.IsProper := by
  have hsound := sound_steps (s := {}) ⟨by simp, by simp⟩ ht
  unfold ofTokens at h
  split at h
  · rename_i s hs
    rw [hs] at hsound
    have hunwind := State.IsProper.unwind hsound
    simp only [finish] at h
    split at h
    · cases h
      simpa using hunwind.output
    · cases h
  · cases h

theorem problem_of_ofTokens {e : Failure} (ht : ∀ token ∈ tokens, token.lexeme.IsProper)
    (h : ofTokens tokens = .error e) : ∃ p, e = .problem p := by
  have hsound := sound_steps (s := {}) ⟨by simp, by simp⟩ ht
  unfold ofTokens at h
  split at h
  · simp only [finish] at h
    split at h
    · cases h
    · cases h
      exact ⟨_, rfl⟩
  · rename_i e' hs
    rw [hs] at hsound
    cases h
    exact hsound

end Postfix

end DeskCalculator
