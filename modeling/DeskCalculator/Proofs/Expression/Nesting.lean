import DeskCalculator.Proofs.Expression.Infix

/-!
# Which tokens have a postfix order

The depth of a list of tokens is the number of its opening parentheses less that of its closing
ones. A token is stray if it is a closing parenthesis or a comma at depth zero. Tokens have no
postfix order exactly if one of them is stray, and the first one tells why, or if a parenthesis is
open behind the last one (`Postfix.ofTokens_of_nesting`). The order of operands and operators does
not matter: as many groups are on the stack after a token as the depth says
(`Postfix.step_of_calls`), and a token only fails for want of a group.
-/

namespace DeskCalculator

namespace Token

variable {d : Int} {token : Token} {tokens : List Token} {p : Problem}

def nesting (token : Token) : Int :=
  match token.lexeme with
  | .opening => 1
  | .closing => -1
  | _ => 0

/-- The number of opening parentheses less that of closing ones. -/
def depth (tokens : List Token) : Int :=
  tokens.countP (·.lexeme = .opening) - tokens.countP (·.lexeme = .closing)

def stray? (d : Int) (token : Token) : Option Problem :=
  match token.lexeme with
  | .closing => if d = 0 then some .unopenedParen else none
  | .comma => if d = 0 then some (.misplacedComma token.position) else none
  | _ => none

/-- The problem with the first stray token, for tokens that start at depth `d`. -/
def FirstStray (d : Int) (tokens : List Token) (p : Problem) : Prop :=
  ∃ before token after, tokens = before ++ token :: after ∧
    token.stray? (d + depth before) = some p ∧
    ∀ first other rest, before = first ++ other :: rest → other.stray? (d + depth first) = none

theorem depth_cons (token : Token) (tokens : List Token) :
    depth (token :: tokens) = token.nesting + depth tokens := by
  unfold depth nesting
  simp only [List.countP_cons]
  cases token.lexeme <;> simp <;> omega

theorem firstStray_of_stray {tokens : List Token} (h : token.stray? d = some p) :
    FirstStray d (token :: tokens) p :=
  ⟨[], token, tokens, rfl, by simpa [depth] using h, by simp⟩

theorem firstStray_cons_iff (h : token.stray? d = none) :
    FirstStray d (token :: tokens) p ↔ FirstStray (d + token.nesting) tokens p := by
  constructor
  · rintro ⟨before, other, after, hsplit, hstray, hbefore⟩
    rcases List.cons_eq_append_iff.1 hsplit with ⟨rfl, hcons⟩ | ⟨before, rfl, rfl⟩
    · cases hcons
      rw [show depth [] = 0 from rfl, Int.add_zero, h] at hstray
      cases hstray
    · refine ⟨before, other, after, rfl, ?_, ?_⟩
      · rwa [depth_cons, ← Int.add_assoc] at hstray
      · rintro first other rest rfl
        have := hbefore (token :: first) other rest rfl
        rwa [depth_cons, ← Int.add_assoc] at this
  · rintro ⟨before, other, after, rfl, hstray, hbefore⟩
    refine ⟨token :: before, other, after, rfl, ?_, ?_⟩
    · rwa [depth_cons, ← Int.add_assoc]
    · intro first other rest hsplit
      rcases List.cons_eq_append_iff.1 hsplit with ⟨rfl, hcons⟩ | ⟨first, rfl, rfl⟩
      · cases hcons
        rwa [show depth [] = 0 from rfl, Int.add_zero]
      · rw [depth_cons, ← Int.add_assoc]
        exact hbefore first other rest rfl

end Token

namespace Postfix

open Token

variable {s : State} {d : Int}

/-! ## One token -/

theorem length_calls_unwind (s : State) :
    (calls (unwind s).stack).length = (calls s.stack).length := by
  rw [unwind, calls_moveOut]

theorem unwind_stack_cases (s : State) : (unwind s).stack = [] ∨
    ∃ commas hasContent rest, (unwind s).stack = .group commas hasContent :: rest := by
  unfold unwind
  generalize s.output = output
  induction s.stack generalizing output with
  | nil => exact .inl rfl
  | cons f stack ih =>
    cases f with
    | group commas hasContent => exact .inr ⟨commas, hasContent, stack, rfl⟩
    | _ => exact ih _

theorem unwind_of_calls (hd : ((calls s.stack).length : Int) = d) :
    (d = 0 ∧ (unwind s).stack = []) ∨
    d ≠ 0 ∧ ∃ commas hasContent rest, (unwind s).stack = .group commas hasContent :: rest ∧
      ((calls rest).length : Int) = d - 1 := by
  rw [← length_calls_unwind] at hd
  rcases unwind_stack_cases s with hnil | ⟨commas, hasContent, rest, hgroup⟩
  · rw [hnil] at hd
    exact .inl ⟨hd.symm, hnil⟩
  · rw [hgroup, calls, List.length_cons] at hd
    exact .inr ⟨by omega, commas, hasContent, rest, hgroup, by omega⟩

theorem closeGroup_of_calls (hd : ((calls s.stack).length : Int) = d) :
    (d = 0 → closeGroup s = .error (.problem .unopenedParen)) ∧
    (d ≠ 0 → ∃ s', closeGroup s = .ok s' ∧ ((calls s'.stack).length : Int) = d + -1) := by
  unfold closeGroup
  rcases unwind_of_calls hd with ⟨rfl, hnil⟩ | ⟨hne, commas, hasContent, rest, hgroup, hrest⟩
  · exact ⟨fun _ => by simp only [hnil], fun h => absurd rfl h⟩
  · refine ⟨fun h => absurd h hne, fun _ => ?_⟩
    simp only [hgroup]
    split
    · rename_i hcall
      cases hcall
      exact ⟨_, rfl, hrest⟩
    · rename_i hcall
      cases hcall
      exact ⟨_, rfl, hrest⟩
    · rename_i hno
      exact (hno _ _ _ rfl).elim

theorem separate_of_calls (hd : ((calls s.stack).length : Int) = d) (position : Nat) :
    (d = 0 → separate position s = .error (.problem (.misplacedComma position))) ∧
    (d ≠ 0 → ∃ s', separate position s = .ok s' ∧ ((calls s'.stack).length : Int) = d + 0) := by
  unfold separate
  rcases unwind_of_calls hd with ⟨rfl, hnil⟩ | ⟨hne, commas, hasContent, rest, hgroup, hrest⟩
  · exact ⟨fun _ => by simp only [hnil], fun h => absurd rfl h⟩
  · refine ⟨fun h => absurd h hne, fun _ => ?_⟩
    simp only [hgroup]
    refine ⟨_, rfl, ?_⟩
    simp only [calls, List.length_cons]
    omega

theorem exists_pushOperator {frame : Frame} {item : Item} (hitem : frame.item? = some item)
    {symbol : Symbol} (hrank : symbol.rank?.isSome) (s : State) :
    ∃ s', pushOperator frame symbol s = .ok s' ∧ calls s'.stack = calls s.stack := by
  obtain ⟨rank, hrank⟩ := Option.isSome_iff_exists.1 hrank
  simp only [pushOperator, hrank]
  exact ⟨_, rfl, by rw [calls_cons hitem, calls_moveOut]⟩

/-- **One token.** At a depth that is the number of open groups, a stray token is a problem, and
every other token leaves as many groups open as the depth behind it says. -/
theorem step_of_calls {token : Token} (ht : token.lexeme.IsProper)
    (hd : ((calls s.stack).length : Int) = d) :
    (∀ p, token.stray? d = some p → step s token = .error (.problem p)) ∧
    (token.stray? d = none →
      ∃ s', step s token = .ok s' ∧ ((calls s'.stack).length : Int) = d + token.nesting) := by
  have hmarked : ((calls (markContent s.stack)).length : Int) = d + 0 := by
    rw [calls_markContent, hd, Int.add_zero]
  unfold step stray? nesting
  cases hl : token.lexeme with
  | number | constant | function => exact ⟨nofun, fun _ => ⟨_, rfl, hmarked⟩⟩
  | operator symbol =>
    rw [hl] at ht
    have hrank : symbol.rank?.isSome := by cases symbol <;> first | rfl | cases ht
    obtain ⟨s', hpush, hcalls⟩ := @exists_pushOperator (.operator symbol) _ rfl symbol hrank
      ⟨s.output, markContent s.stack⟩
    exact ⟨nofun, fun _ => ⟨s', hpush, hcalls ▸ hmarked⟩⟩
  | postfixed symbol =>
    rw [hl] at ht
    have hrank : symbol.rank?.isSome := by cases symbol <;> first | rfl | cases ht
    obtain ⟨s', hpush, hcalls⟩ := @exists_pushOperator (.postfixed symbol) _ rfl symbol hrank
      ⟨s.output, markContent s.stack⟩
    exact ⟨nofun, fun _ => ⟨s', hpush, hcalls ▸ hmarked⟩⟩
  | opening =>
    refine ⟨nofun, fun _ => ⟨_, rfl, ?_⟩⟩
    simp only [calls, List.length_cons]
    omega
  | closing =>
    obtain ⟨hstray, hclose⟩ := closeGroup_of_calls hd
    refine ⟨fun p hp => ?_, fun hnone => hclose (by simpa using hnone)⟩
    obtain ⟨hzero, rfl⟩ : d = 0 ∧ Problem.unopenedParen = p := by simpa using hp
    exact hstray hzero
  | comma =>
    obtain ⟨hstray, hseparate⟩ := separate_of_calls hd token.position
    refine ⟨fun p hp => ?_, fun hnone => hseparate (by simpa using hnone)⟩
    obtain ⟨hzero, rfl⟩ : d = 0 ∧ Problem.misplacedComma token.position = p := by simpa using hp
    exact hstray hzero
  | foreign =>
    rw [hl] at ht
    exact ht.elim

/-! ## All tokens -/

variable {tokens : List Token}

/-- **Several tokens.** The first stray one is the problem; without one, as many groups are open
behind the last token as the depth says. -/
theorem steps_of_calls (ht : ∀ token ∈ tokens, token.lexeme.IsProper)
    (hd : ((calls s.stack).length : Int) = d) :
    (∀ p, FirstStray d tokens p → steps s tokens = .error (.problem p)) ∧
    ((∀ p, ¬ FirstStray d tokens p) →
      ∃ s', steps s tokens = .ok s' ∧ ((calls s'.stack).length : Int) = d + depth tokens) := by
  induction tokens generalizing s d with
  | nil =>
    refine ⟨?_, fun _ => ⟨s, rfl, by simpa [depth] using hd⟩⟩
    rintro p ⟨before, token, after, hsplit, -⟩
    simp at hsplit
  | cons token tokens ih =>
    rw [List.forall_mem_cons] at ht
    obtain ⟨hstray, hstep⟩ := step_of_calls ht.1 hd
    rw [steps]
    cases hfirst : token.stray? d with
    | some p =>
      rw [hstray p hfirst]
      refine ⟨?_, fun hnone => absurd (firstStray_of_stray hfirst) (hnone p)⟩
      intro q hq
      obtain ⟨before, other, after, hsplit, hother, hbefore⟩ := hq
      rcases List.cons_eq_append_iff.1 hsplit with ⟨rfl, hcons⟩ | ⟨before, rfl, -⟩
      · cases hcons
        rw [show depth [] = 0 from rfl, Int.add_zero, hfirst] at hother
        cases hother
        rfl
      · have := hbefore [] token before rfl
        rw [show depth [] = 0 from rfl, Int.add_zero, hfirst] at this
        cases this
    | none =>
      obtain ⟨s', hs', hcalls⟩ := hstep hfirst
      rw [hs', depth_cons, ← Int.add_assoc]
      simp only [firstStray_cons_iff hfirst]
      exact ih ht.2 hcalls

/-- **Which tokens have a postfix order.** The tokens of a text are not arranged if one of them is a
closing parenthesis or a comma at depth zero, and the first such token is the problem; nor if there
is none and a parenthesis is left open, which is the problem then. In every other case they have a
postfix order. -/
theorem ofTokens_of_nesting {t : Text} (h : Token.scan t = .ok tokens) :
    (∀ p, FirstStray 0 tokens p → ofTokens tokens = .error (.problem p)) ∧
    ((∀ p, ¬ FirstStray 0 tokens p) →
      (0 < depth tokens → ofTokens tokens = .error (.problem .unclosedParen)) ∧
      (depth tokens ≤ 0 → ∃ items, ofTokens tokens = .ok items)) := by
  obtain ⟨hstray, hsteps⟩ :=
    steps_of_calls (s := {}) (d := 0) (Token.isProper_of_scan h) rfl
  unfold ofTokens
  refine ⟨fun p hp => by rw [hstray p hp], fun hnone => ?_⟩
  obtain ⟨s, hs, hcalls⟩ := hsteps hnone
  rw [hs, Int.zero_add] at *
  simp only [finish]
  rcases unwind_of_calls hcalls with ⟨hzero, hnil⟩ | ⟨hne, commas, hasContent, rest, hgroup, hrest⟩
  · rw [hnil]
    exact ⟨fun hpos => by omega, fun _ => ⟨_, rfl⟩⟩
  · rw [hgroup]
    exact ⟨fun _ => rfl, fun hle => by omega⟩

/-- In `(1)),` the second closing parenthesis comes before the comma. -/
theorem ofTokens_unopened_before_comma :
    let tokens : List Token :=
      [⟨.opening, 0⟩, ⟨.number ['1'], 1⟩, ⟨.closing, 2⟩, ⟨.closing, 3⟩, ⟨.comma, 4⟩]
    Token.scan ['(', '1', ')', ')', ','] = .ok tokens ∧ FirstStray 0 tokens .unopenedParen ∧
      ofTokens tokens = .error (.problem .unopenedParen) := by
  intro tokens
  have hscan : Token.scan ['(', '1', ')', ')', ','] = .ok tokens := rfl
  have hfirst : FirstStray 0 tokens .unopenedParen := by
    iterate 3 refine (firstStray_cons_iff rfl).2 ?_
    exact firstStray_of_stray rfl
  exact ⟨hscan, hfirst, (ofTokens_of_nesting hscan).1 _ hfirst⟩

end Postfix

end DeskCalculator
