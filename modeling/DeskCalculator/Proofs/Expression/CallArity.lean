import DeskCalculator.Proofs.Expression.Nesting
import DeskCalculator.Proofs.Expression.Origins
import Mathlib.Data.List.Infix

/-!
# How many arguments a call has

The group that a function's opening parenthesis leaves on the stack stays there, above the function,
until the parenthesis that matches it (`Postfix.Traced.Within`). On the way only what stands
directly in the group changes it: a comma there is counted, and anything else marks it, as does what
opens a group inside. So a call has no arguments if there are only commas between its parentheses,
and otherwise one more than there are commas directly between them
(`Postfix.Traced.exists_call_of_ofTokens`).
-/

namespace DeskCalculator

namespace Token

/-- Each parenthesis among the tokens has its counterpart among them. -/
structure Balanced (tokens : List Token) : Prop where
  closed : depth tokens = 0
  opened : ∀ first, first <+: tokens → 0 ≤ depth first

/-- The counterpart of a parenthesis in front of the tokens is the first one that closes more than
these open. -/
theorem Balanced.unique {first second rest rest' : List Token} {r r' : Nat} (h : Balanced first)
    (h' : Balanced second)
    (heq : first ++ ⟨.closing, r⟩ :: rest = second ++ ⟨.closing, r'⟩ :: rest') :
    first = second := by
  wlog hle : first.length ≤ second.length generalizing first second rest rest' r r'
  · exact (this h' h heq.symm (Nat.le_of_not_le hle)).symm
  rcases List.append_eq_append_iff.1 heq with ⟨more, rfl, hmore⟩ | ⟨more, rfl, -⟩
  · cases more with
    | nil => rw [List.append_nil]
    | cons token more =>
      obtain ⟨rfl, -⟩ := List.cons.inj hmore
      have hprefix : first ++ [⟨.closing, r⟩] <+: first ++ ⟨.closing, r⟩ :: more :=
        ⟨more, by simp⟩
      have hopen := h'.opened _ hprefix
      have hclosed := h.closed
      simp [depth] at hopen hclosed
      omega
  · rw [List.length_append] at hle
    rw [List.eq_nil_of_length_eq_zero (l := more) (by omega), List.append_nil]

/-- The number of commas at depth zero, for tokens that start at depth `d`. -/
def directCommas : Int → List Token → Nat
  | _, [] => 0
  | d, token :: rest =>
    (if token.lexeme = .comma ∧ d = 0 then 1 else 0) + directCommas (d + token.nesting) rest

/-- The number of arguments that tokens between parentheses make up: none if they are all commas. -/
def argumentCount (tokens : List Token) : Nat :=
  if ∀ token ∈ tokens, token.lexeme = .comma then 0 else directCommas 0 tokens + 1

end Token

namespace Postfix.Traced

open Token

def openGroups (stack : List (Frame × Token)) : Int := stack.countP (·.1.item?.isNone)

theorem openGroups_nonneg (stack : List (Frame × Token)) : 0 ≤ openGroups stack :=
  Int.natCast_nonneg _

theorem openGroups_cons_group (commas : Nat) (hasContent : Bool) (token : Token)
    (stack : List (Frame × Token)) :
    openGroups ((.group commas hasContent, token) :: stack) = openGroups stack + 1 := by
  simp [openGroups, Frame.item?]

theorem openGroups_cons {f : Frame} {item : Item} (hitem : f.item? = some item) (token : Token)
    (stack : List (Frame × Token)) : openGroups ((f, token) :: stack) = openGroups stack := by
  simp [openGroups, hitem]

/-- In a state a group is on the stack above the frames `base`, with `d` groups above it. Something
stands in it if one of these is open. -/
structure Within (base : List (Frame × Token)) (d : Int) (commas : Nat) (hasContent : Bool)
    (s : Traced) : Prop where
  stack : ∃ above token, s.stack = above ++ (.group commas hasContent, token) :: base ∧
    openGroups above = d
  content : d ≠ 0 → hasContent = true

namespace Within

variable {base : List (Frame × Token)} {d : Int} {commas : Nat} {hasContent : Bool}
  {s s' : Traced} {token : Token}

theorem nonneg (h : Within base d commas hasContent s) : 0 ≤ d := by
  obtain ⟨above, token, -, rfl⟩ := h.stack
  exact openGroups_nonneg above

theorem mark (h : Within base d commas hasContent s) :
    Within base d commas true { s with stack := markContent s.stack } := by
  obtain ⟨above, token, hstack, hd⟩ := h.stack
  have hcontent := h.content
  refine ⟨?_, fun _ => rfl⟩
  simp only [hstack]
  clear hstack h
  induction above with
  | nil => exact ⟨[], token, rfl, hd⟩
  | cons f above ih =>
    obtain ⟨f, other⟩ := f
    cases f with
    | group m c =>
      have hne : d ≠ 0 := by
        have := openGroups_nonneg above
        rw [openGroups_cons_group] at hd
        omega
      rw [hcontent hne]
      exact ⟨(.group m true, other) :: above, token, rfl, by rwa [openGroups_cons_group] at hd ⊢⟩
    | _ =>
      rw [openGroups_cons rfl] at hd
      obtain ⟨above', token', hstack, hd'⟩ := ih hd
      exact ⟨(_, other) :: above', token', congrArg (_ :: ·) hstack, by rwa [openGroups_cons rfl]⟩

theorem moveOut {output : List (Item × Token)} {stack : List (Frame × Token)}
    (test : Frame → Bool) (h : Within base d commas hasContent ⟨output, stack⟩) :
    Within base d commas hasContent (moveOut test output stack) := by
  refine moveOut_preserves test h fun output f other stack item hitem h => ⟨?_, h.content⟩
  obtain ⟨above, token, hstack, hd⟩ := h.stack
  rcases List.cons_eq_append_iff.1 hstack with ⟨rfl, hcons⟩ | ⟨above, rfl, hrest⟩
  · cases hcons
    cases hitem
  · exact ⟨above, token, hrest, (openGroups_cons hitem _ _).symm.trans hd⟩

theorem push (h : Within base d commas hasContent s) {f : Frame} {item : Item}
    (hitem : f.item? = some item) (token : Token) :
    Within base d commas hasContent ⟨s.output, (f, token) :: s.stack⟩ := by
  obtain ⟨above, other, hstack, hd⟩ := h.stack
  exact ⟨⟨(f, token) :: above, other, congrArg (_ :: ·) hstack,
    (openGroups_cons hitem _ _).trans hd⟩, h.content⟩

theorem pushGroup (h : Within base d commas true s) (m : Nat) (c : Bool) (token : Token) :
    Within base (d + 1) commas true ⟨s.output, (.group m c, token) :: s.stack⟩ := by
  obtain ⟨above, other, hstack, hd⟩ := h.stack
  exact ⟨⟨(.group m c, token) :: above, other, congrArg (_ :: ·) hstack,
    (openGroups_cons_group ..).trans (congrArg (· + 1) hd)⟩, fun _ => rfl⟩

theorem pushOperator (h : Within base d commas hasContent s) {f : Frame} {item : Item}
    {symbol : Symbol} (hitem : f.item? = some item)
    (hs : Traced.pushOperator f symbol token s = .ok s') :
    Within base d commas hasContent s' := by
  obtain ⟨test, rfl⟩ := pushOperator_cases hs
  exact (h.moveOut test).push hitem token

theorem unwind (h : Within base d commas hasContent s) :
    (d = 0 ∧ ∃ token, (Traced.unwind s).stack = (.group commas hasContent, token) :: base) ∨
    d ≠ 0 ∧ ∃ m c token above other, (Traced.unwind s).stack =
      (.group m c, token) :: (above ++ (.group commas hasContent, other) :: base) ∧
      openGroups above = d - 1 := by
  have hunwind : Within base d commas hasContent (Traced.unwind s) := h.moveOut _
  obtain ⟨above, token, hstack, hd⟩ := hunwind.stack
  have htop := unwind_stack_cases s.untrace
  rw [← untrace_unwind, untrace, hstack] at htop
  cases above with
  | nil => exact .inl ⟨hd.symm, token, hstack⟩
  | cons f above =>
    obtain ⟨f, other⟩ := f
    obtain ⟨m, c, rest, htop⟩ := htop.resolve_left (by simp)
    obtain ⟨rfl, -⟩ := List.cons.inj htop
    have hpos := openGroups_nonneg above
    rw [openGroups_cons_group] at hd
    exact .inr ⟨by omega, m, c, other, above, token, hstack, by omega⟩

/-- A parenthesis that closes a group inside. -/
theorem closeGroup (h : Within base d commas hasContent s) (hd : d ≠ 0)
    (hs : Traced.closeGroup s = .ok s') : Within base (d - 1) commas hasContent s' := by
  have hcontent : d - 1 ≠ 0 → hasContent = true := fun _ => h.content hd
  obtain ⟨hzero, -⟩ | ⟨-, m, c, token, above, other, hstack, habove⟩ := h.unwind
  · exact absurd hzero hd
  · obtain ⟨_, _, _, _, _, rest, hclosed, rfl⟩ | ⟨_, _, _, rest, hclosed, -, rfl⟩ :=
      closeGroup_cases hs
    · -- a call is closed too, and its name stands above the group
      obtain ⟨-, hrest⟩ := List.cons.inj (hstack.symm.trans hclosed)
      rcases List.append_eq_cons_iff.1 hrest with ⟨rfl, hcons⟩ | ⟨above, rfl, rfl⟩
      · cases hcons
      · exact ⟨⟨above, other, rfl, (openGroups_cons rfl _ _).symm.trans habove⟩, hcontent⟩
    · obtain ⟨-, rfl⟩ := List.cons.inj (hstack.symm.trans hclosed)
      exact ⟨⟨above, other, rfl, habove⟩, hcontent⟩

/-- The parenthesis that closes the group itself closes the call below it. -/
theorem closeGroup_call {name : Text} {function : Token}
    (h : Within ((.function name, function) :: base) 0 commas hasContent s)
    (hs : Traced.closeGroup s = .ok s') :
    (Item.call name (some (Frame.groupArity commas hasContent)), function) ∈ s'.output := by
  obtain ⟨-, token, hstack⟩ | ⟨hne, -⟩ := h.unwind
  · obtain ⟨_, _, _, _, _, _, hclosed, rfl⟩ | ⟨_, _, _, _, hclosed, hno, -⟩ := closeGroup_cases hs
    · cases hstack.symm.trans hclosed
      exact List.mem_cons_self
    · cases hstack.symm.trans hclosed
      exact absurd rfl (hno _ _ _)
  · exact absurd rfl hne

theorem separate {position : Nat} (h : Within base d commas hasContent s)
    (hs : Traced.separate position s = .ok s') :
    Within base d (commas + if d = 0 then 1 else 0) hasContent s' := by
  obtain ⟨_, _, _, _, htop, rfl⟩ := separate_cases hs
  obtain ⟨rfl, token, hstack⟩ | ⟨hne, m, c, token, above, other, hstack, habove⟩ := h.unwind
  · cases hstack.symm.trans htop
    exact ⟨⟨[], _, rfl, rfl⟩, fun hne => absurd rfl hne⟩
  · cases hstack.symm.trans htop
    rw [if_neg hne, Nat.add_zero]
    refine ⟨⟨(.group _ _, _) :: above, other, rfl, ?_⟩, h.content⟩
    rw [openGroups_cons_group]
    omega

/-- **One token** inside. -/
theorem step (h : Within base d commas hasContent s) (hs : Traced.step s token = .ok s')
    (hinside : token.lexeme = .closing → d ≠ 0) :
    Within base (d + token.nesting)
      (commas + if token.lexeme = .comma ∧ d = 0 then 1 else 0)
      (hasContent || token.lexeme ≠ .comma) s' := by
  have hmark := h.mark
  obtain ⟨lexeme, position⟩ := token
  cases lexeme with
  | number | constant =>
    have hleaf : Within base d commas true s' := by
      cases hs
      exact ⟨hmark.stack, hmark.content⟩
    simpa [nesting] using hleaf
  | function =>
    cases hs
    simpa [nesting] using hmark.push rfl _
  | operator | postfixed => simpa [nesting] using hmark.pushOperator rfl hs
  | opening =>
    cases hs
    simpa [nesting] using hmark.pushGroup 0 false _
  | closing =>
    have hd := hinside rfl
    obtain rfl := h.content hd
    exact h.closeGroup hd hs
  | comma => simpa [nesting] using h.separate hs
  | foreign =>
    cases hs
    simpa [nesting] using hmark

end Within

section Run

variable {base : List (Frame × Token)} {d : Int} {commas : Nat} {hasContent : Bool}
  {s s' : Traced} {tokens : List Token} {traced : List (Item × Token)} {name : Text}
  {function : Token}

/-- **Up to the closing parenthesis.** The tokens that follow contain the parenthesis that closes
the group, and the call is among the items. -/
theorem Within.exists_closing
    (h : Within ((.function name, function) :: base) d commas hasContent s)
    (hs : steps s tokens = .ok s') (hfinish : finish s' = .ok traced) :
    ∃ inside r rest, tokens = inside ++ ⟨.closing, r⟩ :: rest ∧ d + depth inside = 0 ∧
      (∀ first, first <+: inside → 0 ≤ d + depth first) ∧
      (Item.call name (some (Frame.groupArity (commas + directCommas d inside)
        (hasContent || inside.any (·.lexeme ≠ .comma)))), function) ∈ traced := by
  induction tokens generalizing s d commas hasContent with
  | nil =>
    cases hs
    unfold finish at hfinish
    obtain ⟨-, token, hstack⟩ | ⟨-, m, c, token, above, other, hstack, -⟩ := h.unwind
    · simp [hstack] at hfinish
    · simp [hstack] at hfinish
  | cons token tokens ih =>
    rw [steps] at hs
    split at hs
    · rename_i s₁ hs₁
      by_cases hlast : token.lexeme = .closing ∧ d = 0
      · obtain ⟨hclosing, rfl⟩ := hlast
        obtain ⟨lexeme, r⟩ := token
        obtain rfl : lexeme = .closing := hclosing
        refine ⟨[], r, tokens, rfl, rfl, ?_, ?_⟩
        · intro first hfirst
          rw [List.prefix_nil.1 hfirst]
          decide
        · have hcall := mem_finish (mem_steps (h.closeGroup_call hs₁) hs) hfinish
          simpa [directCommas] using hcall
      · have hinside : token.lexeme = .closing → d ≠ 0 := fun hc hd => hlast ⟨hc, hd⟩
        obtain ⟨inside, r, rest, rfl, hdepth, hopen, hcall⟩ := ih (h.step hs₁ hinside) hs
        refine ⟨token :: inside, r, rest, rfl, ?_, ?_, ?_⟩
        · rwa [depth_cons, ← Int.add_assoc]
        · intro first hfirst
          rcases List.prefix_cons_iff.1 hfirst with rfl | ⟨first, rfl, hprefix⟩
          · simpa [depth] using h.nonneg
          · rw [depth_cons, ← Int.add_assoc]
            exact hopen first hprefix
        · rwa [Nat.add_assoc, Bool.or_assoc] at hcall
    · cases hs

theorem argumentCount_eq (inside : List Token) : argumentCount inside =
    Frame.groupArity (0 + directCommas 0 inside) (false || inside.any (·.lexeme ≠ .comma)) := by
  unfold argumentCount Frame.groupArity
  by_cases h : ∀ token ∈ inside, token.lexeme = .comma
  · rw [if_pos h, if_neg]
    simpa using h
  · rw [if_neg h, if_pos, Nat.zero_add]
    simpa using h

end Run

theorem exists_steps_of_append {s s' : Traced} {before after : List Token}
    (h : steps s (before ++ after) = .ok s') :
    ∃ s₁, steps s before = .ok s₁ ∧ steps s₁ after = .ok s' := by
  induction before generalizing s with
  | nil => exact ⟨s, rfl, h⟩
  | cons token before ih =>
    rw [List.cons_append, steps] at h
    rw [steps]
    cases hstep : step s token with
    | ok s₁ =>
      rw [hstep] at h
      exact ih h
    | error e =>
      rw [hstep] at h
      cases h

theorem filter_eq_singleton {traced : List (Item × Token)} {a : Item × Token}
    (hnodup : (traced.map Prod.snd).Nodup) (ha : a ∈ traced) :
    traced.filter (·.2 = a.2) = [a] := by
  obtain ⟨before, after, rfl⟩ := List.append_of_mem ha
  rw [List.map_append, List.map_cons, List.perm_middle.nodup_iff, List.nodup_cons,
    List.mem_append] at hnodup
  have hbefore : before.filter (·.2 = a.2) = [] := List.filter_eq_nil_iff.2 fun b hb heq =>
    hnodup.1 (.inl (List.mem_map.2 ⟨b, hb, by simpa using heq⟩))
  have hafter : after.filter (·.2 = a.2) = [] := List.filter_eq_nil_iff.2 fun b hb heq =>
    hnodup.1 (.inr (List.mem_map.2 ⟨b, hb, by simpa using heq⟩))
  simp [List.filter_append, hbefore, hafter]

/-- **The arguments of a call.** An opening parenthesis behind a function has its counterpart, and
the one item that comes from the function is a call with as many arguments as stand in between. -/
theorem exists_call_of_ofTokens {t : Text} {tokens before after : List Token} {items : List Item}
    {name : Text} {p q : Nat} (hscan : Token.scan t = .ok tokens)
    (hitems : Postfix.ofTokens tokens = .ok items)
    (hsplit : tokens = before ++ ⟨.function name, p⟩ :: ⟨.opening, q⟩ :: after) :
    ∃ inside r rest traced, after = inside ++ ⟨.closing, r⟩ :: rest ∧ Balanced inside ∧
      ofTokens tokens = .ok traced ∧ traced.map Prod.fst = items ∧
      traced.filter (·.2 = ⟨.function name, p⟩) =
        [(.call name (some (argumentCount inside)), ⟨.function name, p⟩)] := by
  have hlate := (Token.tiles_of_scanFrom (Nat.zero_le _) hscan).covers.increasing
  obtain ⟨traced, htraced, hmap⟩ := exists_of_ofTokens hitems
  have hnodup : (traced.map Prod.snd).Nodup := by
    obtain ⟨output, rfl, hkeeps⟩ := exists_keeps_of_ofTokens hlate htraced
    exact hkeeps.nodup hlate
  have hrun := htraced
  unfold ofTokens at hrun
  split at hrun
  · rename_i s' hs'
    rw [hsplit] at hs'
    obtain ⟨s, -, hs⟩ := exists_steps_of_append hs'
    have hgroup : Within ((.function name, ⟨.function name, p⟩) ::
        markContent (markContent s.stack)) 0 0 false
        ⟨s.output, (.group 0 false, ⟨.opening, q⟩) :: (.function name, ⟨.function name, p⟩) ::
          markContent (markContent s.stack)⟩ :=
      ⟨⟨[], _, rfl, rfl⟩, fun hne => absurd rfl hne⟩
    obtain ⟨inside, r, rest, hafter, hdepth, hopen, hcall⟩ := hgroup.exists_closing hs hrun
    rw [← argumentCount_eq] at hcall
    refine ⟨inside, r, rest, traced, hafter, ⟨?_, ?_⟩, htraced, hmap, ?_⟩
    · rwa [Int.zero_add] at hdepth
    · intro first hfirst
      simpa using hopen first hfirst
    · exact filter_eq_singleton hnodup hcall
  · cases hrun

/-- In `f(,(1,2))` one comma stands directly in the call and the other one does not. -/
theorem exists_call_of_ofTokens_comma :
    let inside : List Token := [⟨.comma, 2⟩, ⟨.opening, 3⟩, ⟨.number ['1'], 4⟩, ⟨.comma, 5⟩,
      ⟨.number ['2'], 6⟩, ⟨.closing, 7⟩]
    let tokens : List Token :=
      ⟨.function ['f'], 0⟩ :: ⟨.opening, 1⟩ :: (inside ++ [⟨.closing, 8⟩])
    Token.scan ['f', '(', ',', '(', '1', ',', '2', ')', ')'] = .ok tokens ∧
      ∃ items traced, Postfix.ofTokens tokens = .ok items ∧ ofTokens tokens = .ok traced ∧
        traced.filter (·.2 = ⟨.function ['f'], 0⟩) =
          [(.call ['f'] (some 2), ⟨.function ['f'], 0⟩)] := by
  intro inside tokens
  have hscan : Token.scan ['f', '(', ',', '(', '1', ',', '2', ')', ')'] = .ok tokens := rfl
  have hitems : Postfix.ofTokens tokens =
      .ok [.number ['1'], .number ['2'], .call ['f'] (some 2)] := rfl
  obtain ⟨pair, r, rest, traced, hpair, hbalanced, htraced, -, hcall⟩ :=
    @exists_call_of_ofTokens _ _ [] _ _ _ _ _ hscan hitems rfl
  have hinside : Balanced inside := by
    have hopened : ∀ first ∈ inside.inits, 0 ≤ depth first := by decide
    exact ⟨rfl, fun first hfirst => hopened first ((List.mem_inits ..).2 hfirst)⟩
  obtain rfl := hinside.unique hbalanced hpair
  exact ⟨hscan, _, traced, hitems, htraced, hcall⟩

end Postfix.Traced

end DeskCalculator
