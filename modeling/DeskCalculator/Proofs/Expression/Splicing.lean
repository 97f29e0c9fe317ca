import DeskCalculator.Evaluation
import DeskCalculator.Proofs.Evaluation.PlainText
import DeskCalculator.Proofs.Expression.Seams
import DeskCalculator.Proofs.Stack.Faults

/-!
# Splicing a result into an expression

Where a text awaits an operand, the plain text of a value may stand in place of the last answer: the
items of the whole are the same except for the operand itself, or the whole fails with a problem of
the same kind (`ofText_splice`). A negation that stands before the numeral waits on the stack, but
whatever may follow an operand moves it out before anything else.
-/

namespace DeskCalculator

open Decimal (signText)

def Failure.kind? : Failure → Option ProblemKind
  | problem p => some p.kind
  | fault _ => none

namespace Postfix

/-! ## Items that are out already -/

def State.above (base : List Item) (s : State) : State := ⟨s.output ++ base, s.stack⟩

theorem moveOut_above (base : List Item) (test : Frame → Bool) (output : List Item)
    (stack : List Frame) :
    moveOut test (output ++ base) stack = (moveOut test output stack).above base := by
  induction stack generalizing output with
  | nil => rfl
  | cons f stack ih =>
    rw [moveOut, moveOut]
    cases f.item? with
    | none => rfl
    | some item =>
      by_cases htest : test f
      · simp only [htest, if_true]
        exact ih (item :: output)
      · simp only [htest, Bool.false_eq_true, if_false]
        rfl

variable (base : List Item) (s : State)

theorem unwind_above : unwind (s.above base) = (unwind s).above base := moveOut_above ..

theorem pushOperator_above (frame : Frame) (symbol : Symbol) :
    pushOperator frame symbol (s.above base) = (pushOperator frame symbol s).map (.above base) := by
  unfold pushOperator
  cases symbol.rank? with
  | none => rfl
  | some rank =>
    simp only [State.above, moveOut_above]
    rfl

theorem closeGroup_above : closeGroup (s.above base) = (closeGroup s).map (.above base) := by
  unfold closeGroup
  rw [unwind_above]
  obtain ⟨output, stack⟩ := unwind s
  simp only [State.above]
  split <;> rfl

theorem separate_above (position : Nat) :
    separate position (s.above base) = (separate position s).map (.above base) := by
  unfold separate
  rw [unwind_above]
  obtain ⟨output, stack⟩ := unwind s
  simp only [State.above]
  split <;> rfl

theorem step_above (token : Token) :
    step (s.above base) token = (step s token).map (.above base) := by
  unfold step
  cases token.lexeme with
  | operator symbol => exact pushOperator_above base ⟨s.output, markContent s.stack⟩ _ symbol
  | postfixed symbol => exact pushOperator_above base ⟨s.output, markContent s.stack⟩ _ symbol
  | closing => exact closeGroup_above base s
  | comma => exact separate_above base s _
  | number | constant | function | opening | foreign => rfl

theorem steps_above (tokens : List Token) :
    steps (s.above base) tokens = (steps s tokens).map (.above base) := by
  induction tokens generalizing s with
  | nil => rfl
  | cons token tokens ih =>
    rw [steps, steps, step_above]
    cases step s token with
    | error e => rfl
    | ok s => exact ih s

/-- The items when tokens are read from a state on. -/
def itemsFrom (s : State) (tokens : List Token) : Except Failure (List Item) :=
  match steps s tokens with
  | .ok s => finish s
  | .error e => .error e

theorem itemsFrom_above (tokens : List Token) :
    itemsFrom (s.above base) tokens = (itemsFrom s tokens).map (base.reverse ++ ·) := by
  unfold itemsFrom
  rw [steps_above]
  cases steps s tokens with
  | error e => rfl
  | ok s =>
    show finish (s.above base) = (finish s).map _
    unfold finish
    rw [unwind_above]
    by_cases hempty : (unwind s).stack.isEmpty
    · simp [State.above, hempty, Except.map]
    · simp [State.above, hempty, Except.map]

/-! ## Positions -/

theorem kind_step (s : State) {token token' : Token} (h : token.lexeme = token'.lexeme) :
    (step s token).mapError Failure.kind? = (step s token').mapError Failure.kind? := by
  unfold step
  rw [h]
  cases token'.lexeme with
  | comma =>
    simp only [separate]
    split <;> rfl
  | _ => rfl

theorem kind_itemsFrom (s : State) {tokens tokens' : List Token}
    (h : tokens.map Token.lexeme = tokens'.map Token.lexeme) :
    (itemsFrom s tokens).mapError Failure.kind? = (itemsFrom s tokens').mapError Failure.kind? := by
  induction tokens generalizing s tokens' with
  | nil =>
    cases tokens' with
    | nil => rfl
    | cons token' tokens' => cases h
  | cons token tokens ih =>
    cases tokens' with
    | nil => cases h
    | cons token' tokens' =>
      obtain ⟨hlexeme, hrest⟩ := List.cons.inj h
      have hkind := kind_step s hlexeme
      cases hstep : step s token with
      | error e =>
        cases hstep' : step s token' with
        | error e' =>
          rw [hstep, hstep'] at hkind
          simp only [itemsFrom, steps, hstep, hstep']
          exact congrArg Except.error (Except.error.inj hkind)
        | ok s' =>
          rw [hstep, hstep'] at hkind
          cases hkind
      | ok s₁ =>
        cases hstep' : step s token' with
        | error e' =>
          rw [hstep, hstep'] at hkind
          cases hkind
        | ok s₂ =>
          rw [hstep, hstep'] at hkind
          cases hkind
          simpa only [itemsFrom, steps, hstep, hstep'] using ih s₁ hrest

/-! ## The operand -/

theorem steps_concat {s s' : State} {tokens : List Token} {token : Token}
    (h : steps s (tokens ++ [token]) = .ok s') : ∃ s₁, step s₁ token = .ok s' := by
  induction tokens generalizing s with
  | nil =>
    rw [List.nil_append, steps] at h
    cases hstep : step s token with
    | error e =>
      rw [hstep] at h
      cases h
    | ok s₁ =>
      rw [hstep] at h
      exact ⟨s, hstep.trans h⟩
  | cons first tokens ih =>
    rw [List.cons_append, steps] at h
    cases hstep : step s first with
    | error e =>
      rw [hstep] at h
      cases h
    | ok s₁ =>
      rw [hstep] at h
      exact ih h

theorem rank_operator_le {symbol : Symbol} (h : symbol.isOperator) :
    (Frame.operator symbol).rank ≤ 5 := by
  cases symbol with
  | factorial | percent | other => cases h
  | _ => decide

theorem rank_head_of_step {s s' : State} {token : Token} (hproper : token.lexeme.IsProper)
    (hoperand : token.lexeme.beforeOperand) (h : step s token = .ok s') :
    ∀ f ∈ s'.stack.head?, f.rank ≤ 5 := by
  unfold step at h
  cases hl : token.lexeme with
  | operator symbol =>
    rw [hl] at hproper h
    simp only [pushOperator] at h
    split at h
    · cases h
    · cases h
      rintro f ⟨⟩
      exact rank_operator_le hproper
  | opening =>
    rw [hl] at h
    cases h
    rintro f ⟨⟩
    decide
  | comma =>
    rw [hl] at h
    simp only [separate] at h
    split at h
    · cases h
      rintro f ⟨⟩
      exact Nat.zero_le _
    · cases h
  | number | constant | function | postfixed | closing | foreign =>
    rw [hl] at hoperand
    cases hoperand

theorem rank_head_of_steps {s : State} {tokens : List Token} (h : Token.AwaitOperand tokens)
    (hsteps : steps {} tokens = .ok s) : ∀ f ∈ s.stack.head?, f.rank ≤ 5 := by
  rcases List.eq_nil_or_concat tokens with rfl | ⟨front, token, rfl⟩
  · cases hsteps
    nofun
  · rw [List.concat_eq_append] at h hsteps
    obtain ⟨hproper, hoperand⟩ := h token List.getLast?_concat
    obtain ⟨s₁, hstep⟩ := steps_concat hsteps
    exact rank_head_of_step hproper hoperand hstep

theorem step_negate {s : State} (h : ∀ f ∈ s.stack.head?, f.rank ≤ 5) (position : Nat) :
    step s ⟨.operator .negate, position⟩ =
      .ok ⟨s.output, .operator .negate :: markContent s.stack⟩ := by
  have hmove : moveOut (goesBefore 5 true) s.output (markContent s.stack) =
      ⟨s.output, markContent s.stack⟩ := by
    refine moveOut_of_stop fun f hf => .inr ?_
    have hrank := head_markContent (P := (· ≤ 5)) h f hf
    rw [goesBefore_eq (by decide) (by decide)]
    simpa using hrank
  show pushOperator (.operator .negate) .negate ⟨s.output, markContent s.stack⟩ = _
  simp only [pushOperator, Symbol.rank?, Symbol.isRightAssociative, hmove]

/-- A waiting negation goes out before anything else that ends its operand. -/
theorem itemsFrom_negate {output : List Item} {stack : List Frame} {tokens : List Token}
    (h : ∀ token ∈ tokens.head?, token.lexeme.EndsOperand) :
    itemsFrom ⟨output, .operator .negate :: stack⟩ tokens =
      itemsFrom ⟨.operator .negate :: output, stack⟩ tokens := by
  cases tokens with
  | nil => rfl
  | cons token tokens =>
    have hstep : step ⟨output, .operator .negate :: stack⟩ token =
        step ⟨.operator .negate :: output, stack⟩ token := by
      obtain ⟨lexeme, position⟩ := token
      cases h _ rfl with
      | operator op => cases op <;> rfl
      | closing => rfl
      | comma => rfl
    simp only [itemsFrom, steps, hstep]

theorem steps_append_of_error {s : State} {tokens : List Token} {e : Failure}
    (h : steps s tokens = .error e) (rest : List Token) : steps s (tokens ++ rest) = .error e := by
  induction tokens generalizing s with
  | nil => cases h
  | cons token tokens ih =>
    rw [List.cons_append, steps]
    rw [steps] at h
    cases hstep : step s token with
    | error e' =>
      rw [hstep] at h
      exact h
    | ok s₁ =>
      rw [hstep] at h
      exact ih h

/-- The tokens of an operand add its items to a state that awaits one. -/
def AddsItems (tokens : List Token) (items : List Item) : Prop :=
  ∀ (s : State) (more : List Token), (∀ f ∈ s.stack.head?, f.rank ≤ 5) →
    (∀ token ∈ more.head?, token.lexeme.EndsOperand) →
    itemsFrom s (tokens ++ more) =
      itemsFrom ⟨items.reverse ++ s.output, markContent s.stack⟩ more

theorem addsItems_constant (name : Text) (position : Nat) :
    AddsItems [⟨.constant name, position⟩] [.constant name] := fun _ _ _ _ => rfl

theorem addsItems_number (w : Text) (position : Nat) :
    AddsItems [⟨.number w, position⟩] [.number w] := fun _ _ _ _ => rfl

theorem addsItems_negated (w : Text) (position position' : Nat) :
    AddsItems [⟨.operator .negate, position⟩, ⟨.number w, position'⟩]
      [.number w, .operator .negate] := by
  intro s more hrank hmore
  have hnumber : step ⟨s.output, .operator .negate :: markContent s.stack⟩
      ⟨.number w, position'⟩ =
      .ok ⟨.number w :: s.output, .operator .negate :: markContent s.stack⟩ := by
    simp [step, markContent]
  have hnegate := @itemsFrom_negate (.number w :: s.output) (markContent s.stack) more hmore
  simp only [itemsFrom, List.cons_append, List.nil_append, steps, step_negate hrank, hnumber]
  exact hnegate

end Postfix

/-! ## Operands in a text -/

/-- A text that is read as an operand with some items wherever one is awaited. -/
def IsOperand (t : Text) (items : List Item) : Prop :=
  ∀ (position : Nat) (previous : Option Lexeme) (rest : Text),
    previous.all Lexeme.beforeOperand → rest.EndsOperand →
    ∃ tokens l, l.beforeOperand = false ∧
      Token.scanFrom position previous 0 ((t ++ rest).map Token.plainSign) =
        (Token.scanFrom (position + t.length) (some l) 0 (rest.map Token.plainSign)).map
          (tokens ++ ·) ∧
      Postfix.AddsItems tokens items

theorem isWrittenAs_constant {name : Text} (h : name ∈ Token.constantNames) :
    (Lexeme.constant name).IsWrittenAs name := by
  simp only [Token.constantNames, List.mem_cons, List.mem_nil_iff, or_false] at h
  rcases h with rfl | rfl | rfl
  · exact @Lexeme.IsWrittenAs.constant 'p' ['i'] rfl (List.all_eq_true.1 rfl) (by decide)
  · exact @Lexeme.IsWrittenAs.constant 'e' [] rfl (List.all_eq_true.1 rfl) (by decide)
  · exact @Lexeme.IsWrittenAs.constant 'a' ['n', 's'] rfl (List.all_eq_true.1 rfl) (by decide)

theorem isOperand_constant {name : Text} (h : name ∈ Token.constantNames) :
    IsOperand name [.constant name] := by
  intro position previous rest hprevious hrest
  have hgoesOn : ∀ c ∈ rest.head?, (Lexeme.constant name).goesOnWith c = false := fun c hc =>
    (Token.classes_of_endsOperand hrest hc).2
  exact ⟨_, _, rfl, Token.scanFrom_word (isWrittenAs_constant h) hgoesOn rfl position,
    Postfix.addsItems_constant name position⟩

theorem isOperand_signed (s : Bool) {w : Text} (h : (Lexeme.number w).IsWrittenAs w) :
    IsOperand (signText s ++ w) (Tree.signed s w).items := by
  intro position previous rest hprevious hrest
  have hgoesOn : ∀ c ∈ rest.head?, (Lexeme.number w).goesOnWith c = false := by
    intro c hc
    simpa [Lexeme.goesOnWith, Token.isNumberPart] using (Token.classes_of_endsOperand hrest hc).1
  cases s with
  | false =>
    exact ⟨_, _, rfl, Token.scanFrom_word h hgoesOn rfl position,
      Postfix.addsItems_number w position⟩
  | true =>
    refine ⟨_, .number w, rfl, ?_, Postfix.addsItems_negated w position (position + 1)⟩
    have hsign : (Lexeme.operator .negate).IsWrittenAs ['-'] := .sign (by decide)
    have hlength : position + (signText true ++ w).length = position + 1 + w.length := by
      show position + (w.length + 1) = _
      omega
    rw [hlength, List.append_assoc]
    show Token.scanFrom position previous 0 ((['-'] ++ (w ++ rest)).map Token.plainSign) = _
    rw [Token.scanFrom_word hsign (fun _ _ => rfl) hprevious]
    show (Token.scanFrom (position + 1) (some (.operator .negate)) 0 _).map _ = _
    rw [Token.scanFrom_word h hgoesOn rfl]
    cases Token.scanFrom (position + 1 + w.length) (some (.number w)) 0
      (rest.map Token.plainSign) <;> rfl

variable {front back : Text}

theorem scan_around (hfront : front.AwaitsOperand) (hback : back.EndsOperand) :
    (∃ kind, ∀ t items, IsOperand t items →
      ∃ p, Token.scan (front ++ t ++ back) = .error p ∧ p.kind = kind) ∨
    ∃ before lexemes, Token.AwaitOperand before ∧ ∀ t items, IsOperand t items →
      ∃ tokens after, Token.scan (front ++ t ++ back) = .ok (before ++ (tokens ++ after)) ∧
        Postfix.AddsItems tokens items ∧ (∀ token ∈ after.head?, token.lexeme.EndsOperand) ∧
        after.map Token.lexeme = lexemes := by
  rcases Token.scan_append hfront with ⟨p, hp⟩ | ⟨before, hawait, hscan⟩
  · refine .inl ⟨p.kind, fun t items _ => ⟨p, ?_, rfl⟩⟩
    rw [List.append_assoc, hp]
  -- Behind every operand the rest is read as it is behind a number.
  have hrest {l : Lexeme} (hl : l.beforeOperand = false) (position : Nat) :=
    @Token.lexemes_scanFrom (back.map Token.plainSign) position 0 0 (some l) (some (.number [])) hl
  cases hlexemes : Token.lexemes
    (Token.scanFrom 0 (some (.number [])) 0 (back.map Token.plainSign)) with
  | error kind =>
    refine .inl ⟨kind, fun t items ht => ?_⟩
    obtain ⟨tokens, l, hl, htokens, -⟩ :=
      ht front.length _ back hawait.all_beforeOperand hback
    have hsame := (hrest hl (front.length + t.length)).trans hlexemes
    rw [List.append_assoc, hscan, htokens]
    cases hscanBack : Token.scanFrom (front.length + t.length) (some l) 0
        (back.map Token.plainSign) with
    | error p =>
      rw [hscanBack] at hsame
      exact ⟨p, rfl, Except.error.inj hsame⟩
    | ok after =>
      rw [hscanBack] at hsame
      cases hsame
  | ok lexemes =>
    refine .inr ⟨before, lexemes, hawait, fun t items ht => ?_⟩
    obtain ⟨tokens, l, hl, htokens, hadds⟩ :=
      ht front.length _ back hawait.all_beforeOperand hback
    have hsame := (hrest hl (front.length + t.length)).trans hlexemes
    rw [List.append_assoc, hscan, htokens]
    cases hscanBack : Token.scanFrom (front.length + t.length) (some l) 0
        (back.map Token.plainSign) with
    | error p =>
      rw [hscanBack] at hsame
      cases hsame
    | ok after =>
      rw [hscanBack] at hsame
      exact ⟨tokens, after, rfl, hadds, Token.endsOperand_of_scanFrom hback hl hscanBack,
        Except.ok.inj hsame⟩

/-- **The items around an operand** do not depend on it, and neither does the kind of a problem. -/
theorem exists_around (hfront : front.AwaitsOperand) (hback : back.EndsOperand) :
    ∃ r : Except (Option ProblemKind) (List Item × List Item), ∀ t items, IsOperand t items →
      (Item.ofText (front ++ t ++ back)).mapError Failure.kind? =
        r.map fun around => around.1 ++ items ++ around.2 := by
  rcases scan_around hfront hback with ⟨kind, herror⟩ | ⟨before, lexemes, hawait, hok⟩
  · refine ⟨.error (some kind), fun t items ht => ?_⟩
    obtain ⟨p, hp, rfl⟩ := herror t items ht
    rw [Item.ofText, hp]
    rfl
  cases hsteps : Postfix.steps {} before with
  | error e =>
    refine ⟨.error e.kind?, fun t items ht => ?_⟩
    obtain ⟨tokens, after, hscan, -⟩ := hok t items ht
    rw [Item.ofText, hscan]
    show (Postfix.ofTokens _).mapError _ = _
    rw [Postfix.ofTokens, Postfix.steps_append_of_error hsteps]
    rfl
  | ok s =>
    have hrank := Postfix.rank_head_of_steps hawait hsteps
    refine ⟨((Postfix.itemsFrom ⟨[], Postfix.markContent s.stack⟩
      (lexemes.map (⟨·, 0⟩))).mapError Failure.kind?).map fun after => (s.output.reverse, after),
      fun t items ht => ?_⟩
    obtain ⟨tokens, after, hscan, hadds, hends, hlexemes⟩ := hok t items ht
    have hitems : Item.ofText (front ++ t ++ back) =
        (Postfix.itemsFrom ⟨[], Postfix.markContent s.stack⟩ after).map
          ((items.reverse ++ s.output).reverse ++ ·) := by
      rw [Item.ofText, hscan]
      show Postfix.ofTokens _ = _
      rw [Postfix.ofTokens, Postfix.steps_append hsteps]
      show Postfix.itemsFrom s (tokens ++ after) = _
      rw [hadds s after hrank hends]
      exact Postfix.itemsFrom_above (items.reverse ++ s.output) ⟨[], _⟩ after
    have hkind := @Postfix.kind_itemsFrom ⟨[], Postfix.markContent s.stack⟩ after
      (lexemes.map (⟨·, 0⟩)) (by simp [hlexemes, Function.comp_def])
    rw [hitems, ← hkind]
    cases Postfix.itemsFrom ⟨[], Postfix.markContent s.stack⟩ after with
    | error e => rfl
    | ok list => simp [Except.map, Except.mapError]

/-! ## Plain text as an operand -/

/-- The items of a plain text: a numeral, and a negation if a minus stands before it. -/
def Item.ofPlain : Text → List Item
  | '-' :: w => [.number w, .operator .negate]
  | w => [.number w]

theorem Item.ofPlain_signed (s : Bool) {w : Text} (h : (Lexeme.number w).IsWrittenAs w) :
    Item.ofPlain (signText s ++ w) = (Tree.signed s w).items := by
  cases s with
  | true => rfl
  | false =>
    show Item.ofPlain w = [.number w]
    have hminus : ∀ rest, w ≠ '-' :: rest := by
      rintro rest rfl
      exact absurd (Token.isNumberPart_of_isWrittenAs h '-' List.mem_cons_self) (by decide)
    unfold Item.ofPlain
    split
    · exact absurd rfl (hminus _)
    · rfl

theorem exists_problem_of_error {t : Text} {e : Failure} (h : Item.ofText t = .error e) :
    ∃ p, e = .problem p := by
  cases e with
  | problem p => exact ⟨p, rfl⟩
  | fault f => exact absurd h (Item.isTold_ofText t f)

/-- **Splicing a result into an expression.** Between a text that awaits an operand and a text that
ends one, the plain text of a finite value is read like the last answer: the items are the same but
for the operand, or both texts have a problem of the same kind. That every constant gives the same
items around it tells which operand this is. -/
theorem ofText_splice (hfront : front.AwaitsOperand) (hback : back.EndsOperand) {v : Value}
    (hfinite : v.isFinite) (hlong : ¬ v.IsTooLong) : ∃ t, v.plain = .ok t ∧
      ((∃ before after,
        (∀ name ∈ Token.constantNames,
          Item.ofText (front ++ name ++ back) = .ok (before ++ [.constant name] ++ after)) ∧
        Item.ofText (front ++ t ++ back) = .ok (before ++ Item.ofPlain t ++ after)) ∨
      ∃ p p', Item.ofText (front ++ ['a', 'n', 's'] ++ back) = .error (.problem p) ∧
        Item.ofText (front ++ t ++ back) = .error (.problem p') ∧ p.kind = p'.kind) := by
  obtain ⟨s, w, hplain, hw⟩ := Value.plain_eq hfinite hlong
  refine ⟨_, hplain, ?_⟩
  rw [Item.ofPlain_signed s hw]
  obtain ⟨r, hr⟩ := exists_around hfront hback
  have hans : ['a', 'n', 's'] ∈ Token.constantNames := by decide
  have hvalue := hr _ _ (isOperand_signed s hw)
  cases r with
  | ok around =>
    refine .inl ⟨around.1, around.2, fun name hname => ?_, mapError_eq_ok_iff.1 hvalue⟩
    exact mapError_eq_ok_iff.1 (hr _ _ (isOperand_constant hname))
  | error kind =>
    obtain ⟨e, he, hkind⟩ := mapError_eq_error_iff.1 (hr _ _ (isOperand_constant hans))
    obtain ⟨e', he', hkind'⟩ := mapError_eq_error_iff.1 hvalue
    obtain ⟨p, rfl⟩ := exists_problem_of_error he
    obtain ⟨p', rfl⟩ := exists_problem_of_error he'
    exact .inr ⟨p, p', he, he', Option.some.inj (hkind.trans hkind'.symm)⟩

/-- `-2.50` in place of the last answer of `ncr(2^ans+1, 3)`. -/
theorem ofText_splice_call : ∃ before after,
    Item.ofText (Text.ofString "ncr(2^ans+1, 3)") =
      .ok (before ++ [.constant ['a', 'n', 's']] ++ after) ∧
    Item.ofText (Text.ofString "ncr(2^-2.5+1, 3)") =
      .ok (before ++ [.number ['2', '.', '5'], .operator .negate] ++ after) := by
  have hfront : Text.AwaitsOperand ['n', 'c', 'r', '(', '2', '^'] :=
    @Text.AwaitsOperand.sign ['n', 'c', 'r', '(', '2'] [] '^' _ rfl rfl nofun
  have hback : Text.EndsOperand ['+', '1', ',', ' ', '3', ')'] :=
    @Text.EndsOperand.sign [] ['1', ',', ' ', '3', ')'] '+' _ nofun rfl (.operator .plus)
  obtain ⟨t, ht, hsplice⟩ :=
    ofText_splice hfront hback (v := .decimal (.finite true 250 (-2))) rfl not_false
  have hplain : Value.plain (.decimal (.finite true 250 (-2))) = .ok ['-', '2', '.', '5'] := by
    decide +kernel
  obtain rfl : t = ['-', '2', '.', '5'] := Except.ok.inj (ht.symm.trans hplain)
  rcases hsplice with ⟨before, after, hans, hvalue⟩ | ⟨p, p', hans, -, -⟩
  · exact ⟨before, after, hans ['a', 'n', 's'] (by decide), hvalue⟩
  · have hok : (Item.ofText (Text.ofString "ncr(2^ans+1, 3)")).toBool := by decide +kernel
    have herror : Item.ofText (Text.ofString "ncr(2^ans+1, 3)") = .error (.problem p) := hans
    rw [herror] at hok
    cases hok

end DeskCalculator
