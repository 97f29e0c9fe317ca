import DeskCalculator.Proofs.Expression.Items
import DeskCalculator.Proofs.Expression.Tiling

/-!
# Where the items come from

Each item of a postfix order comes from a token. `Traced` is the state of the arrangement with the
token of every item and of every frame that waits; without them its operations are those of `State`
(`Traced.untrace_ofTokens`). No token is lost on the way, and none comes twice: what a token has to
leave is either among the items or still waits (`Traced.Keeps`). Operands go out at once and thus in
order, ahead of whatever comes later. `Traced.ofTokens_conserves` is what this says of all tokens of
a text.
-/

namespace DeskCalculator

/-! ## Tokens and their items -/

def Lexeme.isLeaf : Lexeme → Bool
  | number _ | constant _ => true
  | _ => false

/-- Whether a lexeme leaves an item: all but the parentheses and commas. -/
def Lexeme.hasItem : Lexeme → Bool
  | opening | closing | comma | foreign => false
  | _ => true

def Item.isLeaf : Item → Bool
  | number _ | constant _ => true
  | _ => false

def Item.entry (item : Item) : Text × Text := (item.kindName, item.value)

def Token.entry (token : Token) : Text × Text :=
  (Text.ofString token.lexeme.kindName, token.lexeme.text)

namespace Postfix

/-- The items and the frames of a state, each with its token. -/
structure Traced where
  output : List (Item × Token) := []
  stack : List (Frame × Token) := []

namespace Traced

def markContent : List (Frame × Token) → List (Frame × Token)
  | [] => []
  | (.group commas _, token) :: rest => (.group commas true, token) :: rest
  | frame :: rest => frame :: markContent rest

def moveOut (test : Frame → Bool) : List (Item × Token) → List (Frame × Token) → Traced
  | output, [] => ⟨output, []⟩
  | output, (frame, token) :: rest =>
    match frame.item? with
    | some item =>
      if test frame then moveOut test ((item, token) :: output) rest
      else ⟨output, (frame, token) :: rest⟩
    | none => ⟨output, (frame, token) :: rest⟩

def pushOperator (frame : Frame) (symbol : Symbol) (token : Token) (s : Traced) :
    Except Failure Traced :=
  match symbol.rank? with
  | none => .error (.fault (.unknownOperator symbol.text))
  | some rank =>
    let s := moveOut (goesBefore rank symbol.isRightAssociative) s.output s.stack
    .ok { s with stack := (frame, token) :: s.stack }

def unwind (s : Traced) : Traced := moveOut (fun _ => true) s.output s.stack

/-- Closes the innermost group. A call comes from the token of its name. -/
def closeGroup (s : Traced) : Except Failure Traced :=
  let s := unwind s
  match s.stack with
  | (.group commas hasContent, _) :: (.function name, token) :: rest =>
    .ok ⟨(.call name (some (Frame.groupArity commas hasContent)), token) :: s.output, rest⟩
  | (.group .., _) :: rest => .ok { s with stack := rest }
  | _ => .error (.problem .unopenedParen)

def separate (position : Nat) (s : Traced) : Except Failure Traced :=
  let s := unwind s
  match s.stack with
  | (.group commas hasContent, token) :: rest =>
    .ok { s with stack := (.group (commas + 1) hasContent, token) :: rest }
  | _ => .error (.problem (.misplacedComma position))

def step (s : Traced) (token : Token) : Except Failure Traced :=
  let marked := { s with stack := markContent s.stack }
  match token.lexeme with
  | .number t => .ok { marked with output := (.number t, token) :: marked.output }
  | .constant name => .ok { marked with output := (.constant name, token) :: marked.output }
  | .function name => .ok { marked with stack := (.function name, token) :: marked.stack }
  | .operator symbol => pushOperator (.operator symbol) symbol token marked
  | .postfixed symbol => pushOperator (.postfixed symbol) symbol token marked
  | .opening => .ok { marked with stack := (.group 0 false, token) :: marked.stack }
  | .closing => closeGroup s
  | .comma => separate token.position s
  | .foreign => .ok marked

def steps (s : Traced) : List Token → Except Failure Traced
  | [] => .ok s
  | token :: rest => match step s token with
    | .ok s => steps s rest
    | .error e => .error e

def finish (s : Traced) : Except Failure (List (Item × Token)) :=
  let s := unwind s
  if s.stack.isEmpty then .ok s.output.reverse else .error (.problem .unclosedParen)

def ofTokens (tokens : List Token) : Except Failure (List (Item × Token)) :=
  match steps {} tokens with
  | .ok s => finish s
  | .error e => .error e

def untrace (s : Traced) : State := ⟨s.output.map Prod.fst, s.stack.map Prod.fst⟩

/-! ## Without the tokens -/

section Untrace

theorem untrace_markContent (stack : List (Frame × Token)) :
    (markContent stack).map Prod.fst = Postfix.markContent (stack.map Prod.fst) := by
  induction stack with
  | nil => rfl
  | cons f stack ih =>
    obtain ⟨f, token⟩ := f
    cases f with
    | group => rfl
    | _ => exact congrArg (_ :: ·) ih

theorem untrace_moveOut (test : Frame → Bool) (output : List (Item × Token))
    (stack : List (Frame × Token)) : (moveOut test output stack).untrace =
      Postfix.moveOut test (output.map Prod.fst) (stack.map Prod.fst) := by
  induction stack generalizing output with
  | nil => rfl
  | cons f stack ih =>
    obtain ⟨f, token⟩ := f
    rw [moveOut, List.map_cons, Postfix.moveOut]
    cases f.item? with
    | none => rfl
    | some item =>
      cases test f with
      | true => exact ih _
      | false => rfl

theorem untrace_pushOperator (frame : Frame) (symbol : Symbol) (token : Token) (s : Traced) :
    (pushOperator frame symbol token s).map untrace =
      Postfix.pushOperator frame symbol s.untrace := by
  unfold pushOperator Postfix.pushOperator
  cases symbol.rank? with
  | none => rfl
  | some rank =>
    simp only [untrace, ← untrace_moveOut]
    rfl

theorem untrace_unwind (s : Traced) : (unwind s).untrace = Postfix.unwind s.untrace :=
  untrace_moveOut ..

theorem untrace_closeGroup (s : Traced) :
    (closeGroup s).map untrace = Postfix.closeGroup s.untrace := by
  unfold closeGroup Postfix.closeGroup
  simp only [← untrace_unwind]
  obtain ⟨output, stack⟩ := unwind s
  rcases stack with - | ⟨⟨f, token⟩, - | ⟨⟨g, other⟩, rest⟩⟩
  · rfl
  · cases f <;> rfl
  · cases f <;> first | rfl | (cases g <;> rfl)

theorem untrace_separate (position : Nat) (s : Traced) :
    (separate position s).map untrace = Postfix.separate position s.untrace := by
  unfold separate Postfix.separate
  simp only [← untrace_unwind]
  obtain ⟨output, stack⟩ := unwind s
  rcases stack with - | ⟨⟨f, token⟩, rest⟩
  · rfl
  · cases f <;> rfl

theorem untrace_step (s : Traced) (token : Token) :
    (step s token).map untrace = Postfix.step s.untrace token := by
  unfold step Postfix.step
  have hmarked : Postfix.markContent s.untrace.stack = (markContent s.stack).map Prod.fst :=
    (untrace_markContent _).symm
  simp only [hmarked]
  cases token.lexeme with
  | operator symbol => exact untrace_pushOperator ..
  | postfixed symbol => exact untrace_pushOperator ..
  | closing => exact untrace_closeGroup s
  | comma => exact untrace_separate _ s
  | _ => rfl

theorem untrace_steps (s : Traced) (tokens : List Token) :
    (steps s tokens).map untrace = Postfix.steps s.untrace tokens := by
  induction tokens generalizing s with
  | nil => rfl
  | cons token tokens ih =>
    rw [steps, Postfix.steps, ← untrace_step]
    cases step s token with
    | ok s' => exact ih s'
    | error e => rfl

theorem untrace_finish (s : Traced) :
    (finish s).map (List.map Prod.fst) = Postfix.finish s.untrace := by
  unfold finish Postfix.finish
  simp only [← untrace_unwind]
  obtain ⟨output, stack⟩ := unwind s
  cases stack with
  | nil => simp [untrace, Except.map]
  | cons => rfl

/-- **Tracing** changes nothing: without the tokens the items are those of the tokens. -/
theorem untrace_ofTokens (tokens : List Token) :
    (ofTokens tokens).map (List.map Prod.fst) = Postfix.ofTokens tokens := by
  have hsteps := untrace_steps {} tokens
  unfold ofTokens Postfix.ofTokens
  rw [show ({} : State) = untrace {} from rfl, ← hsteps]
  cases steps {} tokens with
  | ok s => exact untrace_finish s
  | error e => rfl

theorem exists_of_ofTokens {tokens : List Token} {items : List Item}
    (h : Postfix.ofTokens tokens = .ok items) :
    ∃ traced, ofTokens tokens = .ok traced ∧ traced.map Prod.fst = items := by
  rw [← untrace_ofTokens] at h
  cases htraced : ofTokens tokens with
  | ok traced =>
    rw [htraced] at h
    exact ⟨traced, rfl, Except.ok.inj h⟩
  | error e =>
    rw [htraced] at h
    cases h

end Untrace

/-! ## What a step does -/

theorem moveOut_preserves {P : Traced → Prop} (test : Frame → Bool)
    {output : List (Item × Token)} {stack : List (Frame × Token)} (h : P ⟨output, stack⟩)
    (hstep : ∀ output f token stack item, f.item? = some item →
      P ⟨output, (f, token) :: stack⟩ → P ⟨(item, token) :: output, stack⟩) :
    P (moveOut test output stack) := by
  induction stack generalizing output with
  | nil => exact h
  | cons f stack ih =>
    rw [moveOut]
    split
    · rename_i item hitem
      split
      · exact ih (hstep _ _ _ _ _ hitem h)
      · exact h
    · exact h

section Cases

variable {s s' : Traced} {token : Token}

theorem pushOperator_cases {f : Frame} {symbol : Symbol}
    (h : pushOperator f symbol token s = .ok s') : ∃ test,
    s' = ⟨(moveOut test s.output s.stack).output,
      (f, token) :: (moveOut test s.output s.stack).stack⟩ := by
  unfold pushOperator at h
  split at h
  · cases h
  · exact ⟨_, (Except.ok.inj h).symm⟩

theorem closeGroup_cases (h : closeGroup s = .ok s') :
    (∃ commas hasContent opening name function rest,
      (unwind s).stack =
        (.group commas hasContent, opening) :: (.function name, function) :: rest ∧
      s' = ⟨(.call name (some (Frame.groupArity commas hasContent)), function) ::
        (unwind s).output, rest⟩) ∨
    ∃ commas hasContent opening rest,
      (unwind s).stack = (.group commas hasContent, opening) :: rest ∧
      (∀ name function more, rest ≠ (.function name, function) :: more) ∧
      s' = ⟨(unwind s).output, rest⟩ := by
  unfold closeGroup at h
  simp only at h
  split at h
  · rename_i hstack
    exact .inl ⟨_, _, _, _, _, _, hstack, (Except.ok.inj h).symm⟩
  · rename_i hno hstack
    exact .inr ⟨_, _, _, _, hstack, hno, (Except.ok.inj h).symm⟩
  · cases h

theorem separate_cases {position : Nat} (h : separate position s = .ok s') :
    ∃ commas hasContent opening rest,
      (unwind s).stack = (.group commas hasContent, opening) :: rest ∧
      s' = ⟨(unwind s).output, (.group (commas + 1) hasContent, opening) :: rest⟩ := by
  unfold separate at h
  simp only at h
  split at h
  · rename_i hstack
    exact ⟨_, _, _, _, hstack, (Except.ok.inj h).symm⟩
  · cases h

end Cases

/-! ## The output grows -/

section Output

variable {a : Item × Token} {s s' : Traced}

theorem mem_moveOut (test : Frame → Bool) {output : List (Item × Token)}
    (stack : List (Frame × Token)) (h : a ∈ output) : a ∈ (moveOut test output stack).output :=
  moveOut_preserves (P := (a ∈ ·.output)) test h fun _ _ _ _ _ _ h => List.mem_cons_of_mem _ h

theorem mem_pushOperator {f : Frame} {symbol : Symbol} {token : Token} (h : a ∈ s.output)
    (hs : pushOperator f symbol token s = .ok s') : a ∈ s'.output := by
  obtain ⟨test, rfl⟩ := pushOperator_cases hs
  exact mem_moveOut _ _ h

theorem mem_closeGroup (h : a ∈ s.output) (hs : closeGroup s = .ok s') : a ∈ s'.output := by
  have hunwind : a ∈ (unwind s).output := mem_moveOut _ _ h
  obtain ⟨_, _, _, _, _, _, -, rfl⟩ | ⟨_, _, _, _, -, -, rfl⟩ := closeGroup_cases hs
  · exact List.mem_cons_of_mem _ hunwind
  · exact hunwind

theorem mem_separate {position : Nat} (h : a ∈ s.output) (hs : separate position s = .ok s') :
    a ∈ s'.output := by
  obtain ⟨_, _, _, _, -, rfl⟩ := separate_cases hs
  exact mem_moveOut (fun _ => true) s.stack h

theorem mem_step {token : Token} (h : a ∈ s.output) (hs : step s token = .ok s') :
    a ∈ s'.output := by
  obtain ⟨lexeme, position⟩ := token
  cases lexeme with
  | number | constant =>
    cases hs
    exact List.mem_cons_of_mem _ h
  | function | opening | foreign =>
    cases hs
    exact h
  | operator | postfixed =>
    exact mem_pushOperator (s := { s with stack := markContent s.stack }) h hs
  | closing => exact mem_closeGroup h hs
  | comma => exact mem_separate h hs

theorem mem_steps {tokens : List Token} (h : a ∈ s.output) (hs : steps s tokens = .ok s') :
    a ∈ s'.output := by
  induction tokens generalizing s with
  | nil =>
    cases hs
    exact h
  | cons token tokens ih =>
    rw [steps] at hs
    split at hs
    · rename_i hfirst
      exact ih (mem_step h hfirst) hs
    · cases hs

theorem mem_finish {traced : List (Item × Token)} (h : a ∈ s.output)
    (hs : finish s = .ok traced) : a ∈ traced := by
  unfold finish at hs
  simp only at hs
  split at hs
  · cases hs
    exact List.mem_reverse.2 (mem_moveOut _ _ h)
  · cases hs

end Output

/-! ## What is kept -/

/-- The tokens of the frames that are going to leave an item. -/
def waiting (stack : List (Frame × Token)) : List Token :=
  (stack.filter (·.1.item?.isSome)).map Prod.snd

/-- What is kept of the tokens that have been read. -/
structure Keeps (read : List Token) (s : Traced) : Prop where
  items : ∀ a ∈ s.output, a.1.entry = a.2.entry
  frames : ∀ f ∈ s.stack, ∀ item, f.1.item? = some item → item.entry = f.2.entry
  all : (s.output.map Prod.snd ++ waiting s.stack).Perm (read.filter (·.lexeme.hasItem))
  leaves : ((s.output.filter (·.1.isLeaf)).map Prod.snd).reverse = read.filter (·.lexeme.isLeaf)
  /-- Ahead of an operand there are only items of earlier tokens. -/
  ahead : s.output.Pairwise fun later earlier =>
    later.1.isLeaf → earlier.2.position < later.2.position

theorem waiting_cons {f : Frame} {item : Item} (hitem : f.item? = some item) (token : Token)
    (stack : List (Frame × Token)) : waiting ((f, token) :: stack) = token :: waiting stack := by
  simp [waiting, hitem]

theorem waiting_markContent (stack : List (Frame × Token)) :
    waiting (markContent stack) = waiting stack := by
  induction stack with
  | nil => rfl
  | cons f stack ih =>
    obtain ⟨f, token⟩ := f
    cases f with
    | group => rfl
    | _ => exact congrArg (_ :: ·) ih

theorem mem_markContent {stack : List (Frame × Token)} {f : Frame × Token} {item : Item}
    (hf : f ∈ markContent stack) (hitem : f.1.item? = some item) : f ∈ stack := by
  induction stack with
  | nil => exact hf
  | cons g stack ih =>
    obtain ⟨g, token⟩ := g
    cases g with
    | group =>
      rcases List.mem_cons.1 hf with rfl | hf
      · cases hitem
      · exact List.mem_cons_of_mem _ hf
    | _ =>
      rcases List.mem_cons.1 hf with rfl | hf
      · exact List.mem_cons_self
      · exact List.mem_cons_of_mem _ (ih hf)

theorem isLeaf_of_item {f : Frame} {item : Item} (h : f.item? = some item) :
    item.isLeaf = false := by
  cases f <;> cases h <;> rfl

namespace Keeps

variable {read : List Token} {output : List (Item × Token)} {stack : List (Frame × Token)}
  {token : Token} {s : Traced}

theorem mark (h : Keeps read s) : Keeps read { s with stack := Traced.markContent s.stack } where
  items := h.items
  frames f hf item hitem := h.frames f (mem_markContent hf hitem) item hitem
  all := by rw [waiting_markContent]; exact h.all
  leaves := h.leaves
  ahead := h.ahead

theorem group_iff {commas : Nat} {hasContent : Bool} :
    Keeps read ⟨output, (.group commas hasContent, token) :: stack⟩ ↔
      Keeps read ⟨output, stack⟩ where
  mp h := ⟨h.items, fun f hf => h.frames f (List.mem_cons_of_mem _ hf), h.all, h.leaves, h.ahead⟩
  mpr h := by
    refine ⟨h.items, fun f hf item hitem => ?_, h.all, h.leaves, h.ahead⟩
    rcases List.mem_cons.1 hf with rfl | hf
    · cases hitem
    · exact h.frames f hf item hitem

/-- A frame on top leaves an item that has the kind and the value of its token. -/
theorem out {f : Frame} {waited item : Item} (hwaited : f.item? = some waited)
    (h : Keeps read ⟨output, (f, token) :: stack⟩) (hitem : item.entry = waited.entry)
    (hleaf : item.isLeaf = false) : Keeps read ⟨(item, token) :: output, stack⟩ where
  items := List.forall_mem_cons.2
    ⟨hitem.trans (h.frames (f, token) List.mem_cons_self waited hwaited), h.items⟩
  frames g hg := h.frames g (List.mem_cons_of_mem _ hg)
  all := by
    have hall := h.all
    simp only [waiting_cons hwaited] at hall
    exact List.perm_middle.symm.trans hall
  leaves := by
    simp only [List.filter_cons, hleaf, Bool.false_eq_true, if_false]
    exact h.leaves
  ahead := .cons (fun _ _ hlate => by simp [hleaf] at hlate) h.ahead

theorem moveOut (test : Frame → Bool) (h : Keeps read ⟨output, stack⟩) :
    Keeps read (moveOut test output stack) :=
  moveOut_preserves test h fun _ _ _ _ _ hitem h => h.out hitem rfl (isLeaf_of_item hitem)

theorem unwind (h : Keeps read s) : Keeps read (unwind s) := moveOut _ h

/-! ### One more token -/

theorem skip (h : Keeps read s) (hnone : token.lexeme.hasItem = false) :
    Keeps (read ++ [token]) s := by
  have hleaf : token.lexeme.isLeaf = false := by
    revert hnone
    cases token.lexeme <;> simp [Lexeme.hasItem, Lexeme.isLeaf]
  refine ⟨h.items, h.frames, ?_, ?_, h.ahead⟩
  · simpa [List.filter_append, hnone] using h.all
  · simpa [List.filter_append, hleaf] using h.leaves

theorem push {f : Frame} {item : Item} (h : Keeps read s) (hitem : f.item? = some item)
    (hentry : item.entry = token.entry) (hsome : token.lexeme.hasItem)
    (hleaf : token.lexeme.isLeaf = false) :
    Keeps (read ++ [token]) ⟨s.output, (f, token) :: s.stack⟩ where
  items := h.items
  frames := List.forall_mem_cons.2
    ⟨fun other hother => Option.some.inj (hitem.symm.trans hother) ▸ hentry, h.frames⟩
  all := by
    simp only [waiting_cons hitem, List.filter_append, List.filter_cons, hsome, if_true,
      List.filter_nil]
    exact List.perm_middle.trans ((h.all.cons token).trans (List.perm_append_singleton _ _).symm)
  leaves := by simpa [List.filter_append, hleaf] using h.leaves
  ahead := h.ahead

theorem emit {item : Item} (h : Keeps read s) (hentry : item.entry = token.entry)
    (hlate : ∀ other ∈ read, other.position < token.position) (hleaf : item.isLeaf)
    (htoken : token.lexeme.isLeaf) :
    Keeps (read ++ [token]) ⟨(item, token) :: s.output, s.stack⟩ where
  items := List.forall_mem_cons.2 ⟨hentry, h.items⟩
  frames := h.frames
  all := by
    have hsome : token.lexeme.hasItem := by
      revert htoken
      cases token.lexeme <;> simp [Lexeme.hasItem, Lexeme.isLeaf]
    simp only [List.filter_append, List.filter_cons, hsome, if_true, List.filter_nil]
    exact (h.all.cons token).trans (List.perm_append_singleton _ _).symm
  leaves := by
    simp only [List.filter_append, List.filter_cons, hleaf, htoken, if_true, List.filter_nil,
      List.map_cons, List.reverse_cons, h.leaves]
  ahead := by
    refine .cons (fun a ha _ => ?_) h.ahead
    have hmem := h.all.subset (List.mem_append_left _ (List.mem_map_of_mem ha))
    exact hlate _ (List.mem_filter.1 hmem).1

theorem pushOperator {f : Frame} {item : Item} {symbol : Symbol} {s' : Traced} (h : Keeps read s)
    (hs : pushOperator f symbol token s = .ok s') (hitem : f.item? = some item)
    (hentry : item.entry = token.entry) (hsome : token.lexeme.hasItem)
    (hleaf : token.lexeme.isLeaf = false) : Keeps (read ++ [token]) s' := by
  obtain ⟨test, rfl⟩ := pushOperator_cases hs
  exact (h.moveOut test).push hitem hentry hsome hleaf

theorem closeGroup {s' : Traced} (h : Keeps read s) (hs : closeGroup s = .ok s') :
    Keeps read s' := by
  have hunwind : Keeps read ⟨(Traced.unwind s).output, (Traced.unwind s).stack⟩ := h.unwind
  obtain ⟨_, _, _, name, _, _, hstack, rfl⟩ | ⟨_, _, _, _, hstack, -, rfl⟩ := closeGroup_cases hs
  · have hname : (Frame.function name).item? = some (.call name (some 1)) := rfl
    rw [hstack] at hunwind
    exact (group_iff.1 hunwind).out hname rfl rfl
  · rw [hstack] at hunwind
    exact group_iff.1 hunwind

theorem separate {s' : Traced} {position : Nat} (h : Keeps read s)
    (hs : separate position s = .ok s') : Keeps read s' := by
  have hunwind : Keeps read ⟨(Traced.unwind s).output, (Traced.unwind s).stack⟩ := h.unwind
  obtain ⟨_, _, _, _, hstack, rfl⟩ := separate_cases hs
  rw [hstack] at hunwind
  exact group_iff.2 (group_iff.1 hunwind)

/-- **One token** is kept with those before it. -/
theorem step {s' : Traced} (h : Keeps read s) (hs : step s token = .ok s')
    (hlate : ∀ other ∈ read, other.position < token.position) : Keeps (read ++ [token]) s' := by
  have hmark := h.mark
  obtain ⟨lexeme, position⟩ := token
  cases lexeme with
  | number | constant =>
    cases hs
    exact hmark.emit rfl hlate rfl rfl
  | function =>
    cases hs
    exact hmark.push rfl rfl rfl rfl
  | operator symbol => exact hmark.pushOperator hs rfl rfl rfl rfl
  | postfixed symbol => exact hmark.pushOperator hs rfl rfl rfl rfl
  | opening =>
    cases hs
    exact group_iff.2 (hmark.skip rfl)
  | closing => exact (h.closeGroup hs).skip rfl
  | comma => exact (h.separate hs).skip rfl
  | foreign =>
    cases hs
    exact hmark.skip rfl

/-- **All tokens** are kept, in a list where each comes later than those before it. -/
theorem steps {tokens : List Token} {s' : Traced} (h : Keeps read s)
    (hs : steps s tokens = .ok s')
    (hlate : (read ++ tokens).Pairwise fun a b => a.position < b.position) :
    Keeps (read ++ tokens) s' := by
  induction tokens generalizing read s with
  | nil =>
    cases hs
    rwa [List.append_nil]
  | cons token tokens ih =>
    rw [Traced.steps] at hs
    split at hs
    · rename_i s₁ hs₁
      rw [List.append_cons] at hlate ⊢
      have hfirst := (List.pairwise_append.1 (List.pairwise_append.1 hlate).1).2.2
      exact ih (h.step hs₁ fun other ho => hfirst other ho token List.mem_cons_self) hs hlate
    · cases hs

end Keeps

theorem exists_keeps_of_ofTokens {tokens : List Token} {traced : List (Item × Token)}
    (hlate : tokens.Pairwise fun a b => a.position < b.position)
    (h : ofTokens tokens = .ok traced) :
    ∃ output, traced = output.reverse ∧ Keeps tokens ⟨output, []⟩ := by
  unfold ofTokens at h
  split at h
  · rename_i s hs
    have hstart : Keeps [] {} := ⟨by simp, by simp, by simp [waiting], rfl, .nil⟩
    have hkeeps : Keeps tokens s := hstart.steps hs hlate
    have hunwind := hkeeps.unwind
    unfold finish at h
    generalize unwind s = u at hunwind h
    obtain ⟨output, stack⟩ := u
    simp only at h
    split at h
    · rename_i hnil
      cases h
      obtain rfl : stack = [] := List.isEmpty_iff.1 hnil
      exact ⟨output, rfl, hunwind⟩
    · cases h
  · cases h

theorem Keeps.nodup {tokens : List Token} {output : List (Item × Token)}
    (h : Keeps tokens ⟨output, []⟩) (hlate : tokens.Pairwise fun a b => a.position < b.position) :
    (output.reverse.map Prod.snd).Nodup := by
  have htokens : tokens.Nodup := hlate.imp fun hlt heq => absurd (heq ▸ hlt) (Nat.lt_irrefl _)
  have hall : (output.map Prod.snd).Perm (tokens.filter (·.lexeme.hasItem)) := by
    simpa [waiting] using h.all
  rw [List.map_reverse]
  exact ((List.reverse_perm _).trans hall).nodup_iff.2 (htokens.filter _)

theorem Keeps.mem_ahead {tokens : List Token} {output before after : List (Item × Token)}
    {a : Item × Token} {token : Token} (h : Keeps tokens ⟨output, []⟩)
    (hsplit : output.reverse = before ++ a :: after) (ht : token ∈ tokens)
    (hleaf : token.lexeme.isLeaf) (hlate : token.position < a.2.position) :
    token ∈ before.map Prod.snd := by
  have hmem : token ∈ tokens.filter (·.lexeme.isLeaf) := List.mem_filter.2 ⟨ht, hleaf⟩
  rw [← h.leaves, List.mem_reverse] at hmem
  obtain ⟨b, hb, rfl⟩ := List.mem_map.1 hmem
  obtain ⟨hb, hbleaf⟩ := List.mem_filter.1 hb
  have hahead := List.pairwise_reverse.2 h.ahead
  rw [hsplit, List.pairwise_append, List.pairwise_cons] at hahead
  rw [← List.mem_reverse, hsplit, List.mem_append, List.mem_cons] at hb
  rcases hb with hb | rfl | hb
  · exact List.mem_map_of_mem hb
  · exact absurd hlate (Nat.lt_irrefl _)
  · exact absurd (hahead.2.1.1 b hb hbleaf) (Nat.lt_asymm hlate)

/-- **Nothing is lost, nothing comes twice.** By kind and value, the items of a text's tokens are
its numbers, constants, operators, signs and functions; numbers and constants are in order. Each
item comes from one of these tokens and stands behind all operands that precede it in the text. -/
theorem ofTokens_conserves {t : Text} {tokens : List Token} {items : List Item}
    (hscan : Token.scan t = .ok tokens) (hitems : Postfix.ofTokens tokens = .ok items) :
    (items.map Item.entry).Perm ((tokens.filter (·.lexeme.hasItem)).map Token.entry) ∧
    (items.filter Item.isLeaf).map Item.entry =
      (tokens.filter (·.lexeme.isLeaf)).map Token.entry ∧
    ∃ traced, ofTokens tokens = .ok traced ∧ traced.map Prod.fst = items ∧
      (∀ a ∈ traced, a.1.entry = a.2.entry) ∧
      (traced.map Prod.snd).Perm (tokens.filter (·.lexeme.hasItem)) ∧
      (traced.filter (·.1.isLeaf)).map Prod.snd = tokens.filter (·.lexeme.isLeaf) ∧
      ∀ before a after, traced = before ++ a :: after →
        ∀ first rest, tokens = first ++ a.2 :: rest →
          ∀ token ∈ first, token.lexeme.isLeaf → token ∈ before.map Prod.snd := by
  have hlate := (Token.tiles_of_scanFrom (Nat.zero_le _) hscan).covers.increasing
  obtain ⟨traced, htraced, rfl⟩ := exists_of_ofTokens hitems
  obtain ⟨output, rfl, hkeeps⟩ := exists_keeps_of_ofTokens hlate htraced
  have hentry : ∀ a ∈ output.reverse, a.1.entry = a.2.entry := fun a ha =>
    hkeeps.items a (List.mem_reverse.1 ha)
  have hall : (output.reverse.map Prod.snd).Perm (tokens.filter (·.lexeme.hasItem)) := by
    rw [List.map_reverse]
    exact (List.reverse_perm _).trans (by simpa [waiting] using hkeeps.all)
  have hleaves : (output.reverse.filter (·.1.isLeaf)).map Prod.snd =
      tokens.filter (·.lexeme.isLeaf) := by
    rw [List.filter_reverse, List.map_reverse]
    exact hkeeps.leaves
  have hentries {l : List (Item × Token)} (h : ∀ a ∈ l, a.1.entry = a.2.entry) :
      (l.map Prod.fst).map Item.entry = (l.map Prod.snd).map Token.entry := by
    rw [List.map_map, List.map_map]
    exact List.map_congr_left h
  refine ⟨?_, ?_, _, htraced, rfl, hentry, hall, hleaves, ?_⟩
  · rw [hentries hentry]
    exact hall.map _
  · rw [List.filter_map, ← hleaves]
    exact hentries fun a ha => hentry a (List.mem_filter.1 ha).1
  · intro before a after hsplit first rest htokens token ht hleaf
    rw [htokens, List.pairwise_append] at hlate
    refine hkeeps.mem_ahead hsplit ?_ hleaf (hlate.2.2 token ht _ List.mem_cons_self)
    exact htokens ▸ List.mem_append_left _ ht

/-- In `2*(3+4)!` the operators change their places, the numbers do not. -/
theorem ofTokens_conserves_product :
    let tokens : List Token := [⟨.number ['2'], 0⟩, ⟨.operator .times, 1⟩, ⟨.opening, 2⟩,
      ⟨.number ['3'], 3⟩, ⟨.operator .plus, 4⟩, ⟨.number ['4'], 5⟩, ⟨.closing, 6⟩,
      ⟨.postfixed .factorial, 7⟩]
    let items : List Item := [.number ['2'], .number ['3'], .number ['4'], .operator .plus,
      .postfixed .factorial, .operator .times]
    Token.scan ['2', '*', '(', '3', '+', '4', ')', '!'] = .ok tokens ∧
      Postfix.ofTokens tokens = .ok items ∧
      (items.map Item.entry).Perm ((tokens.filter (·.lexeme.hasItem)).map Token.entry) ∧
      (items.filter Item.isLeaf).map Item.entry =
        (tokens.filter (·.lexeme.isLeaf)).map Token.entry := by
  intro tokens items
  have hscan : Token.scan ['2', '*', '(', '3', '+', '4', ')', '!'] = .ok tokens := rfl
  have hitems : Postfix.ofTokens tokens = .ok items := rfl
  obtain ⟨hperm, hleaves, -⟩ := ofTokens_conserves hscan hitems
  exact ⟨hscan, hitems, hperm, hleaves⟩

end Traced

end Postfix

end DeskCalculator
