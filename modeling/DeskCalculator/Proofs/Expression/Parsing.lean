import DeskCalculator.Proofs.Expression.Lexing
import DeskCalculator.Postfix.OfTokens

/-!
# From a derivation to postfix order

`ofTokens_scan_of_derives`: a text that spells a derivation from the grammar is read as the postfix
order of its tree. The invariant is `Reads`: what a phrase has left of itself is items that are out and frames
that wait above the old stack, and moving the frames out would complete the postfix order of its
tree. The rank of the waiting frames is at least that of the phrase's category, so that the operator
that ends the phrase moves them all out; the rank of the frame below is too low to go with them.
-/

namespace DeskCalculator.Postfix

/-! ## Runs over lexemes -/

/-- Whatever their positions, tokens with the given lexemes lead from one state to another. -/
def Runs (s : State) (ls : List Lexeme) (s' : State) : Prop :=
  ∀ tokens : List Token, tokens.map Token.lexeme = ls → steps s tokens = .ok s'

theorem Runs.nil (s : State) : Runs s [] s := by
  intro tokens h
  rw [List.map_eq_nil_iff] at h
  subst h
  rfl

theorem Runs.cons {s s₁ s' : State} {l : Lexeme} {ls : List Lexeme}
    (h : ∀ position, step s ⟨l, position⟩ = .ok s₁) (hs : Runs s₁ ls s') :
    Runs s (l :: ls) s' := by
  intro tokens ht
  cases tokens with
  | nil => cases ht
  | cons token rest =>
    obtain ⟨rfl, hrest⟩ := List.cons.inj ht
    rw [steps, h token.position]
    exact hs rest hrest

theorem steps_append {s s₁ : State} {tokens rest : List Token} (h : steps s tokens = .ok s₁) :
    steps s (tokens ++ rest) = steps s₁ rest := by
  induction tokens generalizing s with
  | nil =>
    cases h
    rfl
  | cons token tokens ih =>
    rw [steps] at h
    rw [List.cons_append, steps]
    cases hstep : step s token with
    | ok s₂ =>
      rw [hstep] at h
      exact ih h
    | error e =>
      rw [hstep] at h
      cases h

theorem Runs.append {s s₁ s' : State} {ls ms : List Lexeme} (h : Runs s ls s₁)
    (hs : Runs s₁ ms s') : Runs s (ls ++ ms) s' := by
  intro tokens ht
  obtain ⟨first, second, rfl, hfirst, hsecond⟩ := List.map_eq_append_iff.1 ht
  rw [steps_append (h first hfirst)]
  exact hs second hsecond

/-! ## Frames -/

/-- How tightly a frame binds: a group binds nothing, a function more tightly than every operator. -/
def Frame.rank : Frame → Nat
  | .function _ => 7
  | .group .. => 0
  | .operator s | .postfixed s => s.rank?.getD 0

theorem Frame.isSome_item? {f : Frame} (h : 0 < f.rank) : f.item?.isSome := by
  cases f <;> simp_all [rank, item?]

theorem goesBefore_eq {rank : Nat} {right : Bool} {f : Frame} (hpos : 0 < rank) (hle : rank ≤ 6) :
    goesBefore rank right f = (decide (rank < f.rank) || (!right && rank == f.rank)) := by
  cases f with
  | function name =>
    have : rank < 7 := by omega
    simp [goesBefore, Frame.rank, this]
  | group n b =>
    have : rank ≠ 0 := by omega
    simp [goesBefore, Frame.rank, this]
  | operator s | postfixed s =>
    have : rank ≠ 0 := by omega
    cases s <;> simp [goesBefore, Frame.rank, Symbol.rank?, this] <;> rfl

theorem moveOut_append {test : Frame → Bool} {waiting stack : List Frame} {output : List Item}
    (h : ∀ f ∈ waiting, f.item?.isSome ∧ test f) :
    moveOut test output (waiting ++ stack) =
      moveOut test ((waiting.filterMap Frame.item?).reverse ++ output) stack := by
  induction waiting generalizing output with
  | nil => rfl
  | cons f waiting ih =>
    obtain ⟨hitem, htest⟩ := h f List.mem_cons_self
    obtain ⟨item, hitem⟩ := Option.isSome_iff_exists.1 hitem
    rw [List.cons_append, moveOut, hitem]
    simp only [htest, if_true, List.filterMap_cons, hitem, List.reverse_cons, List.append_assoc]
    exact ih fun g hg => h g (List.mem_cons_of_mem _ hg)

theorem moveOut_of_stop {test : Frame → Bool} {stack : List Frame} {output : List Item}
    (h : ∀ f ∈ stack.head?, f.item? = none ∨ test f = false) :
    moveOut test output stack = ⟨output, stack⟩ := by
  cases stack with
  | nil => rfl
  | cons f stack =>
    rw [moveOut]
    rcases h f rfl with h | h
    · simp [h]
    · cases f.item? <;> simp [h]

theorem markContent_append {waiting stack : List Frame} (h : ∀ f ∈ waiting, 0 < f.rank) :
    markContent (waiting ++ stack) = waiting ++ markContent stack := by
  induction waiting with
  | nil => rfl
  | cons f waiting ih =>
    have hf := h f List.mem_cons_self
    have ih := ih fun g hg => h g (List.mem_cons_of_mem _ hg)
    cases f <;> simp_all [markContent, Frame.rank]

@[simp] theorem markContent_markContent (stack : List Frame) :
    markContent (markContent stack) = markContent stack := by
  induction stack with
  | nil => rfl
  | cons f stack ih => cases f <;> simp [markContent, ih]

theorem head_markContent {P : Nat → Prop} {stack : List Frame} (h : ∀ f ∈ stack.head?, P f.rank) :
    ∀ f ∈ (markContent stack).head?, P f.rank := by
  cases stack with
  | nil => exact h
  | cons f stack =>
    have hf := h f rfl
    cases f <;> simpa [markContent, Frame.rank] using hf

/-! ## What a phrase leaves behind -/

/-- The state `s` is `⟨output, stack⟩` after something with the postfix order `items`: frames of a
rank of at least `least` wait, and moving them out completes the items. -/
def Reads (least : Nat) (items output : List Item) (stack : List Frame) (s : State) : Prop :=
  ∃ waiting, s.stack = waiting ++ stack ∧ (∀ f ∈ waiting, least ≤ f.rank) ∧
    (waiting.filterMap Frame.item?).reverse ++ s.output = items.reverse ++ output

namespace Reads

variable {least : Nat} {items output : List Item} {stack : List Frame} {s : State}

theorem done (least : Nat) (items output : List Item) (stack : List Frame) :
    Reads least items output stack ⟨items.reverse ++ output, stack⟩ :=
  ⟨[], rfl, by simp, rfl⟩

theorem mono {least' : Nat} (h : Reads least items output stack s) (hle : least' ≤ least) :
    Reads least' items output stack s := by
  obtain ⟨waiting, hstack, hrank, hitems⟩ := h
  exact ⟨waiting, hstack, fun f hf => Nat.le_trans hle (hrank f hf), hitems⟩

theorem after {before : List Item} (h : Reads least items (before.reverse ++ output) stack s) :
    Reads least (before ++ items) output stack s := by
  obtain ⟨waiting, hstack, hrank, hitems⟩ := h
  exact ⟨waiting, hstack, hrank, by simpa using hitems⟩

theorem under {f : Frame} (item : Item) (h : Reads least items output (f :: stack) s)
    (hitem : f.item? = some item) (hrank : least ≤ f.rank) :
    Reads least (items ++ [item]) output stack s := by
  obtain ⟨waiting, hstack, hwaiting, hitems⟩ := h
  refine ⟨waiting ++ [f], by simpa using hstack, ?_, by simp [hitem, hitems]⟩
  intro g hg
  rcases List.mem_append.1 hg with hg | hg
  · exact hwaiting g hg
  · rw [List.mem_singleton] at hg
    subst hg
    exact hrank

/-- Moving out whatever binds at least as tightly leaves the completed items. -/
theorem moveOut {test : Frame → Bool} (h : Reads least items output stack s) (hpos : 0 < least)
    (htest : ∀ f : Frame, least ≤ f.rank → test f)
    (hstop : ∀ f ∈ stack.head?, f.item? = none ∨ test f = false) :
    Postfix.moveOut test s.output s.stack = ⟨items.reverse ++ output, stack⟩ := by
  obtain ⟨waiting, hstack, hrank, hitems⟩ := h
  have hwaiting : ∀ f ∈ waiting, f.item?.isSome ∧ test f := fun f hf =>
    ⟨Frame.isSome_item? (Nat.lt_of_lt_of_le hpos (hrank f hf)), htest f (hrank f hf)⟩
  rw [hstack, moveOut_append hwaiting, hitems, moveOut_of_stop hstop]

theorem markContent (h : Reads least items output stack s) (hpos : 0 < least)
    (hstack : Postfix.markContent stack = stack) : Postfix.markContent s.stack = s.stack := by
  obtain ⟨waiting, hs, hrank, -⟩ := h
  rw [hs, markContent_append fun f hf => Nat.lt_of_lt_of_le hpos (hrank f hf), hstack]

theorem pushOperator {frame : Frame} {rank : Nat} (symbol : Symbol)
    (h : Reads least items output stack s) (hrank : symbol.rank? = some rank) (hpos : 0 < rank)
    (hle : rank ≤ 6) (hleast : if symbol.isRightAssociative then rank < least else rank ≤ least)
    (hstop : ∀ f ∈ stack.head?, f.rank < if symbol.isRightAssociative then rank + 1 else rank) :
    Postfix.pushOperator frame symbol s = .ok ⟨items.reverse ++ output, frame :: stack⟩ := by
  have hmove : Postfix.moveOut (goesBefore rank symbol.isRightAssociative) s.output s.stack =
      ⟨items.reverse ++ output, stack⟩ := by
    cases hright : symbol.isRightAssociative with
    | true =>
      simp only [hright, if_true] at hleast hstop
      refine h.moveOut (by omega) (fun f hf => ?_) (fun f hf => .inr ?_)
      · have : rank < f.rank := by omega
        simp [goesBefore_eq hpos hle, this]
      · have : ¬ rank < f.rank := by have := hstop f hf; omega
        simp [goesBefore_eq hpos hle, this]
    | false =>
      simp only [hright, Bool.false_eq_true, if_false] at hleast hstop
      refine h.moveOut (by omega) (fun f hf => ?_) (fun f hf => .inr ?_)
      · have : rank < f.rank ∨ rank = f.rank := by omega
        simp [goesBefore_eq hpos hle, this]
      · have : ¬ rank < f.rank ∧ rank ≠ f.rank := by have := hstop f hf; omega
        simp [goesBefore_eq hpos hle, this]
  simp only [Postfix.pushOperator, hrank, hmove]

theorem unwind {n : Nat} {b : Bool} (h : Reads least items output (.group n b :: stack) s)
    (hpos : 0 < least) : Postfix.unwind s = ⟨items.reverse ++ output, .group n b :: stack⟩ := by
  refine h.moveOut hpos (fun _ _ => rfl) fun f hf => .inl ?_
  cases hf
  rfl

end Reads

/-! ## Phrases of each category -/

/-- The least rank of the frames that a phrase of a category may leave waiting. -/
def level : Category → Nat
  | .sum => 2
  | .product => 3
  | .power => 4
  | .signed => 5
  | .marked => 6
  | .applied | .atom => 7

/-- The rank that the frame below a phrase of a category has to stay under, so that no operator of
the phrase moves it out. -/
def ceiling : Category → Nat
  | .sum => 2
  | .product => 3
  | .power => 5
  | .signed | .marked => 6
  | .applied | .atom => 7

theorem level_le_next (c : Category) : level c ≤ level c.next := by cases c <;> decide

theorem ceiling_le_next (c : Category) : ceiling c ≤ ceiling c.next := by cases c <;> decide

/-- Reading the lexemes completes the postfix order of the tree, whatever is on the stack below. The
functions named in `names` wait for the phrase as their argument; only an applied function or an atom
may be one. -/
def Phrase (c : Category) (ls : List Lexeme) (e : Tree) : Prop :=
  ∀ (names : List Text) (stack : List Frame) (output : List Item),
    (names = [] ∨ level c = 7) → (∀ f ∈ stack.head?, f.rank < ceiling c) →
    ∃ s, Runs ⟨output, names.map .function ++ stack⟩ ls s ∧
      Reads (level c) (e.items ++ names.map fun name => .call name (some 1)) output
        (markContent stack) s

theorem Phrase.alone {c : Category} {ls : List Lexeme} {e : Tree} (h : Phrase c ls e)
    (output : List Item) (stack : List Frame) (hstack : ∀ f ∈ stack.head?, f.rank < ceiling c) :
    ∃ s, Runs ⟨output, stack⟩ ls s ∧ Reads (level c) e.items output (markContent stack) s := by
  simpa using h [] stack output (.inl rfl) hstack

theorem Phrase.of_next {c : Category} {ls : List Lexeme} {e : Tree} (h : Phrase c.next ls e) :
    Phrase c ls e := by
  intro names stack output hnames hstack
  have hnext : names = [] ∨ level c.next = 7 := by
    have := level_le_next c
    rcases hnames with hnames | hnames
    · exact .inl hnames
    · right
      revert hnames
      cases c <;> decide
  obtain ⟨s, hrun, hread⟩ := h names stack output hnext fun f hf =>
    Nat.lt_of_lt_of_le (hstack f hf) (ceiling_le_next c)
  exact ⟨s, hrun, hread.mono (level_le_next c)⟩

theorem Phrase.between {c l r : Category} {ls ms : List Lexeme} {a b : Tree} (op : BinaryOperator)
    (hl : Phrase l ls a) (hr : Phrase r ms b)
    (hrank : op.symbol.rank? = some (level c)) (hc : level c ≤ 4)
    (hleft : if op.symbol.isRightAssociative then level c < level l else level c ≤ level l)
    (hceiling : ceiling c ≤ if op.symbol.isRightAssociative then level c + 1 else level c)
    (hbelow : ceiling c ≤ ceiling l) (hright : level c < ceiling r) (hle : level c ≤ level r) :
    Phrase c (ls ++ .operator op.symbol :: ms) (.binary op a b) := by
  intro names stack output hnames hstack
  obtain rfl : names = [] := hnames.resolve_right (by omega)
  have hpos : 0 < level c := by cases c <;> decide
  obtain ⟨s₁, hrun₁, hread₁⟩ := hl.alone output stack fun f hf => Nat.lt_of_lt_of_le (hstack f hf) hbelow
  have hstep : ∀ position, step s₁ ⟨.operator op.symbol, position⟩ =
      .ok ⟨a.items.reverse ++ output, .operator op.symbol :: markContent stack⟩ := by
    intro position
    have hmark := hread₁.markContent (by split at hleft <;> omega) (markContent_markContent stack)
    simp only [step, hmark]
    exact hread₁.pushOperator op.symbol hrank hpos (by omega) hleft <|
      head_markContent (P := (· < _)) fun f hf => Nat.lt_of_lt_of_le (hstack f hf) hceiling
  have hframe : (Frame.operator op.symbol).rank = level c := by simp [Frame.rank, hrank]
  obtain ⟨s₂, hrun₂, hread₂⟩ := hr.alone (a.items.reverse ++ output)
    (.operator op.symbol :: markContent stack) (by rintro f ⟨⟩; omega)
  refine ⟨s₂, hrun₁.append (.cons hstep hrun₂), ?_⟩
  rw [markContent, markContent_markContent] at hread₂
  · have := ((hread₂.mono hle).under (.operator op.symbol) rfl (by omega)).after
    simpa [Tree.items] using this
  · simp

theorem Phrase.negate {ls : List Lexeme} {e : Tree} (h : Phrase .signed ls e) :
    Phrase .signed (.operator .negate :: ls) (.negate e) := by
  intro names stack output hnames hstack
  obtain rfl : names = [] := hnames.resolve_right (by decide)
  have hstep : ∀ position, step ⟨output, stack⟩ ⟨.operator .negate, position⟩ =
      .ok ⟨output, .operator .negate :: markContent stack⟩ := by
    intro position
    have hread := Reads.done 6 [] output (markContent stack)
    exact hread.pushOperator .negate rfl (by decide) (by decide) (by decide)
      (head_markContent (P := (· < 6)) hstack)
  obtain ⟨s, hrun, hread⟩ := h.alone output (.operator .negate :: markContent stack)
    (by rintro f ⟨⟩; decide)
  refine ⟨s, .cons hstep hrun, ?_⟩
  rw [markContent, markContent_markContent] at hread
  · simpa [Tree.items] using hread.under (.operator .negate) rfl (by decide)
  · simp

theorem Phrase.postfixed {ls : List Lexeme} {e : Tree} (h : Phrase .marked ls e)
    (sign : PostfixSign) :
    Phrase .marked (ls ++ [.postfixed sign.symbol]) (.postfixed sign e) := by
  intro names stack output hnames hstack
  obtain rfl : names = [] := hnames.resolve_right (by decide)
  obtain ⟨s, hrun, hread⟩ := h.alone output stack hstack
  have hrank : sign.symbol.rank? = some 6 := by cases sign <;> rfl
  have hstep : ∀ position, step s ⟨.postfixed sign.symbol, position⟩ =
      .ok ⟨e.items.reverse ++ output, .postfixed sign.symbol :: markContent stack⟩ := by
    intro position
    have hmark := hread.markContent (by decide) (markContent_markContent stack)
    simp only [step, hmark]
    refine hread.pushOperator sign.symbol hrank (by decide) (by decide) ?_ ?_
    · cases sign <;> decide
    · refine head_markContent (P := (· < _)) fun f hf => ?_
      have hf : f.rank < 6 := hstack f hf
      cases sign <;> exact hf
  refine ⟨_, hrun.append (.cons hstep (.nil _)), ?_⟩
  have hread' := Reads.done (level .marked) e.items output (.postfixed sign.symbol :: markContent stack)
  simpa [Tree.items] using
    hread'.under (.postfixed sign.symbol) rfl (by simp [Frame.rank, hrank, level])

/-! ## Functions and atoms -/

theorem markContent_functions (names : List Text) (stack : List Frame) :
    markContent (names.map .function ++ stack) = names.map .function ++ markContent stack :=
  markContent_append fun f hf => by
    obtain ⟨name, -, rfl⟩ := List.mem_map.1 hf
    exact Nat.zero_lt_succ 6

/-- An operand that is out, with the functions that wait for it. -/
theorem Reads.functions (names : List Text) (items output : List Item) (stack : List Frame) :
    Reads 7 (items ++ names.map fun name => .call name (some 1)) output stack
      ⟨items.reverse ++ output, names.map .function ++ stack⟩ := by
  refine ⟨names.map .function, rfl, ?_, ?_⟩
  · intro f hf
    obtain ⟨name, -, rfl⟩ := List.mem_map.1 hf
    exact Nat.le_refl 7
  · have : (names.map Frame.function).filterMap Frame.item? =
        names.map fun name => Item.call name (some 1) := by
      induction names with
      | nil => rfl
      | cons name names ih => simp [Frame.item?, ih]
    simp [this]

theorem Phrase.apply {ls : List Lexeme} {e : Tree} (h : Phrase .applied ls e) (name : Text) :
    Phrase .applied (.function name :: ls) (.call name [e]) := by
  intro names stack output _ hstack
  have hstep : ∀ position, step ⟨output, names.map .function ++ stack⟩ ⟨.function name, position⟩ =
      .ok ⟨output, (name :: names).map .function ++ markContent stack⟩ := by
    intro position
    simp [step, markContent_functions]
  obtain ⟨s, hrun, hread⟩ := h (name :: names) (markContent stack) output (.inr rfl)
    (head_markContent (P := (· < _)) hstack)
  rw [markContent_markContent] at hread
  exact ⟨s, .cons hstep hrun, by simpa [Tree.items, Tree.itemsAll] using hread⟩

theorem Phrase.leaf {l : Lexeme} {e : Tree} {item : Item} (he : e.items = [item])
    (hstep : ∀ s position, step s ⟨l, position⟩ = .ok ⟨item :: s.output, markContent s.stack⟩) :
    Phrase .atom [l] e := by
  intro names stack output _ _
  refine ⟨_, .cons (hstep _) (.nil _), ?_⟩
  rw [he, markContent_functions]
  exact Reads.functions names [item] output (markContent stack)

section Closing

variable {least n : Nat} {items output : List Item} {stack : List Frame} {s : State}
  (hpos : 0 < least)
include hpos

theorem closeGroup_of_function {name : Text}
    (h : Reads least items output (.group n true :: .function name :: stack) s) :
    closeGroup s = .ok ⟨.call name (some (n + 1 : Nat)) :: (items.reverse ++ output), stack⟩ := by
  simp [closeGroup, h.unwind hpos, Frame.groupArity]

theorem closeGroup_of_rank (h : Reads least items output (.group n true :: stack) s)
    (hstack : ∀ f ∈ stack.head?, f.rank < 7) :
    closeGroup s = .ok ⟨items.reverse ++ output, stack⟩ := by
  cases stack with
  | nil => simp [closeGroup, h.unwind hpos]
  | cons f stack =>
    have hf := hstack f rfl
    cases f with
    | function name => exact absurd hf (Nat.lt_irrefl 7)
    | _ => simp [closeGroup, h.unwind hpos]

end Closing

theorem Phrase.group {ls : List Lexeme} {e : Tree} (h : Phrase .sum ls e) :
    Phrase .atom (.opening :: ls ++ [.closing]) e := by
  intro names stack output _ hstack
  have hopen : ∀ position, step ⟨output, names.map .function ++ stack⟩ ⟨.opening, position⟩ =
      .ok ⟨output, .group 0 false :: (names.map .function ++ markContent stack)⟩ := by
    intro position
    simp [step, markContent_functions]
  obtain ⟨s, hrun, hread⟩ := h.alone output
    (.group 0 false :: (names.map .function ++ markContent stack)) (by rintro f ⟨⟩; decide)
  rw [markContent] at hread
  cases names with
  | nil =>
    have hclose := closeGroup_of_rank (by decide) hread
      (head_markContent (P := (· < 7)) hstack)
    refine ⟨_, (Runs.cons hopen hrun).append (.cons (fun _ => hclose) (.nil _)), ?_⟩
    exact Reads.functions [] e.items output (markContent stack)
  | cons name names =>
    have hclose := closeGroup_of_function (by decide : 0 < 2) hread
    refine ⟨_, (Runs.cons hopen hrun).append (.cons (fun _ => hclose) (.nil _)), ?_⟩
    have := Reads.functions names (e.items ++ [.call name (some 1)]) output (markContent stack)
    simpa [level] using this

/-- The arguments of a call, from left to right; `n` commas and the items `before` have been read. -/
theorem runs_separated {arguments : List (List Lexeme × Tree)} (hne : arguments ≠ [])
    (h : ∀ a ∈ arguments, Phrase .sum a.1 a.2) (n : Nat) (b : Bool) (output : List Item)
    (stack : List Frame) :
    ∃ s, Runs ⟨output, .group n b :: stack⟩ (Lexeme.separated (arguments.map Prod.fst)) s ∧
      Reads 2 (Tree.itemsAll (arguments.map Prod.snd)) output
        (.group (n + arguments.length - 1) true :: stack) s := by
  induction arguments generalizing n b output with
  | nil => exact absurd rfl hne
  | cons a rest ih =>
    obtain ⟨s, hrun, hread⟩ := (h a List.mem_cons_self).alone output (.group n b :: stack)
      (by rintro f ⟨⟩; exact Nat.zero_lt_two)
    rw [markContent] at hread
    cases rest with
    | nil => exact ⟨s, hrun, by simpa [level] using hread⟩
    | cons a' rest =>
      have hcomma : ∀ position, step s ⟨.comma, position⟩ =
          .ok ⟨a.2.items.reverse ++ output, .group (n + 1) true :: stack⟩ := by
        intro position
        simp [step, separate, hread.unwind (by decide)]
      obtain ⟨s', hrun', hread'⟩ := ih (by simp) (fun a ha => h a (List.mem_cons_of_mem _ ha))
        (n + 1) true (a.2.items.reverse ++ output)
      refine ⟨s', hrun.append (.cons hcomma hrun'), ?_⟩
      have hlength : n + 1 + (a' :: rest).length - 1 = n + (a :: a' :: rest).length - 1 := by
        simp only [List.length_cons]
        omega
      rw [hlength] at hread'
      simpa [Tree.itemsAll] using hread'.after

theorem Phrase.call {arguments : List (List Lexeme × Tree)} (hne : arguments ≠ [])
    (h : ∀ a ∈ arguments, Phrase .sum a.1 a.2) (name : Text) :
    Phrase .atom
      (.function name :: .opening :: Lexeme.separated (arguments.map Prod.fst) ++ [.closing])
      (.call name (arguments.map Prod.snd)) := by
  intro names stack output _ _
  have hname : ∀ position, step ⟨output, names.map .function ++ stack⟩ ⟨.function name, position⟩ =
      .ok ⟨output, .function name :: (names.map .function ++ markContent stack)⟩ := by
    intro position
    simp [step, markContent_functions]
  have hopen : ∀ position, step ⟨output, .function name :: (names.map .function ++ markContent stack)⟩
      ⟨.opening, position⟩ =
      .ok ⟨output, .group 0 false :: .function name :: (names.map .function ++ markContent stack)⟩ := by
    intro position
    simp [step, markContent, markContent_functions]
  obtain ⟨s, hrun, hread⟩ := runs_separated hne h 0 false output
    (.function name :: (names.map .function ++ markContent stack))
  have hclose := closeGroup_of_function (by decide) hread
  refine ⟨_, (Runs.cons hname (Runs.cons hopen hrun)).append (.cons (fun _ => hclose) (.nil _)), ?_⟩
  have hlength : 0 + arguments.length - 1 + 1 = arguments.length := by
    have := List.length_pos_iff.2 hne
    omega
  rw [hlength]
  have := Reads.functions names
    (Tree.itemsAll (arguments.map Prod.snd) ++ [.call name (some arguments.length)]) output
    (markContent stack)
  simpa [Tree.items, level] using this

/-! ## Derivations -/

theorem phrase_of_derives {c : Category} {ls : List Lexeme} {e : Tree} (h : Derives c ls e) :
    Phrase c ls e := by
  induction h with
  | widen _ ih => exact ih.of_next
  | @leftOperator op _ _ _ _ hop _ _ ihl ihr =>
    refine ihl.between op ihr ?_ ?_ ?_ ?_ ?_ ?_ ?_
    all_goals
      revert hop
      cases op <;> decide
  | power _ _ ihl ihr => refine ihl.between .power ihr ?_ ?_ ?_ ?_ ?_ ?_ ?_ <;> decide
  | negate _ ih => exact ih.negate
  | postfixed sign _ ih => exact ih.postfixed sign
  | apply name _ ih => exact ih.apply name
  | number t => exact .leaf rfl fun _ _ => rfl
  | constant name => exact .leaf rfl fun _ _ => rfl
  | group _ ih => exact ih.group
  | call name hne _ ih => exact .call hne ih name

theorem ofTokens_of_derives {ls : List Lexeme} {e : Tree} (h : Derives .sum ls e)
    {tokens : List Token} (ht : tokens.map Token.lexeme = ls) : ofTokens tokens = .ok e.items := by
  obtain ⟨s, hrun, hread⟩ := (phrase_of_derives h).alone [] [] (by simp)
  have hunwind : unwind s = ⟨e.items.reverse ++ [], []⟩ :=
    hread.moveOut (by decide) (fun _ _ => rfl) (by simp [markContent])
  simp [ofTokens, hrun tokens ht, finish, hunwind]

end DeskCalculator.Postfix

namespace DeskCalculator

/-- **A text that spells a derivation is read as the postfix order of its tree.** -/
theorem ofTokens_scan_of_derives {ls : List Lexeme} {e : Tree} {t : Text} (hd : Derives .sum ls e)
    (hs : Spells ls t) :
    ∃ tokens, Token.scan t = .ok tokens ∧ tokens.map Token.lexeme = ls ∧
      Postfix.ofTokens tokens = .ok e.items := by
  have hplace : Lexeme.placement true ls = some false := placement_of_derives hd rfl
  obtain ⟨tokens, hscan, htokens⟩ := Token.scan_of_spells (by rw [hplace]; rfl) hs
  exact ⟨tokens, hscan, htokens, Postfix.ofTokens_of_derives hd htokens⟩

/-- `2 −-SIN 3!`: a subtraction of a negated factorial of a function without parentheses. -/
theorem ofTokens_scan_subtraction :
    ∃ tokens, Token.scan ['2', ' ', '−', '-', 'S', 'I', 'N', ' ', '3', '!'] = .ok tokens ∧
      tokens.map Token.lexeme =
        [.number ['2'], .operator .minus, .operator .negate, .function ['s', 'i', 'n'],
          .number ['3'], .postfixed .factorial] ∧
      Postfix.ofTokens tokens =
        .ok [.number ['2'], .number ['3'], .call ['s', 'i', 'n'] (some 1), .postfixed .factorial,
          .operator .negate, .operator .minus] := by
  have hsin : Derives .marked [.function ['s', 'i', 'n'], .number ['3'], .postfixed .factorial]
      (.postfixed .factorial (.call ['s', 'i', 'n'] [.number ['3']])) :=
    .postfixed .factorial (.widen (.apply _ (.widen (.number _))))
  have htwo : Derives .sum [.number ['2']] (.number ['2']) :=
    .widen (.widen (.widen (.widen (.widen (.widen (.number _))))))
  have hSIN : (Lexeme.function ['s', 'i', 'n']).IsWrittenAs ['S', 'I', 'N'] :=
    @Lexeme.IsWrittenAs.function 'S' ['I', 'N'] rfl (List.all_eq_true.1 rfl) (by decide)
  have hdigit : ∀ c, c.isDigit → (Lexeme.number [c]).IsWrittenAs [c] := by
    intro c hc
    exact .whole (by simp) (by simpa using hc)
  have hnone : ∀ c ∈ ([] : Text), Text.isAsciiBlank c := by simp
  have hspace : ∀ c ∈ [' '], Text.isAsciiBlank c := List.all_eq_true.1 rfl
  have hspells : Spells [.number ['2'], .operator .minus, .operator .negate,
      .function ['s', 'i', 'n'], .number ['3'], .postfixed .factorial]
      ['2', ' ', '−', '-', 'S', 'I', 'N', ' ', '3', '!'] :=
    @Spells.cons _ _ [] ['2'] _ hnone (hdigit _ rfl) (by rintro _ ⟨⟩; rfl) <|
    @Spells.cons _ _ [' '] ['−'] _ hspace (.sign (by decide)) (by rintro _ ⟨⟩; rfl) <|
    @Spells.cons _ _ [] ['-'] _ hnone (.sign (by decide)) (by rintro _ ⟨⟩; rfl) <|
    @Spells.cons _ _ [] ['S', 'I', 'N'] _ hnone hSIN (by rintro _ ⟨⟩; rfl) <|
    @Spells.cons _ _ [' '] ['3'] _ hspace (hdigit _ rfl) (by rintro _ ⟨⟩; rfl) <|
    @Spells.cons _ _ [] ['!'] _ hnone (.sign (by decide)) (by rintro _ ⟨⟩) <|
    @Spells.nil [] hnone
  exact ofTokens_scan_of_derives
    (@Derives.leftOperator .minus _ _ _ _ (by decide) htwo
      (.widen (.widen (.negate (.widen hsin))))) hspells

end DeskCalculator
