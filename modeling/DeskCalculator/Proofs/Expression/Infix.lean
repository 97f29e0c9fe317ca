import DeskCalculator.Evaluation
import DeskCalculator.Proofs.Expression.Alternation
import DeskCalculator.Proofs.Stack.TreeRun
import Mathlib.Algebra.Ring.Int.Defs

/-!
# Which texts have a value

The order of operators and operands is not looked at when tokens are arranged into items; a run only
counts its values. An item's `gain` is how many values it adds. Where the tokens alternate, the gain
of what has been read is one behind the end of an operand and none elsewhere, except that a comma in
parentheses that hold no arguments leaves a value too many (`Follows`). No alternating token takes
one away again, so that a run that ends with one value has read a derivation
(`Desk.derivable_iff_alternates`). Where the tokens do not alternate, a value too many and one
missing may cancel.
-/

namespace DeskCalculator

open Lexeme

/-! ## Symbols -/

theorem Symbol.eq_of_isOperator {s : Symbol} (h : s.isOperator) :
    s = .negate ∨ ∃ op : BinaryOperator, s = op.symbol := by
  cases s with
  | negate => exact .inl rfl
  | plus => exact .inr ⟨.plus, rfl⟩
  | minus => exact .inr ⟨.minus, rfl⟩
  | times => exact .inr ⟨.times, rfl⟩
  | divide => exact .inr ⟨.divide, rfl⟩
  | power => exact .inr ⟨.power, rfl⟩
  | factorial | percent | other => cases h

theorem Symbol.eq_of_isSign {s : Symbol} (h : s.isSign) : ∃ sign : PostfixSign, s = sign.symbol := by
  cases s with
  | factorial => exact ⟨.factorial, rfl⟩
  | percent => exact ⟨.percent, rfl⟩
  | _ => cases h

/-! ## Gains -/

def Item.gain : Item → Int
  | number _ | constant _ => 1
  | operator .negate | postfixed _ | unknown .. | call _ none => 0
  | operator _ => -1
  | call _ (some n) => 1 - n

theorem BinaryOperator.gain_symbol (op : BinaryOperator) : (Item.operator op.symbol).gain = -1 := by
  cases op <;> rfl

theorem Tree.gain_items (e : Tree) : (e.items.map Item.gain).sum = 1 := by
  induction e with
  | number t => rfl
  | constant name => rfl
  | negate e ih => simp [items, ih, Item.gain]
  | binary op a b iha ihb => simp [items, iha, ihb, op.gain_symbol]
  | postfixed sign e ih => simp [items, ih, Item.gain]
  | call name arguments ih =>
    have hall : ((itemsAll arguments).map Item.gain).sum = arguments.length := by
      induction arguments with
      | nil => rfl
      | cons e rest ihrest =>
        have he := ih e List.mem_cons_self
        have hrest := ihrest fun e he => ih e (List.mem_cons_of_mem _ he)
        simp only [itemsAll, List.map_append, List.sum_append, he, hrest, List.length_cons]
        omega
    simp only [items, List.map_append, List.sum_append, hall, List.map_singleton,
      List.sum_singleton, Item.gain]
    omega

namespace Postfix

/-- Whether a group that is opened above the frames holds the arguments of a call. -/
def startsCall : List Frame → Bool
  | .function _ :: _ => true
  | _ => false

/-- The open groups, the innermost first, by whether they hold the arguments of a call. -/
def calls : List Frame → List Bool
  | [] => []
  | .group .. :: rest => startsCall rest :: calls rest
  | _ :: rest => calls rest

theorem calls_cons {f : Frame} {item : Item} (h : f.item? = some item) (rest : List Frame) :
    calls (f :: rest) = calls rest := by
  cases f <;> first | rfl | cases h

/-- How many values a frame is going to add. In a call, what stands before each comma is a value
that the call takes away. -/
def Frame.gain (inCall : Bool) : Frame → Int
  | .operator s => (Item.operator s).gain
  | .postfixed _ | .function _ => 0
  | .group commas _ => if inCall then -commas else 0

theorem Frame.gain_eq {f : Frame} {item : Item} (h : f.item? = some item) (inCall : Bool) :
    f.gain inCall = item.gain := by
  cases f <;> cases h <;> rfl

def stackGain : List Frame → Int
  | [] => 0
  | f :: rest => f.gain (startsCall rest) + stackGain rest

def State.gain (s : State) : Int := (s.output.map Item.gain).sum + stackGain s.stack

/-- Something stands in every open group. -/
def Filled (stack : List Frame) : Prop := ∀ commas, Frame.group commas false ∉ stack

section Marking

variable (stack : List Frame)

@[simp] theorem startsCall_markContent : startsCall (markContent stack) = startsCall stack := by
  rcases stack with - | ⟨⟨⟩, rest⟩ <;> rfl

@[simp] theorem calls_markContent : calls (markContent stack) = calls stack := by
  induction stack with
  | nil => rfl
  | cons f stack ih => cases f <;> simp [markContent, calls, ih]

@[simp] theorem stackGain_markContent : stackGain (markContent stack) = stackGain stack := by
  induction stack with
  | nil => rfl
  | cons f stack ih => cases f <;> simp [markContent, stackGain, Frame.gain, ih]

end Marking

theorem Filled.tail {f : Frame} {stack : List Frame} (h : Filled (f :: stack)) : Filled stack :=
  fun n hn => h n (List.mem_cons_of_mem _ hn)

theorem Filled.head {n : Nat} {b : Bool} {stack : List Frame} (h : Filled (.group n b :: stack)) :
    b = true := by
  cases b with
  | true => rfl
  | false => exact absurd List.mem_cons_self (h n)

theorem Filled.cons {f : Frame} {stack : List Frame} (h : Filled stack)
    (hf : ∀ n, f ≠ .group n false) : Filled (f :: stack) := by
  intro n hn
  rcases List.mem_cons.1 hn with hn | hn
  · exact hf n hn.symm
  · exact h n hn

theorem Filled.mark {stack : List Frame} (h : Filled stack) : Filled (markContent stack) := by
  induction stack with
  | nil => exact h
  | cons f stack ih =>
    cases f with
    | group n b => exact h.tail.cons nofun
    | _ => exact (ih h.tail).cons nofun

/-! ## Moving frames out -/

section Moving

variable (test : Frame → Bool) (output : List Item) (stack : List Frame)

theorem gain_moveOut : (moveOut test output stack).gain = State.gain ⟨output, stack⟩ := by
  refine moveOut_induction (P := (State.gain · = _)) test rfl fun output f stack item hitem h => ?_
  rw [← h]
  simp only [State.gain, stackGain, Frame.gain_eq hitem, List.map_cons, List.sum_cons]
  omega

theorem calls_moveOut : calls (moveOut test output stack).stack = calls stack :=
  moveOut_induction (P := fun s => calls s.stack = _) test rfl fun _ _ _ _ hitem h =>
    (calls_cons hitem _).symm.trans h

theorem Filled.moveOut {stack : List Frame} (h : Filled stack) :
    Filled (moveOut test output stack).stack :=
  moveOut_induction (P := fun s => Filled s.stack) test h fun _ _ _ _ _ h => h.tail

end Moving

/-! ## Following the tokens -/

/-- What is known behind a lexeme. There is a value for the operand that has just ended, and one for
each comma that is no separator of arguments; without such a comma the lexemes so far are the
beginning of a derivation. -/
structure Follows (ls : List Lexeme) (last : Lexeme) (s : State) : Prop where
  marked : Filled (markContent s.stack)
  /-- Only a group that has just been opened is still empty. -/
  filled : last ≠ .opening → Filled s.stack
  /-- Where an operand is awaited, a function is on top exactly if it has just been named. -/
  top : last.isOperandEnd = false → startsCall s.stack = last.isFunction
  count : ∃ strays : Nat, s.gain = strays + last.isOperandEnd.toNat ∧
    (strays = 0 → Reading (calls s.stack) ls last)

theorem follows_nil : Follows [] .opening {} where
  marked := by simp [Filled, markContent]
  filled := by simp
  top := fun _ => rfl
  count := ⟨0, rfl, fun _ => .operand rfl rfl .nil awaits_nil⟩

namespace Follows

variable {ls : List Lexeme} {last l : Lexeme} {s s' : State}

/-- A lexeme that changes the number of values by what its place says. -/
theorem step (h : Follows ls last s) (hfilled : Filled s'.stack)
    (htop : l.isOperandEnd = false → startsCall s'.stack = l.isFunction)
    (hgain : s'.gain + last.isOperandEnd.toNat = s.gain + l.isOperandEnd.toNat)
    (hreading : Reading (calls s.stack) ls last → Reading (calls s'.stack) (ls ++ [l]) l) :
    Follows (ls ++ [l]) l s' where
  marked := hfilled.mark
  filled := fun _ => hfilled
  top := htop
  count := by
    obtain ⟨strays, hstrays, hread⟩ := h.count
    exact ⟨strays, by omega, fun hzero => hreading (hread hzero)⟩

theorem leaf (h : Follows ls last s) (hlast : last.isOperandEnd = false) (hl : Derivable .atom [l])
    (hend : l.isOperandEnd) {item : Item} (hitem : item.gain = 1) :
    Follows (ls ++ [l]) l ⟨item :: s.output, markContent s.stack⟩ := by
  refine h.step h.marked (by simp [hend]) ?_ fun hread => ?_
  · simp only [State.gain, List.map_cons, List.sum_cons, hitem, stackGain_markContent, hlast, hend,
      Bool.toNat_true, Bool.toNat_false]
    omega
  · simpa using hread.leaf hlast hl hend

theorem function (h : Follows ls last s) (hlast : last.isOperandEnd = false) (name : Text) :
    Follows (ls ++ [.function name]) (.function name)
      ⟨s.output, .function name :: markContent s.stack⟩ := by
  refine h.step (h.marked.cons nofun) (fun _ => rfl) ?_ fun hread => ?_
  · rw [hlast]
    simp [State.gain, stackGain, Frame.gain, Lexeme.isOperandEnd]
  · simpa [calls] using hread.function hlast name

theorem opening (h : Follows ls last s) (hlast : last.isOperandEnd = false) :
    Follows (ls ++ [.opening]) .opening ⟨s.output, .group 0 false :: markContent s.stack⟩ where
  marked := h.marked.cons nofun
  filled := by simp
  top := fun _ => rfl
  count := by
    obtain ⟨strays, hstrays, hread⟩ := h.count
    refine ⟨strays, ?_, fun hzero => ?_⟩
    · rw [hlast] at hstrays
      simpa [State.gain, stackGain, Frame.gain, Lexeme.isOperandEnd] using hstrays
    · simpa [calls, h.top hlast] using (hread hzero).opening hlast

/-- An operator or a sign is stacked after frames that go out before it. -/
theorem push (h : Follows ls last s) {frame : Frame} {symbol : Symbol} {item : Item}
    (hpush : pushOperator frame symbol ⟨s.output, markContent s.stack⟩ = .ok s')
    (hitem : frame.item? = some item) (htop : ∀ rest, startsCall (frame :: rest) = l.isFunction)
    (hgain : item.gain + last.isOperandEnd.toNat = l.isOperandEnd.toNat)
    (hreading : Reading (calls s.stack) ls last → Reading (calls s.stack) (ls ++ [l]) l) :
    Follows (ls ++ [l]) l s' := by
  have hgroup : ∀ n, frame ≠ .group n false := by
    rintro n rfl
    cases hitem
  unfold pushOperator at hpush
  split at hpush
  · cases hpush
  · rename_i rank _
    cases hpush
    generalize goesBefore rank symbol.isRightAssociative = test
    have hmove := gain_moveOut test s.output (markContent s.stack)
    have hcalls := calls_moveOut test s.output (markContent s.stack)
    have hfilled := h.marked.moveOut test s.output
    refine h.step (hfilled.cons hgroup) (fun _ => htop _) ?_ fun hread => ?_
    · simp only [State.gain, stackGain_markContent] at hmove
      simp only [State.gain, stackGain, Frame.gain_eq hitem]
      omega
    · rw [calls_cons hitem, hcalls, calls_markContent]
      exact hreading hread

theorem unwind (h : Follows ls last s) (hlast : last.isOperandEnd) :
    Filled (unwind s).stack ∧ (unwind s).gain = s.gain ∧ calls (unwind s).stack = calls s.stack :=
  ⟨(h.filled (by rintro rfl; cases hlast)).moveOut _ _, gain_moveOut .., calls_moveOut ..⟩

theorem closing (h : Follows ls last s) (hlast : last.isOperandEnd)
    (hclose : closeGroup s = .ok s') : Follows (ls ++ [.closing]) .closing s' := by
  obtain ⟨hfilled, hgain, hcalls⟩ := h.unwind hlast
  simp only [closeGroup] at hclose
  generalize Postfix.unwind s = unwound at *
  obtain ⟨output, stack⟩ := unwound
  split at hclose
  · rename_i n b name rest hstack
    cases hstack
    cases hclose
    obtain rfl : b = true := hfilled.head
    refine h.step hfilled.tail.tail nofun ?_ fun hread => ?_
    · rw [← hgain, hlast]
      simp only [State.gain, stackGain, Frame.gain, startsCall, Frame.groupArity, Item.gain,
        Lexeme.isOperandEnd, List.map_cons, List.sum_cons, if_true]
      omega
    · rw [← hcalls] at hread
      exact hread.closing hlast
  · rename_i n b rest hcall hstack
    cases hstack
    cases hclose
    have hstart : startsCall rest = false := by
      unfold startsCall
      split
      · exact (hcall _ _ rfl).elim
      · rfl
    refine h.step hfilled.tail nofun ?_ fun hread => ?_
    · rw [← hgain, hlast]
      simp [State.gain, stackGain, Frame.gain, hstart, Lexeme.isOperandEnd]
    · rw [← hcalls] at hread
      exact hread.closing hlast
  · cases hclose

theorem comma (h : Follows ls last s) (hlast : last.isOperandEnd) {position : Nat}
    (hseparate : separate position s = .ok s') : Follows (ls ++ [.comma]) .comma s' := by
  obtain ⟨hfilled, hgain, hcalls⟩ := h.unwind hlast
  simp only [separate] at hseparate
  generalize Postfix.unwind s = unwound at *
  obtain ⟨output, stack⟩ := unwound
  split at hseparate
  · rename_i n b rest hstack
    cases hstack
    cases hseparate
    obtain rfl : b = true := hfilled.head
    have hfilled : Filled (.group (n + 1) true :: rest) := hfilled.tail.cons nofun
    cases hstart : startsCall rest with
    | true =>
      refine h.step hfilled (fun _ => rfl) ?_ fun hread => ?_
      · rw [← hgain, hlast]
        simp only [State.gain, stackGain, Frame.gain, hstart, Lexeme.isOperandEnd, if_true,
          Bool.toNat_true, Bool.toNat_false]
        omega
      · simp only [← hcalls, calls, hstart] at hread ⊢
        exact hread.comma hlast
    -- no call takes away the value before this comma
    | false =>
      obtain ⟨strays, hstrays, -⟩ := h.count
      refine ⟨hfilled.mark, fun _ => hfilled, fun _ => rfl, strays + 1, ?_, nofun⟩
      rw [← hgain, hlast] at hstrays
      simpa [State.gain, stackGain, Frame.gain, hstart, Lexeme.isOperandEnd] using hstrays
  · cases hseparate

/-- A token that may stand behind the ones that have been followed. -/
theorem token {token : Token} (h : Follows ls last s) (hproper : token.lexeme.IsProper)
    (hmay : last.mayPrecede token.lexeme) (hstep : Postfix.step s token = .ok s') :
    Follows (ls ++ [token.lexeme]) token.lexeme s' := by
  have hlast : last.isOperandEnd = !token.lexeme.isOperandStart := isOperandEnd_of_mayPrecede hmay
  unfold Postfix.step at hstep
  cases hl : token.lexeme with
  | number t =>
    rw [hl] at hstep hlast
    cases hstep
    exact h.leaf hlast ⟨_, .number t⟩ rfl rfl
  | constant name =>
    rw [hl] at hstep hlast
    cases hstep
    exact h.leaf hlast ⟨_, .constant name⟩ rfl rfl
  | function name =>
    rw [hl] at hstep hlast
    cases hstep
    exact h.function hlast name
  | opening =>
    rw [hl] at hstep hlast
    cases hstep
    exact h.opening hlast
  | operator symbol =>
    rw [hl] at hproper hmay hstep hlast
    rcases Symbol.eq_of_isOperator hproper with rfl | ⟨op, rfl⟩
    · have hfunction : last.isFunction = false := by cases last <;> first | rfl | cases hmay
      refine h.push hstep rfl (fun _ => rfl) ?_ fun hread => hread.negate hlast hfunction
      rw [hlast]
      rfl
    · have hlast : last.isOperandEnd := by rw [hlast]; cases op <;> rfl
      refine h.push hstep rfl (fun _ => rfl) ?_ fun hread => hread.operator hlast op
      rw [op.gain_symbol, hlast]
      rfl
  | postfixed symbol =>
    rw [hl] at hproper hstep hlast
    obtain ⟨sign, rfl⟩ := Symbol.eq_of_isSign hproper
    refine h.push hstep rfl (fun _ => rfl) ?_ fun hread => hread.postfixed hlast sign
    rw [hlast]
    rfl
  | closing =>
    rw [hl] at hstep hlast
    exact h.closing hlast hstep
  | comma =>
    rw [hl] at hstep hlast
    exact h.comma hlast hstep
  | foreign =>
    rw [hl] at hproper
    exact hproper.elim

theorem steps {tokens : List Token} (h : Follows ls last s)
    (hproper : ∀ token ∈ tokens, token.lexeme.IsProper)
    (hchain : (last :: (tokens.map Token.lexeme ++ [.closing])).IsChain (·.mayPrecede ·))
    (hsteps : Postfix.steps s tokens = .ok s') :
    ∃ last', last'.isOperandEnd ∧ Follows (ls ++ tokens.map Token.lexeme) last' s' := by
  induction tokens generalizing ls last s with
  | nil =>
    cases hsteps
    exact ⟨last, isOperandEnd_of_mayPrecede (List.isChain_cons_cons.1 hchain).1, by simpa using h⟩
  | cons token tokens ih =>
    obtain ⟨hmay, hchain⟩ := List.isChain_cons_cons.1 hchain
    rw [Postfix.steps] at hsteps
    split at hsteps
    · rename_i s₁ hstep
      have hnext := h.token (hproper token List.mem_cons_self) hmay hstep
      simpa using ih hnext (fun t ht => hproper t (List.mem_cons_of_mem _ ht)) hchain hsteps
    · cases hsteps

theorem finish {items : List Item} (h : Follows ls last s) (hlast : last.isOperandEnd)
    (hfinish : Postfix.finish s = .ok items) :
    ∃ strays : Nat, (items.map Item.gain).sum = strays + 1 ∧
      (strays = 0 → Derivable .sum ls) := by
  obtain ⟨-, hgain, hcalls⟩ := h.unwind hlast
  obtain ⟨strays, hstrays, hread⟩ := h.count
  simp only [Postfix.finish] at hfinish
  split at hfinish
  · rename_i hempty
    cases hfinish
    have hstack : (Postfix.unwind s).stack = [] := by simpa using hempty
    rw [State.gain, hstack, hstrays, hlast] at hgain
    rw [hstack] at hcalls
    refine ⟨strays, by simpa [stackGain] using hgain, fun hzero => ?_⟩
    have hread := hread hzero
    rw [← hcalls] at hread
    obtain ⟨outer, inner, rfl, hopened, hinner⟩ := hread.derivable hlast
    cases hopened
    exact hinner
  · cases hfinish

end Follows

/-- Alternating tokens whose items are the postfix order of a tree are a derivation. -/
theorem derivable_of_ofTokens {tokens : List Token} {e : Tree}
    (hproper : ∀ token ∈ tokens, token.lexeme.IsProper)
    (halternates : Alternates (tokens.map Token.lexeme)) (h : ofTokens tokens = .ok e.items) :
    Derivable .sum (tokens.map Token.lexeme) := by
  unfold ofTokens at h
  split at h
  · rename_i s hsteps
    obtain ⟨last, hlast, hfollows⟩ := follows_nil.steps hproper halternates hsteps
    obtain ⟨strays, hstrays, hderivable⟩ := hfollows.finish hlast h
    rw [e.gain_items] at hstrays
    exact hderivable (by omega)
  · cases h

end Postfix

/-- **A text with a value is an infix expression exactly if its tokens alternate.** -/
theorem Desk.derivable_iff_alternates {desk : Desk} {t : Text} {v : Value}
    (h : desk.compute t = .ok v) : ∃ tokens, Token.scan t = .ok tokens ∧
      (Derivable .sum (tokens.map Token.lexeme) ↔ Alternates (tokens.map Token.lexeme)) := by
  unfold compute Item.ofText at h
  cases hscan : Token.scan t with
  | error p => simp [hscan] at h
  | ok tokens =>
    simp only [hscan] at h
    have hproper := Token.isProper_of_scan hscan
    refine ⟨tokens, rfl, fun ⟨e, he⟩ => alternates_of_derives he, fun halternates => ?_⟩
    cases hitems : Postfix.ofTokens tokens with
    | error e => simp [hitems] at h
    | ok items =>
      simp only [hitems] at h
      obtain ⟨e, rfl, -⟩ :=
        Stack.exists_tree_of_run (Postfix.isProper_of_ofTokens hproper hitems) h
      exact Postfix.derivable_of_ofTokens hproper halternates hitems

theorem Desk.derivable_difference :
    compute {} ['7', '-', '2'] = .ok (.decimal (.finite false 5 0)) ∧
      Derivable .sum [.number ['7'], .operator .minus, .number ['2']] := by
  have hvalue : compute {} ['7', '-', '2'] = .ok (.decimal (.finite false 5 0)) := by
    decide +kernel
  have hscan : Token.scan ['7', '-', '2'] =
      .ok [⟨.number ['7'], 0⟩, ⟨.operator .minus, 1⟩, ⟨.number ['2'], 2⟩] := rfl
  obtain ⟨tokens, htokens, hiff⟩ := Desk.derivable_iff_alternates hvalue
  obtain rfl := Except.ok.inj (htokens.symm.trans hscan)
  exact ⟨hvalue, hiff.2 (by decide)⟩

/-- An operator behind its operands, and an argument that stands before the call: `2 3+` is 5 and
`5 ncr(,3)` is 10, though neither is an infix expression. -/
theorem Desk.compute_not_derivable :
    (compute {} (Text.ofString "2 3+") = .ok (.decimal (.finite false 5 0)) ∧
      Token.scan (Text.ofString "2 3+") =
        .ok [⟨.number ['2'], 0⟩, ⟨.number ['3'], 2⟩, ⟨.operator .plus, 3⟩] ∧
      ¬ Derivable .sum [.number ['2'], .number ['3'], .operator .plus]) ∧
    (compute {} (Text.ofString "5 ncr(,3)") = .ok (.decimal (.finite false 10 0)) ∧
      Token.scan (Text.ofString "5 ncr(,3)") =
        .ok [⟨.number ['5'], 0⟩, ⟨.function ['n', 'c', 'r'], 2⟩, ⟨.opening, 5⟩, ⟨.comma, 6⟩,
          ⟨.number ['3'], 7⟩, ⟨.closing, 8⟩] ∧
      ¬ Derivable .sum [.number ['5'], .function ['n', 'c', 'r'], .opening, .comma, .number ['3'],
          .closing]) := by
  refine ⟨⟨by decide +kernel, rfl, ?_⟩, ⟨by decide +kernel, rfl, ?_⟩⟩
  · rintro ⟨e, he⟩
    exact absurd (alternates_of_derives he) (by decide)
  · rintro ⟨e, he⟩
    exact absurd (alternates_of_derives he) (by decide)

end DeskCalculator
