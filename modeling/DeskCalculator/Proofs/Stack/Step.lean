import DeskCalculator.Proofs.Value.Yields
import DeskCalculator.Stack.Run

/-!
# One item

An item takes its operands off the stack and puts one value in their place (`feed_eq_ok_iff`). What
the value is, is the relation `Gives`, with one rule for each kind of item and the operands listed
as they are stacked, the topmost first. An item that fails leaves a part of the stack as it was
(`suffix_of_feed_error`).
-/

namespace DeskCalculator.Stack

open Operations

/-- The value that an item makes of its operands. -/
inductive Gives (desk : Desk) : Item → List Value → Value → Prop
  | number (t : Text) : Gives desk (.number t) [] (number desk t)
  | constant (name : Text) : Gives desk (.constant name) [] (constant desk name)
  | negate (a : Value) : Gives desk (.operator .negate) [a] (negate desk a)
  | operate {symbol : Symbol} {a b v : Value} (hsymbol : symbol ≠ .negate)
      (h : operate desk symbol a b = .ok v) : Gives desk (.operator symbol) [b, a] v
  | factorial {a v : Value} (h : factorial desk a = .ok v) :
      Gives desk (.postfixed .factorial) [a] v
  | percent {sign : Symbol} {a v : Value} (hsign : sign ≠ .factorial)
      (h : percent desk a = .ok v) : Gives desk (.postfixed sign) [a] v
  | callOne {name : Text} {f : Function} {a v : Value} (hname : Function.ofName? name = some f)
      (harity : f.arity = 1) (h : applyOne desk f a = .ok v) :
      Gives desk (.call name (some 1)) [a] v
  | callTwo {name : Text} {f : Function} {a b v : Value} (hname : Function.ofName? name = some f)
      (harity : f.arity = 2) (h : applyTwo desk f a b = .ok v) :
      Gives desk (.call name (some 2)) [b, a] v

variable {desk : Desk} {item : Item} {stack stack' : List Value}

theorem push_eq_ok_iff {rest : List Value} {r : Except Failure Value} :
    push rest r = .ok stack' ↔ ∃ v, r = .ok v ∧ stack' = v :: rest := by
  cases r <;> simp [push, eq_comm]

/-! ## What an item takes and gives -/

theorem exists_gives_of_unary {f : Value → Except Failure Value}
    (hf : ∀ {a v}, f a = .ok v → Gives desk item [a] v) (h : unary f stack = .ok stack') :
    ∃ operands rest v, stack = operands ++ rest ∧ stack' = v :: rest ∧ Gives desk item operands v := by
  cases stack with
  | nil => cases h
  | cons a rest =>
    obtain ⟨v, hv, rfl⟩ := push_eq_ok_iff.1 h
    exact ⟨[a], rest, v, rfl, rfl, hf hv⟩

theorem exists_gives_of_binary {f : Value → Value → Except Failure Value}
    (hf : ∀ {a b v}, f a b = .ok v → Gives desk item [b, a] v) (h : binary f stack = .ok stack') :
    ∃ operands rest v, stack = operands ++ rest ∧ stack' = v :: rest ∧ Gives desk item operands v := by
  match stack with
  | [] | [_] => cases h
  | b :: a :: rest =>
    obtain ⟨v, hv, rfl⟩ := push_eq_ok_iff.1 h
    exact ⟨[b, a], rest, v, rfl, rfl, hf hv⟩

theorem arity_eq_one_or_two (f : Function) : f.arity = 1 ∨ f.arity = 2 := by
  cases f <;> simp [Function.arity]

theorem exists_gives_of_call {name : Text} {arity : Option Int}
    (h : call desk name arity stack = .ok stack') :
    ∃ operands rest v, stack = operands ++ rest ∧ stack' = v :: rest ∧
      Gives desk (.call name arity) operands v := by
  unfold call at h
  split at h
  · cases h
  · cases h
  · rename_i f n hname
    split at h
    · cases h
    · rename_i hlength
      simp only at h
      split at h
      · cases h
      · rename_i harity
        obtain rfl : n = f.arity := by simpa using harity
        obtain ⟨v, hv, rfl⟩ := push_eq_ok_iff.1 h
        refine ⟨stack.take f.arity, stack.drop f.arity, v, ?_, rfl, ?_⟩
        · exact (List.take_append_drop _ _).symm
        rcases arity_eq_one_or_two f with hone | htwo
        · match stack with
          | [] => simp [hone] at hlength
          | a :: rest =>
            simp only [hone] at hv ⊢
            exact .callOne hname hone (named_eq_ok_iff.1 hv)
        · match stack with
          | [] | [_] => simp [htwo] at hlength
          | b :: a :: rest =>
            simp only [htwo] at hv ⊢
            exact .callTwo hname htwo (named_eq_ok_iff.1 hv)

/-- **One item** takes its operands off the stack and puts in their place the value that it makes of
them. -/
theorem feed_eq_ok_iff :
    feed desk item stack = .ok stack' ↔ ∃ operands rest v,
      stack = operands ++ rest ∧ stack' = v :: rest ∧ Gives desk item operands v := by
  constructor
  · intro h
    cases item with
    | number t =>
      cases h
      exact ⟨[], stack, _, rfl, rfl, .number t⟩
    | constant name =>
      cases h
      exact ⟨[], stack, _, rfl, rfl, .constant name⟩
    | operator symbol =>
      by_cases hsymbol : symbol = .negate
      · subst hsymbol
        refine exists_gives_of_unary (fun hv => ?_) h
        cases hv
        exact .negate _
      · have hfeed : feed desk (.operator symbol) stack = binary (operate desk symbol) stack := by
          cases symbol <;> first | rfl | exact absurd rfl hsymbol
        exact exists_gives_of_binary (.operate hsymbol) (hfeed ▸ h)
    | postfixed sign =>
      by_cases hsign : sign = .factorial
      · subst hsign
        exact exists_gives_of_unary .factorial h
      · have hfeed : feed desk (.postfixed sign) stack = unary (percent desk) stack := by
          cases sign <;> first | rfl | exact absurd rfl hsign
        exact exists_gives_of_unary (.percent hsign) (hfeed ▸ h)
    | call name arity => exact exists_gives_of_call h
    | unknown kind value arity => cases h
  · rintro ⟨operands, rest, v, rfl, rfl, hgives⟩
    cases hgives with
    | number t => rfl
    | constant name => rfl
    | negate a => rfl
    | @operate symbol a b v hsymbol h =>
      have hpush : push rest (operate desk symbol a b) = .ok (v :: rest) := by rw [h, push]
      cases symbol <;> first | exact hpush | exact absurd rfl hsymbol
    | factorial h => exact push_eq_ok_iff.2 ⟨v, h, rfl⟩
    | @percent sign a v hsign h =>
      have hpush : push rest (percent desk a) = .ok (v :: rest) := by rw [h, push]
      cases sign <;> first | exact hpush | exact absurd rfl hsign
    | @callOne name f a v hname harity h =>
      have henough : ¬ (([a] ++ rest).length : Int) < (1 : Int) := by
        rw [List.length_append, List.length_singleton]
        omega
      simp only [feed, call, hname, if_neg henough]
      simp [harity, apply, named, h, push]
    | @callTwo name f a b v hname harity h =>
      have henough : ¬ (([b, a] ++ rest).length : Int) < (2 : Int) := by
        rw [List.length_append, List.length_cons, List.length_singleton]
        omega
      simp only [feed, call, hname, if_neg henough]
      simp [harity, apply, named, h, push]

/-! ## What a failure leaves -/

theorem eq_of_push_error {rest below : List Value} {r : Except Failure Value} {e : Failure}
    (h : push rest r = .error (e, below)) : below = rest := by
  cases r with
  | ok v => cases h
  | error e => cases h; rfl

theorem suffix_of_unary_error {f : Value → Except Failure Value} {e : Failure} {below : List Value}
    (h : unary f stack = .error (e, below)) : below <:+ stack := by
  cases stack with
  | nil =>
    cases h
    exact List.suffix_refl _
  | cons a rest =>
    rw [eq_of_push_error h]
    exact List.suffix_cons _ _

theorem suffix_of_binary_error {f : Value → Value → Except Failure Value} {e : Failure}
    {below : List Value} (h : binary f stack = .error (e, below)) : below <:+ stack := by
  match stack with
  | [] | [_] =>
    cases h
    exact List.suffix_refl _
  | b :: a :: rest =>
    rw [eq_of_push_error h]
    exact ⟨[b, a], rfl⟩

theorem suffix_of_call_error {name : Text} {arity : Option Int} {e : Failure} {below : List Value}
    (h : call desk name arity stack = .error (e, below)) : below <:+ stack := by
  unfold call at h
  split at h
  · cases h
    exact List.suffix_refl _
  · cases h
    exact List.suffix_refl _
  · split at h
    · cases h
      exact List.suffix_refl _
    · simp only at h
      split at h
      · cases h
        exact List.drop_suffix _ _
      · rw [eq_of_push_error h]
        exact List.drop_suffix _ _

/-- **An item that fails** leaves what was below its operands, or the whole stack. -/
theorem suffix_of_feed_error {e : Failure} {below : List Value}
    (h : feed desk item stack = .error (e, below)) : below <:+ stack := by
  unfold feed at h
  split at h
  · cases h
  · cases h
  · exact suffix_of_unary_error h
  · exact suffix_of_binary_error h
  · exact suffix_of_unary_error h
  · exact suffix_of_unary_error h
  · exact suffix_of_call_error h
  · cases h
    exact List.suffix_refl _

/-! ## Lists of items -/

section Lists

variable {items : List Item} {P : Value → Prop}

/-- A property of all values that the items can give is a property of the whole stack. -/
theorem forall_mem_of_feedAll
    (hgives : ∀ item ∈ items, ∀ operands v, Gives desk item operands v → P v)
    (hstack : ∀ v ∈ stack, P v) (h : feedAll desk items stack = .ok stack') : ∀ v ∈ stack', P v := by
  induction items generalizing stack with
  | nil =>
    cases h
    exact hstack
  | cons item items ih =>
    rw [feedAll] at h
    split at h
    · cases h
    · rename_i hfeed
      split at h
      · cases h
      · obtain ⟨operands, rest, v, rfl, rfl, hv⟩ := feed_eq_ok_iff.1 hfeed
        refine ih (fun i hi => hgives i (List.mem_cons_of_mem _ hi)) ?_ h
        exact List.forall_mem_cons.2 ⟨hgives item List.mem_cons_self _ v hv,
          fun w hw => hstack w (List.mem_append_right _ hw)⟩

/-- The same for every step of a trace, which goes on after a failure. -/
theorem forall_mem_of_trace
    (hgives : ∀ item ∈ items, ∀ operands v, Gives desk item operands v → P v)
    (hstack : ∀ v ∈ stack, P v) : ∀ step ∈ trace desk items stack, ∀ v ∈ step.stack, P v := by
  induction items generalizing stack with
  | nil => simp [trace]
  | cons item items ih =>
    have hrest := fun i hi => hgives i (List.mem_cons_of_mem item hi)
    rw [trace]
    split
    · rename_i hfeed
      obtain ⟨operands, rest, v, rfl, rfl, hv⟩ := feed_eq_ok_iff.1 hfeed
      have hnext : ∀ w ∈ v :: rest, P w := List.forall_mem_cons.2
        ⟨hgives item List.mem_cons_self _ v hv, fun w hw => hstack w (List.mem_append_right _ hw)⟩
      exact List.forall_mem_cons.2 ⟨hnext, ih hrest hnext⟩
    · rename_i hfeed
      have hnext := fun w hw => hstack w ((suffix_of_feed_error hfeed).mem hw)
      exact List.forall_mem_cons.2 ⟨hnext, ih hrest hnext⟩

theorem run_eq_ok_iff {v : Value} :
    run desk items = .ok v ↔ feedAll desk items [] = .ok [v] ∧ v.isFinite := by
  have hresult (stack : List Value) : result stack = .ok v ↔ stack = [v] ∧ v.isFinite := by
    match stack with
    | [] => simp [result]
    | _ :: _ :: _ => simp [result]
    | [.exact n] =>
      simp only [result, Except.ok.injEq, List.cons.injEq, and_true]
      exact ⟨fun h => ⟨h, h ▸ rfl⟩, And.left⟩
    | [.decimal d] =>
      simp only [result, List.cons.injEq, and_true]
      by_cases hd : d.isFinite
      · rw [if_pos hd, Except.ok.injEq]
        exact ⟨fun h => ⟨h, h ▸ hd⟩, And.left⟩
      · rw [if_neg hd]
        simp only [reduceCtorEq, false_iff]
        rintro ⟨rfl, hfinite⟩
        exact hd hfinite
  unfold run
  cases feedAll desk items [] with
  | error e => simp
  | ok stack => simp [hresult]

end Lists

end DeskCalculator.Stack
