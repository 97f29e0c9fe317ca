import DeskCalculator.Evaluation
import DeskCalculator.Proofs.Double.Overflow
import DeskCalculator.Proofs.Expression.Items
import DeskCalculator.Proofs.Value.Text
import DeskCalculator.Proofs.Value.Yields

/-!
# Which faults an evaluation lets through

An evaluation tells a problem where an operation fails, but the problem names the operand of a
postfix sign, and an integer of more than 4300 digits has no text. `evaluate_eq_error_iff` says that
this fault is the only one that is let through, and when it is.
-/

namespace DeskCalculator

/-! ## Operations -/

/-- A result that is a value or a problem, and no fault. -/
def IsTold {α : Type} (r : Except Failure α) : Prop := ∀ fault, r ≠ .error (.fault fault)

section IsTold

variable {α : Type}

theorem isTold_ok (v : α) : IsTold (.ok v) := nofun

theorem isTold_problem (p : Problem) : IsTold (.error (.problem p) : Except Failure α) := nofun

theorem IsTold.ite {c : Prop} [Decidable c] {r r' : Except Failure α} (h : IsTold r)
    (h' : IsTold r') : IsTold (if c then r else r') := by
  split
  · exact h
  · exact h'

end IsTold

namespace Operations

variable (desk : Desk)

theorem isTold_named {t : Text} (result : Except ArithmeticFault Value) :
    IsTold (named (.ok t) result) := by
  intro fault h
  cases result <;> cases h

theorem isTold_decimalOperate {symbol : Symbol} (hs : symbol.isOperator) (hneg : symbol ≠ .negate)
    (a b : Decimal) : IsTold (decimalOperate desk symbol a b) := by
  cases symbol with
  | plus | minus | times => exact isTold_ok _
  | divide => exact .ite (isTold_problem _) (isTold_ok _)
  | power => exact isTold_named _
  | negate => exact absurd rfl hneg
  | _ => cases hs

theorem isTold_exactOperate {symbol : Symbol} (hs : symbol.isOperator) (hneg : symbol ≠ .negate)
    (m n : Int) : IsTold (exactOperate symbol m n) := by
  cases symbol with
  | plus | minus | times | power => exact isTold_ok _
  | divide => exact .ite (isTold_problem _) (isTold_named _)
  | negate => exact absurd rfl hneg
  | _ => cases hs

theorem isTold_operate {symbol : Symbol} (hs : symbol.isOperator) (hneg : symbol ≠ .negate)
    (a b : Value) : IsTold (operate desk symbol a b) := by
  unfold operate
  split
  · exact .ite (isTold_decimalOperate desk hs hneg _ _) (isTold_exactOperate hs hneg _ _)
  · exact isTold_decimalOperate desk hs hneg _ _

theorem isTold_apply (f : Function) (arguments : List Value) :
    IsTold (apply desk f arguments) := by
  unfold apply
  split
  · exact isTold_named _
  · exact isTold_named _
  · exact isTold_problem _

/-! ## Postfix signs -/

theorem signed_of_isTooLong {v : Value} (h : v.IsTooLong) (sign : Char) :
    signed v sign = .error .integerTooLong := by
  rw [signed, Value.text_of_isTooLong h]
  rfl

/-- A result that fails for a long operand, told under the name of the operand with a sign. -/
theorem named_signed_fault_iff {v : Value} {sign : Char} {result : Except ArithmeticFault Value}
    {fault : Fault} (h : v.IsTooLong → ∃ cause, result = .error cause) :
    named (signed v sign) result = .error (.fault fault) ↔
      fault = .integerTooLong ∧ v.IsTooLong := by
  by_cases hlong : v.IsTooLong
  · obtain ⟨cause, rfl⟩ := h hlong
    rw [signed_of_isTooLong hlong]
    simp [named, hlong, eq_comm]
  · obtain ⟨t, ht⟩ := Value.exists_text hlong
    have htold := isTold_named (t := t ++ [sign]) result fault
    have hsigned : signed v sign = .ok (t ++ [sign]) := by
      rw [signed, ht]
      rfl
    rw [hsigned]
    simp [htold, hlong]

theorem le_natAbs_of_isTooLong {n : Int} (h : (Value.exact n).IsTooLong) :
    100 * 2 ^ 1024 ≤ n.natAbs := by
  have hconst : 100 * 2 ^ 1024 ≤ 10 ^ Text.Integer.maxDigits := by decide +kernel
  exact Nat.le_trans hconst h

theorem factorial_of_isTooLong {n : Int} (h : (Value.exact n).IsTooLong) :
    ∃ cause, Counting.factorial n = .error cause := by
  have hle := le_natAbs_of_isTooLong h
  unfold Counting.factorial
  split
  · exact ⟨_, rfl⟩
  · rw [if_pos]
    · exact ⟨_, rfl⟩
    · have hmax : Counting.maxFactorialOperand < ((100 * 2 ^ 1024 : Nat) : Int) := by decide +kernel
      omega

theorem hundredth_of_isTooLong {n : Int} (h : (Value.exact n).IsTooLong) :
    hundredth n = .error .quotientTooLarge := by
  have hle := le_natAbs_of_isTooLong h
  unfold hundredth
  rw [Double.ofRatio_eq_infinite _ (by decide) (Nat.le_refl 1024) hle]
  rfl

theorem factorial_fault_iff {v : Value} {fault : Fault} :
    factorial desk v = .error (.fault fault) ↔ fault = .integerTooLong ∧ v.IsTooLong := by
  cases v with
  | exact n =>
    unfold factorial
    simp only
    split
    · rw [← Value.text_eq_error_iff]
      cases (Value.exact n).text with
      | ok t => simp
      | error f => simp
    · refine named_signed_fault_iff fun hlong => ?_
      obtain ⟨cause, hcause⟩ := factorial_of_isTooLong hlong
      exact ⟨cause, by rw [hcause]; rfl⟩
  | decimal d => exact named_signed_fault_iff False.elim

theorem percent_fault_iff {v : Value} {fault : Fault} :
    percent desk v = .error (.fault fault) ↔ fault = .integerTooLong ∧ v.IsTooLong := by
  cases v with
  | exact n =>
    refine named_signed_fault_iff fun hlong => ?_
    exact ⟨.quotientTooLarge, by rw [hundredth_of_isTooLong hlong]; rfl⟩
  | decimal d => simp [percent, Value.IsTooLong]

end Operations

/-! ## Runs -/

namespace Stack

open Operations

variable {desk : Desk} {fault : Fault}

theorem push_fault_iff {below below' : List Value} {r : Except Failure Value} :
    push below r = .error (.fault fault, below') ↔ r = .error (.fault fault) ∧ below = below' := by
  cases r <;> simp [push]

theorem unary_fault_iff {f : Value → Except Failure Value} {stack below : List Value} :
    unary f stack = .error (.fault fault, below) ↔
      ∃ v, stack = v :: below ∧ f v = .error (.fault fault) := by
  cases stack with
  | nil => simp [unary, missing]
  | cons v rest =>
    simp only [unary, push_fault_iff, List.cons.injEq]
    exact ⟨fun h => ⟨v, ⟨rfl, h.2⟩, h.1⟩, fun ⟨_, ⟨hv, hrest⟩, hf⟩ => ⟨hv ▸ hf, hrest⟩⟩

theorem not_fault_of_binary {f : Value → Value → Except Failure Value} {stack below : List Value}
    (hf : ∀ a b, IsTold (f a b)) : binary f stack ≠ .error (.fault fault, below) := by
  intro h
  match stack with
  | [] | [_] => cases h
  | b :: a :: rest => exact hf a b fault (push_fault_iff.1 h).1

theorem not_fault_of_call {name : Text} {n : Int} {stack below : List Value} :
    call desk name (some n) stack ≠ .error (.fault fault, below) := by
  intro h
  unfold call at h
  split at h
  · cases h
  · rename_i harity
    cases harity
  · rename_i f m _ harity
    split at h
    · cases h
    · simp only at h
      split at h
      · cases h
      · exact isTold_apply desk f _ fault (push_fault_iff.1 h).1

/-- An item fails with a fault when it is a postfix sign and its operand is too long. -/
theorem feed_fault_iff {item : Item} {stack below : List Value} (hitem : item.IsProper) :
    feed desk item stack = .error (.fault fault, below) ↔
      fault = .integerTooLong ∧
        ∃ sign v, item = .postfixed sign ∧ stack = v :: below ∧ v.IsTooLong := by
  cases item with
  | number t => simp [feed]
  | constant name => simp [feed]
  | operator s =>
    have htold : feed desk (.operator s) stack ≠ .error (.fault fault, below) := by
      by_cases hneg : s = .negate
      · subst hneg
        intro h
        obtain ⟨v, _, hv⟩ := unary_fault_iff.1 h
        cases hv
      · have hfeed : feed desk (.operator s) stack = binary (operate desk s) stack := by
          cases s <;> first | rfl | exact absurd rfl hneg
        rw [hfeed]
        exact not_fault_of_binary (isTold_operate desk hitem hneg)
    simp [htold]
  | postfixed s =>
    have hsign : feed desk (.postfixed s) stack = .error (.fault fault, below) ↔
        ∃ v, stack = v :: below ∧ fault = .integerTooLong ∧ v.IsTooLong := by
      cases s with
      | factorial => simp only [feed, unary_fault_iff, factorial_fault_iff]
      | percent => simp only [feed, unary_fault_iff, percent_fault_iff]
      | _ => cases hitem
    rw [hsign]
    exact ⟨fun ⟨v, hstack, hf, hv⟩ => ⟨hf, s, v, rfl, hstack, hv⟩,
      fun ⟨hf, _, v, _, hstack, hv⟩ => ⟨v, hstack, hf, hv⟩⟩
  | call name arity =>
    obtain ⟨n, rfl⟩ := hitem
    simp [feed, not_fault_of_call]
  | unknown _ _ => exact hitem.elim

theorem feedAll_append (as bs : List Item) (stack : List Value) :
    feedAll desk (as ++ bs) stack = feedAll desk as stack >>= feedAll desk bs := by
  induction as generalizing stack with
  | nil => rfl
  | cons a as ih =>
    rw [List.cons_append, feedAll, feedAll]
    cases feed desk a stack with
    | error e => rfl
    | ok stack =>
      simp only
      split
      · rfl
      · exact ih stack

theorem exists_of_feedAll_fault {list : List Item} {stack : List Value}
    (hlist : ∀ item ∈ list, item.IsProper) (h : feedAll desk list stack = .error (.fault fault)) :
    fault = .integerTooLong ∧ ∃ before sign after v below,
      list = before ++ .postfixed sign :: after ∧ feedAll desk before stack = .ok (v :: below) ∧
        v.IsTooLong := by
  induction list generalizing stack with
  | nil => cases h
  | cons item rest ih =>
    rw [feedAll] at h
    cases hfeed : feed desk item stack with
    | error e =>
      obtain ⟨e, below⟩ := e
      rw [hfeed] at h
      cases h
      obtain ⟨hf, sign, v, rfl, rfl, hv⟩ :=
        (feed_fault_iff (hlist item List.mem_cons_self)).1 hfeed
      exact ⟨hf, [], sign, rest, v, below, rfl, rfl, hv⟩
    | ok mid =>
      simp only [hfeed] at h
      split at h
      · cases h
      · rename_i hsize
        obtain ⟨hf, before, sign, after, v, below, rfl, hbefore, hv⟩ :=
          ih (fun i hi => hlist i (List.mem_cons_of_mem _ hi)) h
        refine ⟨hf, item :: before, sign, after, v, below, rfl, ?_, hv⟩
        rw [feedAll, hfeed]
        exact (if_neg hsize).trans hbefore

/-- A run fails with a fault when it comes to a postfix sign whose operand is too long. -/
theorem feedAll_fault_iff {list : List Item} {stack : List Value}
    (hlist : ∀ item ∈ list, item.IsProper) :
    feedAll desk list stack = .error (.fault fault) ↔
      fault = .integerTooLong ∧ ∃ before sign after v below,
        list = before ++ .postfixed sign :: after ∧ feedAll desk before stack = .ok (v :: below) ∧
          v.IsTooLong := by
  refine ⟨exists_of_feedAll_fault hlist, ?_⟩
  rintro ⟨hf, before, sign, after, v, below, rfl, hbefore, hv⟩
  have hsign : (Item.postfixed sign).IsProper := hlist _ (by simp)
  have hfeed : feed desk (.postfixed sign) (v :: below) = .error (.fault fault, below) :=
    (feed_fault_iff hsign).2 ⟨hf, sign, v, rfl, rfl, hv⟩
  rw [feedAll_append, hbefore]
  show feedAll desk (.postfixed sign :: after) (v :: below) = _
  rw [feedAll, hfeed]

theorem isTold_result (stack : List Value) : IsTold (result stack) := by
  unfold result
  split
  · exact isTold_ok _
  · exact .ite (isTold_ok _) (isTold_problem _)
  · exact isTold_problem _

theorem run_fault_iff {list : List Item} :
    run desk list = .error (.fault fault) ↔ feedAll desk list [] = .error (.fault fault) := by
  unfold run
  cases feedAll desk list [] with
  | error e => simp
  | ok stack => simp [isTold_result stack fault]

end Stack

/-! ## Texts -/

theorem Item.isProper_of_ofText {t : Text} {list : List Item} (h : ofText t = .ok list) :
    ∀ item ∈ list, item.IsProper := by
  unfold ofText at h
  split at h
  · rename_i tokens htokens
    exact Postfix.isProper_of_ofTokens (Token.isProper_of_scan htokens) h
  · cases h

theorem Item.isTold_ofText (t : Text) : IsTold (ofText t) := by
  intro fault h
  unfold ofText at h
  split at h
  · rename_i tokens htokens
    obtain ⟨p, hp⟩ := Postfix.problem_of_ofTokens (Token.isProper_of_scan htokens) h
    cases hp
  · cases h

namespace Desk

variable {desk : Desk} {t : Text} {fault : Fault}

/-- A postfix sign of a text is applied to an exact integer of more than 4300 digits. -/
def SignsLongInteger (desk : Desk) (t : Text) : Prop :=
  ∃ before sign after v below, Item.ofText t = .ok (before ++ .postfixed sign :: after) ∧
    Stack.feedAll desk before [] = .ok (v :: below) ∧ v.IsTooLong

theorem compute_fault_iff :
    desk.compute t = .error (.fault fault) ↔
      fault = .integerTooLong ∧ desk.SignsLongInteger t := by
  unfold compute SignsLongInteger
  cases htext : Item.ofText t with
  | error e =>
    have htold : Except.error e ≠ Except.error (.fault fault) := htext ▸ Item.isTold_ofText t fault
    simpa using htold
  | ok list =>
    simp only [Except.ok.injEq]
    rw [Stack.run_fault_iff, Stack.feedAll_fault_iff (Item.isProper_of_ofText htext)]

theorem evaluate_error_iff_compute :
    desk.evaluate t = .error fault ↔ desk.compute t = .error (.fault fault) := by
  unfold evaluate
  split <;> simp_all

/-- **An evaluation has an outcome**, a value or a problem, unless a postfix sign is applied to an
exact integer of more than 4300 digits. Then the one fault is that this integer has no text. -/
theorem evaluate_eq_error_iff :
    desk.evaluate t = .error fault ↔ fault = .integerTooLong ∧ desk.SignsLongInteger t := by
  rw [evaluate_error_iff_compute, compute_fault_iff]

/-- The factorial of 2000 is exact in exact mode. It has 5736 digits, and a hundredth of it is no
double. -/
theorem evaluate_percent_of_factorial :
    evaluate { exact := .truth true } "2000!%".toList = .error .integerTooLong := by
  obtain ⟨fault, hfault⟩ := exists_error_of_toBool (by decide +kernel :
    (evaluate { exact := .truth true } "2000!%".toList).toBool = false)
  rw [hfault, (compute_fault_iff.1 (evaluate_error_iff_compute.1 hfault)).1]

end Desk

end DeskCalculator
