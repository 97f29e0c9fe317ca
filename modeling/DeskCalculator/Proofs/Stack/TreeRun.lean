import DeskCalculator.Proofs.Expression.Decoding
import DeskCalculator.Proofs.Expression.Items
import DeskCalculator.Proofs.Stack.TreeValue

/-!
# A run is the evaluation of a tree

Where the calls of a tree fit their functions, running its postfix order gives its value if the
stack may be as high as this takes (`run_items`) and overflows if not (`run_items_overflow`). A run
that gives a value has read the postfix order of such a tree (`exists_tree_of_run`).
-/

namespace DeskCalculator.Stack

open DeskCalculator.Tree

variable {desk : Desk}

/-! ## From the tree to the run -/

theorem feedAll_push {item : Item} {stack below : List Value} {r : Except Failure Value}
    (h : feed desk item stack = push below r) (hlength : below.length < maxEntries)
    (rest : List Item) :
    feedAll desk (item :: rest) stack = r >>= fun v => feedAll desk rest (v :: below) := by
  rw [feedAll, h]
  cases r with
  | error e => rfl
  | ok v =>
    have : ¬ maxEntries < (v :: below).length := by
      rw [List.length_cons]
      omega
    simp only [push, this, if_false]
    rfl

theorem call_eq_push {name : Text} {f : Function} {arguments stack : List Value}
    (hf : Function.ofName? name = some f) (hlength : arguments.length = f.arity) :
    call desk name (some (arguments.length : Int)) (arguments.reverse ++ stack) =
      push stack (Operations.apply desk f arguments) := by
  have hsize : ¬ ((arguments.reverse ++ stack).length : Int) < arguments.length := by
    simp only [List.length_append, List.length_reverse]
    omega
  have hdrop : (arguments.reverse ++ stack).drop arguments.length = stack :=
    List.drop_left' (by simp)
  have htake : (arguments.reverse ++ stack).take arguments.length = arguments.reverse :=
    List.take_left' (by simp)
  simp only [call, hf]
  rw [if_neg hsize, if_neg (by simp [hlength]), Int.toNat_natCast, hdrop, htake,
    List.reverse_reverse]

/-- Running the postfix order of a tree pushes its value, if the stack may get high enough. -/
def Pushes (desk : Desk) (e : Tree) : Prop :=
  ∀ (rest : List Item) (stack : List Value), stack.length + e.height desk ≤ maxEntries →
    feedAll desk (e.items ++ rest) stack = e.value desk >>= fun v => feedAll desk rest (v :: stack)

theorem feedAll_itemsAll {es : List Tree} (h : ∀ e ∈ es, Pushes desk e) (rest : List Item)
    (stack : List Value) (hheight : stack.length + heightAll desk es ≤ maxEntries) :
    feedAll desk (itemsAll es ++ rest) stack =
      values desk es >>= fun vs => feedAll desk rest (vs.reverse ++ stack) := by
  induction es generalizing stack with
  | nil => rfl
  | cons e es ih =>
    have he := h e List.mem_cons_self
    rw [heightAll] at hheight
    rw [itemsAll, List.append_assoc, values]
    cases hv : e.value desk with
    | error f =>
      rw [hv] at hheight
      rw [he _ _ hheight, hv]
      rfl
    | ok v =>
      simp only [hv] at hheight
      rw [he _ _ (by omega), hv]
      show feedAll desk (itemsAll es ++ rest) (v :: stack) = _
      rw [ih (fun e he => h e (List.mem_cons_of_mem _ he)) (v :: stack)
        (by simp only [List.length_cons]; omega)]
      cases values desk es with
      | error f => rfl
      | ok vs =>
        show feedAll desk rest (vs.reverse ++ v :: stack) =
          feedAll desk rest ((v :: vs).reverse ++ stack)
        simp

/-- **Running the postfix order of a tree pushes its value**, whatever is on the stack below and
whatever comes after. -/
theorem feedAll_items (e : Tree) (happ : e.IsApplicable) : Pushes desk e := by
  induction e with
  | number t =>
    intro rest stack hheight
    exact feedAll_push rfl hheight rest
  | constant name =>
    intro rest stack hheight
    exact feedAll_push rfl hheight rest
  | negate e ih =>
    intro rest stack hheight
    have := e.height_pos desk
    rw [height] at hheight
    rw [items, List.append_assoc, ih happ _ _ hheight, value, bind_assoc]
    congr 1
    funext v
    exact feedAll_push rfl (by omega) rest
  | binary op a b iha ihb =>
    intro rest stack hheight
    have := a.height_pos desk
    rw [height] at hheight
    rw [items, List.append_assoc, List.append_assoc, value, bind_assoc]
    cases hx : a.value desk with
    | error f =>
      rw [hx] at hheight
      rw [iha happ.1 _ _ hheight, hx]
      rfl
    | ok x =>
      simp only [hx] at hheight
      rw [iha happ.1 _ _ (by omega), hx]
      show feedAll desk (b.items ++ _) (x :: stack) = (b.value desk >>= _) >>= _
      rw [ihb happ.2 _ _ (by simp only [List.length_cons]; omega), bind_assoc]
      congr 1
      funext y
      refine feedAll_push ?_ (by omega) rest
      cases op <;> rfl
  | postfixed sign e ih =>
    intro rest stack hheight
    have := e.height_pos desk
    rw [height] at hheight
    rw [items, List.append_assoc, ih happ _ _ hheight, value, bind_assoc]
    congr 1
    funext v
    refine feedAll_push ?_ (by omega) rest
    cases sign <;> rfl
  | call name arguments ih =>
    intro rest stack hheight
    obtain ⟨⟨f, hf, hlength⟩, happ⟩ := happ
    rw [height] at hheight
    rw [items, List.append_assoc, value, bind_assoc,
      feedAll_itemsAll (fun e he => ih e he (allApplicable_iff.1 happ e he)) _ _ (by omega)]
    cases hvs : values desk arguments with
    | error failure => rfl
    | ok vs =>
      have hvs := length_of_values hvs
      simp only [hf]
      refine feedAll_push ?_ (by omega) rest
      show call desk name (some (arguments.length : Int)) (vs.reverse ++ stack) = _
      rw [← hvs]
      exact call_eq_push hf (by omega)

theorem run_items {e : Tree} (happ : e.IsApplicable) (hheight : e.height desk ≤ maxEntries) :
    run desk e.items = e.result desk := by
  have h : feedAll desk (e.items ++ []) [] = _ :=
    feedAll_items e happ [] [] (by simpa using hheight)
  rw [List.append_nil] at h
  rw [run, h, Tree.result]
  cases e.value desk with
  | error f => rfl
  | ok v => cases v <;> rfl

/-! ## Trees that are too high -/

/-- Running the postfix order of a tree overflows, if the stack gets too high. -/
def Overflows (desk : Desk) (e : Tree) : Prop :=
  ∀ (rest : List Item) (stack : List Value), stack.length ≤ maxEntries →
    maxEntries < stack.length + e.height desk →
    feedAll desk (e.items ++ rest) stack = .error (.problem (.stackOverflow (maxEntries + 1)))

theorem feedAll_overflow {item : Item} {v : Value} {stack : List Value}
    (h : feed desk item stack = .ok (v :: stack)) (hstack : stack.length = maxEntries)
    (rest : List Item) :
    feedAll desk (item :: rest) stack = .error (.problem (.stackOverflow (maxEntries + 1))) := by
  have hover : maxEntries < (v :: stack).length := by
    rw [List.length_cons]
    omega
  rw [feedAll, h]
  show (if maxEntries < (v :: stack).length then _ else _) = _
  rw [if_pos hover, List.length_cons, hstack]

theorem feedAll_itemsAll_overflow {es : List Tree} (hp : ∀ e ∈ es, Pushes desk e)
    (ho : ∀ e ∈ es, Overflows desk e) (rest : List Item) (stack : List Value)
    (hstack : stack.length ≤ maxEntries) (hheight : maxEntries < stack.length + heightAll desk es) :
    feedAll desk (itemsAll es ++ rest) stack =
      .error (.problem (.stackOverflow (maxEntries + 1))) := by
  induction es generalizing stack with
  | nil =>
    rw [heightAll] at hheight
    omega
  | cons e es ih =>
    have he := ho e List.mem_cons_self
    rw [heightAll] at hheight
    rw [itemsAll, List.append_assoc]
    by_cases hfits : stack.length + e.height desk ≤ maxEntries
    · have := e.height_pos desk
      cases hv : e.value desk with
      | error f =>
        simp only [hv] at hheight
        omega
      | ok v =>
        simp only [hv] at hheight
        rw [hp e List.mem_cons_self _ _ hfits, hv]
        exact ih (fun e he => hp e (List.mem_cons_of_mem _ he))
          (fun e he => ho e (List.mem_cons_of_mem _ he)) (v :: stack)
          (by simp only [List.length_cons]; omega) (by simp only [List.length_cons]; omega)
    · exact he _ _ hstack (by omega)

theorem feedAll_items_overflow (e : Tree) (happ : e.IsApplicable) : Overflows desk e := by
  induction e with
  | number t =>
    intro rest stack hstack hheight
    rw [height] at hheight
    exact feedAll_overflow rfl (by omega) rest
  | constant name =>
    intro rest stack hstack hheight
    rw [height] at hheight
    exact feedAll_overflow rfl (by omega) rest
  | negate e ih =>
    intro rest stack hstack hheight
    rw [items, List.append_assoc]
    exact ih happ _ _ hstack hheight
  | binary op a b iha ihb =>
    intro rest stack hstack hheight
    rw [height] at hheight
    rw [items, List.append_assoc, List.append_assoc]
    by_cases hfits : stack.length + a.height desk ≤ maxEntries
    · have := a.height_pos desk
      cases hx : a.value desk with
      | error f =>
        simp only [hx] at hheight
        omega
      | ok x =>
        simp only [hx] at hheight
        rw [feedAll_items a happ.1 _ _ hfits, hx]
        exact ihb happ.2 _ _ (by simp only [List.length_cons]; omega)
          (by simp only [List.length_cons]; omega)
    · exact iha happ.1 _ _ hstack (by omega)
  | postfixed sign e ih =>
    intro rest stack hstack hheight
    rw [items, List.append_assoc]
    exact ih happ _ _ hstack hheight
  | call name arguments ih =>
    intro rest stack hstack hheight
    obtain ⟨⟨f, hf, hlength⟩, happ⟩ := happ
    have happ := allApplicable_iff.1 happ
    -- a function takes an argument, whose value is at least as high as that of the call
    have hheight : maxEntries < stack.length + heightAll desk arguments := by
      cases arguments with
      | nil => cases f <;> cases hlength
      | cons e es =>
        have := e.height_pos desk
        have hpos : 0 < heightAll desk (e :: es) := by
          rw [heightAll]
          split <;> omega
        rw [height] at hheight
        omega
    rw [items, List.append_assoc]
    exact feedAll_itemsAll_overflow (fun e he => feedAll_items e (happ e he))
      (fun e he => ih e he (happ e he)) _ _ hstack hheight

theorem run_items_overflow {e : Tree} (happ : e.IsApplicable)
    (hheight : maxEntries < e.height desk) :
    run desk e.items = .error (.problem (.stackOverflow (maxEntries + 1))) := by
  have h : feedAll desk (e.items ++ []) [] = _ :=
    feedAll_items_overflow e happ [] [] (Nat.zero_le _) (by simpa using hheight)
  rw [List.append_nil] at h
  rw [run, h]

/-! ## From the run to the tree -/

theorem length_of_push {below stack : List Value} {r : Except Failure Value}
    (h : push below r = .ok stack) : stack.length = below.length + 1 := by
  cases r with
  | error e => cases h
  | ok v =>
    cases h
    rfl

theorem length_of_unary {f : Value → Except Failure Value} {stack stack' : List Value}
    (h : unary f stack = .ok stack') :
    ∃ v below, stack = v :: below ∧ stack'.length = below.length + 1 := by
  cases stack with
  | nil => cases h
  | cons v below => exact ⟨v, below, rfl, length_of_push h⟩

theorem length_of_binary {f : Value → Value → Except Failure Value} {stack stack' : List Value}
    (h : binary f stack = .ok stack') :
    ∃ b a below, stack = b :: a :: below ∧ stack'.length = below.length + 1 := by
  match stack with
  | [] | [_] => cases h
  | b :: a :: below => exact ⟨b, a, below, rfl, length_of_push h⟩

theorem length_of_call {name : Text} {n : Nat} {stack stack' : List Value}
    (h : call desk name (some (n : Int)) stack = .ok stack') :
    (∃ f, Function.ofName? name = some f ∧ n = f.arity) ∧ n ≤ stack.length ∧
      stack'.length = (stack.drop n).length + 1 := by
  cases hf : Function.ofName? name with
  | none => simp [call, hf] at h
  | some f =>
    simp only [call, hf] at h
    split at h
    · cases h
    · split at h
      · cases h
      · exact ⟨⟨f, rfl, by omega⟩, by omega, length_of_push h⟩

/-- What an item does to the stack, `Item.build` does to the trees of its values. -/
theorem build_of_feed {item : Item} {es : List Tree} {stack stack' : List Value}
    (hitem : item.IsProper) (happ : AllApplicable es) (hlength : es.length = stack.length)
    (h : feed desk item stack = .ok stack') :
    ∃ es', item.build es = some es' ∧ AllApplicable es' ∧ es'.length = stack'.length := by
  cases item with
  | number t =>
    cases h
    exact ⟨_, rfl, ⟨trivial, happ⟩, by simp [hlength]⟩
  | constant name =>
    cases h
    exact ⟨_, rfl, ⟨trivial, happ⟩, by simp [hlength]⟩
  | operator s =>
    cases s with
    | negate =>
      obtain ⟨v, below, rfl, hstack'⟩ := length_of_unary h
      obtain ⟨e, es, rfl⟩ := List.exists_cons_of_length_eq_add_one hlength
      exact ⟨_, rfl, happ, by simpa [hstack'] using hlength⟩
    | plus | minus | times | divide | power =>
      obtain ⟨y, x, below, rfl, hstack'⟩ := length_of_binary h
      obtain ⟨b, es, rfl⟩ := List.exists_cons_of_length_eq_add_one hlength
      obtain ⟨a, es, rfl⟩ := List.exists_cons_of_length_eq_add_one (Nat.succ.inj hlength)
      exact ⟨_, rfl, ⟨⟨happ.2.1, happ.1⟩, happ.2.2⟩, by simpa [hstack'] using hlength⟩
    | _ => cases hitem
  | postfixed s =>
    cases s with
    | factorial | percent =>
      obtain ⟨v, below, rfl, hstack'⟩ := length_of_unary h
      obtain ⟨e, es, rfl⟩ := List.exists_cons_of_length_eq_add_one hlength
      exact ⟨_, rfl, happ, by simpa [hstack'] using hlength⟩
    | _ => cases hitem
  | call name arity =>
    obtain ⟨n, rfl⟩ := hitem
    obtain ⟨⟨f, hf, hn⟩, hle, hstack'⟩ := length_of_call h
    have hle : n ≤ es.length := by omega
    have happ := allApplicable_iff.1 happ
    refine ⟨.call name (es.take n).reverse :: es.drop n, if_pos hle, ?_, ?_⟩
    · refine ⟨⟨⟨f, hf, by simpa [hle] using hn⟩, allApplicable_iff.2 fun e he => ?_⟩,
        allApplicable_iff.2 fun e he => happ e (List.mem_of_mem_drop he)⟩
      exact happ e (List.mem_of_mem_take (List.mem_reverse.1 he))
    · simp [hstack', hlength]
  | unknown _ _ => exact hitem.elim

theorem build_of_feedAll {list : List Item} {es : List Tree} {stack stack' : List Value}
    (hlist : ∀ item ∈ list, item.IsProper) (happ : AllApplicable es)
    (hlength : es.length = stack.length) (h : feedAll desk list stack = .ok stack') :
    ∃ es', buildAll list es = some es' ∧ AllApplicable es' ∧ es'.length = stack'.length := by
  induction list generalizing es stack with
  | nil =>
    cases h
    exact ⟨es, rfl, happ, hlength⟩
  | cons item rest ih =>
    rw [feedAll] at h
    cases hfeed : feed desk item stack with
    | error e =>
      rw [hfeed] at h
      cases h
    | ok mid =>
      simp only [hfeed] at h
      split at h
      · cases h
      · obtain ⟨esMid, hbuild, happ, hlength⟩ :=
          build_of_feed (hlist item List.mem_cons_self) happ hlength hfeed
        obtain ⟨es', hrest, hes'⟩ :=
          ih (fun item hi => hlist item (List.mem_cons_of_mem _ hi)) happ hlength h
        exact ⟨es', by rw [buildAll, hbuild]; exact hrest, hes'⟩

theorem exists_eq_singleton_of_result {stack : List Value} {v : Value}
    (h : result stack = .ok v) : ∃ x, stack = [x] := by
  match stack with
  | [x] => exact ⟨x, rfl⟩
  | [] | _ :: _ :: _ => simp [result] at h

/-- **A run that gives a value has read the postfix order of a tree** whose calls fit their
functions. -/
theorem exists_tree_of_run {list : List Item} {v : Value} (hlist : ∀ item ∈ list, item.IsProper)
    (h : run desk list = .ok v) : ∃ e : Tree, e.items = list ∧ e.IsApplicable := by
  unfold run at h
  split at h
  · rename_i stack hfeed
    obtain ⟨x, rfl⟩ := exists_eq_singleton_of_result h
    have hnil : AllApplicable [] := trivial
    obtain ⟨es, hbuild, happ, hlength⟩ := build_of_feedAll hlist hnil rfl hfeed
    obtain ⟨e, rfl⟩ := List.length_eq_one_iff.1 hlength
    have hitems := itemsAll_buildAll hbuild
    exact ⟨e, by simpa [itemsAll] using hitems, happ.1⟩
  · cases h

/-! ## Runs of what is read from tokens -/

/-- **A run is the evaluation of a tree.** The items that are read from tokens are the postfix order
of one tree at most. If there is such a tree, its calls fit their functions and its evaluation fits
the stack, then the run gives its value or the failure that comes first; else the run fails. -/
theorem run_ofTokens (desk : Desk) {tokens : List Token} {list : List Item}
    (ht : ∀ token ∈ tokens, token.lexeme.IsProper) (hlist : Postfix.ofTokens tokens = .ok list) :
    (∀ e e' : Tree, e.items = list → e'.items = list → e = e') ∧
    (∀ e : Tree, e.items = list → e.IsApplicable → e.height desk ≤ maxEntries →
      run desk list = e.result desk) ∧
    ((¬ ∃ e : Tree, e.items = list ∧ e.IsApplicable ∧ e.height desk ≤ maxEntries) →
      ∃ failure, run desk list = .error failure) := by
  have hproper := Postfix.isProper_of_ofTokens ht hlist
  refine ⟨fun e e' he he' => items_injective (he.trans he'.symm), ?_, fun hnone => ?_⟩
  · rintro e rfl happ hheight
    exact run_items happ hheight
  · cases hrun : run desk list with
    | error failure => exact ⟨failure, rfl⟩
    | ok v =>
      obtain ⟨e, rfl, happ⟩ := exists_tree_of_run hproper hrun
      have hheight : maxEntries < e.height desk :=
        Nat.lt_of_not_le fun hle => hnone ⟨e, rfl, happ, hle⟩
      rw [run_items_overflow happ hheight] at hrun
      cases hrun

theorem run_ofTokens_difference :
    run {} [.number ['7'], .number ['2'], .operator .minus] =
      (Tree.binary .minus (.number ['7']) (.number ['2'])).result {} := by
  have hproper : ∀ token ∈ [⟨.number ['7'], 0⟩, ⟨.operator .minus, 1⟩, ⟨.number ['2'], 2⟩],
      Lexeme.IsProper (Token.lexeme token) := by
    simp [Lexeme.IsProper, Symbol.isOperator]
  have hheight : (Tree.binary .minus (.number ['7']) (.number ['2'])).height {} ≤ maxEntries := by
    decide
  exact (run_ofTokens {} hproper rfl).2.1 _ rfl ⟨trivial, trivial⟩ hheight

end DeskCalculator.Stack
