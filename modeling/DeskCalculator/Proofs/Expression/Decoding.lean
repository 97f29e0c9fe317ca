import DeskCalculator.Proofs.Expression.Tree

/-!
# Reading a postfix order back

`Item.build` puts an item onto a list of trees, the last one first, as a stack machine puts it onto
a stack of values. What it makes of the postfix order of a tree is this tree (`buildAll_items`), so
that no list of items is the postfix order of two trees (`Tree.items_injective`).
-/

namespace DeskCalculator

def BinaryOperator.ofSymbol? : Symbol → Option BinaryOperator
  | .plus => some plus
  | .minus => some minus
  | .times => some times
  | .divide => some divide
  | .power => some power
  | _ => none

theorem BinaryOperator.symbol_of_ofSymbol {s : Symbol} {op : BinaryOperator}
    (h : ofSymbol? s = some op) : op.symbol = s := by
  unfold ofSymbol? at h
  split at h <;> cases h <;> rfl

def PostfixSign.ofSymbol? : Symbol → Option PostfixSign
  | .factorial => some factorial
  | .percent => some percent
  | _ => none

theorem PostfixSign.symbol_of_ofSymbol {s : Symbol} {sign : PostfixSign}
    (h : ofSymbol? s = some sign) : sign.symbol = s := by
  unfold ofSymbol? at h
  split at h <;> cases h <;> rfl

/-- The trees after an item, the last one first. -/
def Item.build : Item → List Tree → Option (List Tree)
  | .number t, es => some (.number t :: es)
  | .constant name, es => some (.constant name :: es)
  | .operator .negate, e :: es => some (.negate e :: es)
  | .operator s, b :: a :: es => (BinaryOperator.ofSymbol? s).map fun op => .binary op a b :: es
  | .postfixed s, e :: es => (PostfixSign.ofSymbol? s).map fun sign => .postfixed sign e :: es
  | .call name (some (.ofNat n)), es =>
    if n ≤ es.length then some (.call name (es.take n).reverse :: es.drop n) else none
  | _, _ => none

def buildAll : List Item → List Tree → Option (List Tree)
  | [], es => some es
  | item :: rest, es => (item.build es).bind (buildAll rest)

open DeskCalculator.Tree

theorem build_call (name : Text) (arguments es : List Tree) :
    (Item.call name (some arguments.length)).build (arguments.reverse ++ es) =
      some (.call name arguments :: es) := by
  show (if arguments.length ≤ (arguments.reverse ++ es).length then _ else none) = _
  rw [if_pos (by simp), List.take_left' (by simp), List.drop_left' (by simp), List.reverse_reverse]

theorem buildAll_itemsAll {trees : List Tree}
    (h : ∀ e ∈ trees, ∀ rest es, buildAll (e.items ++ rest) es = buildAll rest (e :: es))
    (rest : List Item) (es : List Tree) :
    buildAll (itemsAll trees ++ rest) es = buildAll rest (trees.reverse ++ es) := by
  induction trees generalizing es with
  | nil => rfl
  | cons e trees ih =>
    rw [itemsAll, List.append_assoc, h e List.mem_cons_self,
      ih fun e he => h e (List.mem_cons_of_mem _ he)]
    simp

/-- **Reading the postfix order of a tree gives the tree**, whatever was read before and whatever
comes after. -/
theorem buildAll_items (e : Tree) (rest : List Item) (es : List Tree) :
    buildAll (e.items ++ rest) es = buildAll rest (e :: es) := by
  induction e generalizing rest es with
  | number t => rfl
  | constant name => rfl
  | negate e ih =>
    rw [items, List.append_assoc, ih]
    rfl
  | binary op a b iha ihb =>
    rw [items, List.append_assoc, List.append_assoc, iha, ihb]
    cases op <;> rfl
  | postfixed sign e ih =>
    rw [items, List.append_assoc, ih]
    cases sign <;> rfl
  | call name arguments ih =>
    rw [items, List.append_assoc, buildAll_itemsAll ih]
    show ((Item.call name _).build _).bind _ = _
    rw [build_call]
    rfl

theorem Tree.items_injective {e e' : Tree} (h : e.items = e'.items) : e = e' := by
  have he := buildAll_items e [] []
  have he' := buildAll_items e' [] []
  rw [h, he'] at he
  have : [e'] = [e] := Option.some.inj he
  exact (List.cons.inj this).1.symm

/-! ## The items that were read -/

theorem itemsAll_build {item : Item} {es es' : List Tree} (h : item.build es = some es') :
    itemsAll es'.reverse = itemsAll es.reverse ++ [item] := by
  unfold Item.build at h
  split at h
  · cases h
    simp [items]
  · cases h
    simp [items]
  · cases h
    simp [items]
  · obtain ⟨op, hop, hes⟩ := Option.map_eq_some_iff.1 h
    have := BinaryOperator.symbol_of_ofSymbol hop
    subst hes
    simp [items, itemsAll, this]
  · obtain ⟨sign, hsign, hes⟩ := Option.map_eq_some_iff.1 h
    have := PostfixSign.symbol_of_ofSymbol hsign
    subst hes
    simp [items, itemsAll, this]
  · rename_i name n
    split at h
    · rename_i hn
      cases h
      have hes : es.reverse = (es.drop n).reverse ++ (es.take n).reverse := by
        rw [← List.reverse_append, List.take_append_drop]
      rw [hes]
      simp [items, hn]
    · cases h
  · cases h

theorem itemsAll_buildAll {list : List Item} {es es' : List Tree} (h : buildAll list es = some es') :
    itemsAll es'.reverse = itemsAll es.reverse ++ list := by
  induction list generalizing es with
  | nil =>
    cases h
    simp
  | cons item rest ih =>
    obtain ⟨mid, hmid, hrest⟩ := Option.bind_eq_some_iff.1 h
    rw [ih hrest, itemsAll_build hmid, List.append_assoc]
    rfl

end DeskCalculator
