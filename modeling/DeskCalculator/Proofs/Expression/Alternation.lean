import DeskCalculator.Proofs.Expression.Grammar
import DeskCalculator.Proofs.Expression.Items
import Mathlib.Data.List.Chain

/-!
# Operands in turn

Which lexeme may stand behind which: an operand starts where none has just ended, and what follows
the end of an operand starts none. The lexemes of every derivation alternate in this way
(`alternates_of_derives`). That is not enough for a derivation, since it says nothing about
parentheses and commas; what else has to be known is followed from the left. Behind each lexeme the
innermost open group holds a part of a sum that awaits an operand or is complete, and so does what
stands before each open parenthesis (`Reading`).
-/

namespace DeskCalculator

namespace Lexeme

def isOperandStart : Lexeme → Bool
  | number _ | constant _ | function _ | opening | operator .negate => true
  | _ => false

def isOperandEnd : Lexeme → Bool
  | number _ | constant _ | postfixed _ | closing => true
  | _ => false

def isFunction : Lexeme → Bool
  | function _ => true
  | _ => false

/-- Whether a lexeme may stand before another. What a function is applied to without parentheses
does not start with a negation. -/
def mayPrecede : Lexeme → Lexeme → Bool
  | function _, operator _ => false
  | l, m => l.isOperandEnd != m.isOperandStart

theorem mayPrecede_eq {l : Lexeme} (h : l.isFunction = false) (m : Lexeme) :
    l.mayPrecede m = (l.isOperandEnd != m.isOperandStart) := by
  cases l with
  | function name => cases h
  | _ => rfl

theorem isOperandEnd_of_mayPrecede {l m : Lexeme} (h : l.mayPrecede m) :
    l.isOperandEnd = !m.isOperandStart := by
  unfold mayPrecede at h
  split at h
  · cases h
  · exact Bool.eq_not.2 (bne_iff_ne.1 h)

theorem mayPrecede_of_isOperandEnd {l m : Lexeme} (hl : l.isOperandEnd)
    (hm : m.isOperandStart = false) : l.mayPrecede m := by
  rw [mayPrecede_eq (by cases l <;> first | rfl | cases hl), hl, hm]
  rfl

theorem mayPrecede_of_isOperandStart {l m : Lexeme} (hl : l.isOperandEnd = false)
    (hm : m.isOperandStart) (hoperator : ∀ s, m ≠ operator s) : l.mayPrecede m := by
  cases m with
  | operator s => exact absurd rfl (hoperator s)
  | _ => cases l <;> simp_all [mayPrecede, isOperandStart]

/-- Every lexeme may stand behind the one before it, and the whole in parentheses. -/
def Alternates (ls : List Lexeme) : Prop :=
  (opening :: ls ++ [closing]).IsChain (·.mayPrecede ·)

instance (ls : List Lexeme) : Decidable (Alternates ls) :=
  inferInstanceAs (Decidable ((opening :: ls ++ [closing]).IsChain (·.mayPrecede ·)))

end Lexeme

open Lexeme

/-! ## Derivations alternate -/

/-- Whether a category is what a function may be applied to without parentheses. -/
def Category.isApplied : Category → Bool
  | .applied | .atom => true
  | _ => false

/-- Lexemes go on from one behind which an operand of a category may stand to what may stand behind
the end of an operand. -/
def Links (c : Category) (ls : List Lexeme) : Prop :=
  ∀ (previous : Lexeme) (rest : List Lexeme), previous.isOperandEnd = false →
    (c.isApplied ∨ previous.isFunction = false) →
    (∀ last : Lexeme, last.isOperandEnd → (last :: rest).IsChain (·.mayPrecede ·)) →
    (previous :: (ls ++ rest)).IsChain (·.mayPrecede ·)

namespace Links

variable {c : Category} {ls ms : List Lexeme}

theorem of_next (h : Links c.next ls) : Links c ls := by
  intro previous rest hprevious hfunction hrest
  refine h previous rest hprevious (hfunction.imp_left fun hc => ?_) hrest
  cases c <;> first | rfl | cases hc

theorem between {l r : Category} (op : BinaryOperator) (hc : c.isApplied = false)
    (hl : Links l ls) (hr : Links r ms) : Links c (ls ++ .operator op.symbol :: ms) := by
  intro previous rest hprevious hfunction hrest
  have hfunction := hfunction.resolve_left (by simp [hc])
  rw [List.append_assoc, List.cons_append]
  refine hl previous _ hprevious (.inr hfunction) fun last hlast => ?_
  refine List.isChain_cons_cons.2 ⟨mayPrecede_of_isOperandEnd hlast (by cases op <;> rfl), ?_⟩
  exact hr _ rest rfl (.inr rfl) hrest

theorem negate (h : Links .signed ls) : Links .signed (.operator .negate :: ls) := by
  intro previous rest hprevious hfunction hrest
  have hfunction := hfunction.resolve_left (by decide)
  refine List.isChain_cons_cons.2 ⟨?_, h _ rest rfl (.inr rfl) hrest⟩
  rw [mayPrecede_eq hfunction, hprevious]
  rfl

theorem postfixed (h : Links .marked ls) (sign : PostfixSign) :
    Links .marked (ls ++ [.postfixed sign.symbol]) := by
  intro previous rest hprevious hfunction hrest
  rw [List.append_assoc]
  refine h previous _ hprevious hfunction fun last hlast => ?_
  exact List.isChain_cons_cons.2 ⟨mayPrecede_of_isOperandEnd hlast rfl, hrest _ rfl⟩

theorem apply (h : Links .applied ls) (name : Text) : Links .applied (.function name :: ls) := by
  intro previous rest hprevious _ hrest
  exact List.isChain_cons_cons.2 ⟨mayPrecede_of_isOperandStart hprevious rfl nofun,
    h _ rest rfl (.inl rfl) hrest⟩

theorem leaf {l : Lexeme} (hstart : l.isOperandStart) (hend : l.isOperandEnd)
    (hoperator : ∀ s, l ≠ .operator s) : Links .atom [l] := by
  intro previous rest hprevious _ hrest
  exact List.isChain_cons_cons.2
    ⟨mayPrecede_of_isOperandStart hprevious hstart hoperator, hrest l hend⟩

theorem group (h : Links .sum ls) : Links .atom (.opening :: ls ++ [.closing]) := by
  intro previous rest hprevious _ hrest
  refine List.isChain_cons_cons.2 ⟨mayPrecede_of_isOperandStart hprevious rfl nofun, ?_⟩
  show (Lexeme.opening :: (ls ++ [.closing] ++ rest)).IsChain _
  rw [List.append_assoc]
  refine h _ _ rfl (.inr rfl) fun last hlast => ?_
  exact List.isChain_cons_cons.2 ⟨mayPrecede_of_isOperandEnd hlast rfl, hrest _ rfl⟩

theorem separated {arguments : List (List Lexeme)} (hne : arguments ≠ [])
    (h : ∀ ls ∈ arguments, Links .sum ls) : Links .sum (Lexeme.separated arguments) := by
  induction arguments with
  | nil => exact absurd rfl hne
  | cons ls rest ih =>
    have hls := h ls List.mem_cons_self
    cases rest with
    | nil => exact hls
    | cons ms rest =>
      have hrest := ih (by simp) fun ls hls => h ls (List.mem_cons_of_mem _ hls)
      intro previous more hprevious hfunction hmore
      simp only [Lexeme.separated, List.append_assoc, List.cons_append]
      refine hls previous _ hprevious hfunction fun last hlast => ?_
      exact List.isChain_cons_cons.2 ⟨mayPrecede_of_isOperandEnd hlast rfl,
        hrest _ more rfl (.inr rfl) hmore⟩

theorem call {arguments : List (List Lexeme)} (hne : arguments ≠ [])
    (h : ∀ ls ∈ arguments, Links .sum ls) (name : Text) :
    Links .atom (.function name :: .opening :: Lexeme.separated arguments ++ [.closing]) := by
  intro previous rest hprevious _ hrest
  refine List.isChain_cons_cons.2 ⟨mayPrecede_of_isOperandStart hprevious rfl nofun, ?_⟩
  exact (separated hne h).group _ rest rfl (.inl rfl) hrest

end Links

theorem links_of_derives {c : Category} {ls : List Lexeme} {e : Tree} (h : Derives c ls e) :
    Links c ls := by
  induction h with
  | widen _ ih => exact ih.of_next
  | @leftOperator op _ _ _ _ _ _ _ ihl ihr => exact ihl.between op (by cases op <;> rfl) ihr
  | power _ _ ihl ihr => exact ihl.between .power rfl ihr
  | negate _ ih => exact ih.negate
  | postfixed sign _ ih => exact ih.postfixed sign
  | apply name _ ih => exact ih.apply name
  | number t => exact .leaf rfl rfl nofun
  | constant name => exact .leaf rfl rfl nofun
  | group _ ih => exact ih.group
  | call name hne _ ih =>
    refine .call (by simpa using hne) (fun ls hls => ?_) name
    obtain ⟨a, ha, rfl⟩ := List.mem_map.1 hls
    exact ih a ha

/-- The lexemes of a derivation alternate. -/
theorem alternates_of_derives {ls : List Lexeme} {e : Tree} (h : Derives .sum ls e) :
    Alternates ls :=
  links_of_derives h .opening [.closing] rfl (.inr rfl) fun _ hlast =>
    List.isChain_cons_cons.2 ⟨mayPrecede_of_isOperandEnd hlast rfl, .singleton _⟩

/-! ## Going on behind a complete sum -/

def Derivable (c : Category) (ls : List Lexeme) : Prop := ∃ e, Derives c ls e

/-- Whatever a category derives completes a sum behind the lexemes. -/
def Awaits (c : Category) (ls : List Lexeme) : Prop :=
  ∀ ms, Derivable c ms → Derivable .sum (ls ++ ms)

/-- A sum that ends in something that a category derives, and that may end in anything else that the
category derives. -/
def EndsIn (c : Category) (ls : List Lexeme) : Prop :=
  ∃ front last, ls = front ++ last ∧ Awaits c front ∧ Derivable c last

theorem Derivable.widen {c : Category} {ls : List Lexeme} (h : Derivable c.next ls) :
    Derivable c ls := by
  obtain ⟨e, he⟩ := h
  exact ⟨e, he.widen⟩

/-- What a category derives ends in an operand of the next one, which may be any, as far down as the
signed operands. -/
theorem exists_last_operand {c : Category} {ls : List Lexeme} {e : Tree} (h : Derives c ls e)
    (hc : c.next.isApplied = false) :
    ∃ front last, ls = front ++ last ∧ (∀ ms, Derivable c.next ms → Derivable c (front ++ ms)) ∧
      Derivable c.next last := by
  induction h with
  | @widen c ls e h _ => exact ⟨[], ls, rfl, fun ms hms => hms.widen, e, h⟩
  | @leftOperator op ls ms a b hop hl hr _ _ =>
    refine ⟨ls ++ [.operator op.symbol], ms, by simp, fun ms' hms' => ?_, b, hr⟩
    obtain ⟨b', hb'⟩ := hms'
    exact ⟨.binary op a b', by simpa using Derives.leftOperator hop hl hb'⟩
  | @power ls ms a b hl hr _ ih =>
    obtain ⟨front, last, rfl, hfront, hlast⟩ := ih rfl
    refine ⟨ls ++ .operator .power :: front, last, by simp, fun ms' hms' => ?_, hlast⟩
    obtain ⟨b', hb'⟩ := hfront ms' hms'
    exact ⟨.binary .power a b', by simpa using Derives.power hl hb'⟩
  | @negate ls e h ih =>
    obtain ⟨front, last, rfl, hfront, hlast⟩ := ih rfl
    refine ⟨.operator .negate :: front, last, rfl, fun ms' hms' => ?_, hlast⟩
    obtain ⟨e', he'⟩ := hfront ms' hms'
    exact ⟨.negate e', .negate he'⟩
  | postfixed | apply | number | constant | group | call => cases hc

namespace EndsIn

variable {c : Category} {ls ms : List Lexeme}

theorem of_derivable (h : Derivable .sum ls) : EndsIn .sum ls :=
  ⟨[], ls, rfl, fun _ hms => hms, h⟩

theorem next (h : EndsIn c ls) (hc : c.next.isApplied = false) : EndsIn c.next ls := by
  obtain ⟨front, _, rfl, hfront, e, he⟩ := h
  obtain ⟨front', last, rfl, hfront', hlast⟩ := exists_last_operand he hc
  refine ⟨front ++ front', last, by simp, fun ms hms => ?_, hlast⟩
  simpa using hfront _ (hfront' ms hms)

theorem append (h : EndsIn c ls) (hms : ∀ last, Derivable c last → Derivable c (last ++ ms)) :
    Derivable .sum (ls ++ ms) := by
  obtain ⟨front, last, rfl, hfront, hlast⟩ := h
  simpa using hfront _ (hms last hlast)

end EndsIn

theorem derivable_append_sign {ls : List Lexeme} (h : Derivable .sum ls) (sign : PostfixSign) :
    Derivable .sum (ls ++ [.postfixed sign.symbol]) := by
  have hends := ((((EndsIn.of_derivable h).next rfl).next rfl).next rfl).next rfl
  refine hends.append fun last hlast => ?_
  obtain ⟨e, he⟩ := hlast
  exact ⟨_, he.postfixed sign⟩

theorem derivable_append_power {ls ms : List Lexeme} (h : Derivable .power ls)
    (hms : Derivable .power ms) : Derivable .power (ls ++ .operator .power :: ms) := by
  obtain ⟨e, he⟩ := h
  obtain ⟨b, hb⟩ := hms
  generalize hc : Category.power = c at he
  induction he with
  | @widen c ls e h _ =>
    subst hc
    exact ⟨_, .power h hb⟩
  | @leftOperator op ls ms' a b' hop _ _ _ _ => cases op <;> first | exact absurd rfl hop | cases hc
  | @power ls ms' a b' hl _ _ ih =>
    obtain ⟨e', he'⟩ := ih rfl
    exact ⟨_, by simpa using Derives.power hl he'⟩
  | negate | postfixed | apply | number | constant | group | call => cases hc

/-- Behind an operator a signed operand is awaited, whatever the operator is. -/
theorem awaits_operator {ls : List Lexeme} (h : Derivable .sum ls) (op : BinaryOperator) :
    Awaits .signed (ls ++ [.operator op.symbol]) := by
  intro ms hms
  have hpower : Derivable .power ms := Derivable.widen (c := .power) hms
  have hproduct : Derivable .product ms := Derivable.widen (c := .product) hpower
  have hsum := EndsIn.of_derivable h
  have hleft (hop : op ≠ .power) (hends : EndsIn op.category ls)
      (hright : Derivable op.category.next ms) :
      Derivable .sum (ls ++ [.operator op.symbol] ++ ms) := by
    rw [List.append_assoc]
    refine hends.append fun last hlast => ?_
    obtain ⟨a, ha⟩ := hlast
    obtain ⟨b, hb⟩ := hright
    exact ⟨_, .leftOperator hop ha hb⟩
  cases op with
  | plus | minus => exact hleft nofun hsum hproduct
  | times | divide => exact hleft nofun (hsum.next rfl) hpower
  -- a power is no left operand of a power, so that the new exponent goes to the last of a chain
  | power =>
    rw [List.append_assoc]
    exact ((hsum.next rfl).next rfl).append fun _ hlast => derivable_append_power hlast hpower

/-! ## Reading from the left -/

namespace Awaits

variable {c : Category} {ls : List Lexeme}

theorem next (h : Awaits c ls) : Awaits c.next ls := fun ms hms => h ms hms.widen

theorem applied (h : Awaits .signed ls) : Awaits .applied ls := h.next.next

theorem negate (h : Awaits .signed ls) : Awaits .signed (ls ++ [.operator .negate]) := by
  rintro ms ⟨e, he⟩
  simpa using h _ ⟨_, he.negate⟩

theorem function (h : Awaits .applied ls) (name : Text) :
    Awaits .applied (ls ++ [.function name]) := by
  rintro ms ⟨e, he⟩
  simpa using h _ ⟨_, he.apply name⟩

end Awaits

theorem awaits_nil : Awaits .signed [] := fun _ hms =>
  Derivable.widen (c := .sum) (Derivable.widen (c := .product) (Derivable.widen (c := .power) hms))

/-- Lexemes up to the innermost open parenthesis, or up to the last comma in it. The parentheses
that are open are listed, the innermost first, by whether they hold the arguments of a call. -/
inductive Opened : List Bool → List Lexeme → Prop where
  | nil : Opened [] []
  | group {calls : List Bool} {outer front : List Lexeme} : Opened calls outer →
      Awaits .atom front → Opened (false :: calls) (outer ++ front ++ [.opening])
  | call {calls : List Bool} {outer front : List Lexeme} (name : Text)
      {arguments : List (List Lexeme)} : Opened calls outer → Awaits .atom front →
      (∀ ls ∈ arguments, Derivable .sum ls) →
      Opened (true :: calls) (outer ++ front ++ .function name :: .opening ::
        arguments.flatMap (· ++ [.comma]))

/-- What is read behind a lexeme. Either an operand is awaited, which is the argument of the function
that has just been named or any signed one, or the sum in the innermost parentheses is complete. -/
inductive Reading (calls : List Bool) : List Lexeme → Lexeme → Prop where
  | operand {outer front : List Lexeme} {last : Lexeme} : last.isOperandEnd = false →
      last.isFunction = false → Opened calls outer → Awaits .signed front →
      Reading calls (outer ++ front) last
  | argument {outer front : List Lexeme} (name : Text) : Opened calls outer →
      Awaits .applied front → Reading calls (outer ++ (front ++ [.function name])) (.function name)
  | complete {outer ls : List Lexeme} {last : Lexeme} : last.isOperandEnd → Opened calls outer →
      Derivable .sum ls → Reading calls (outer ++ ls) last

theorem separated_append_singleton (arguments : List (List Lexeme)) (ls : List Lexeme) :
    Lexeme.separated (arguments ++ [ls]) = arguments.flatMap (· ++ [.comma]) ++ ls := by
  induction arguments with
  | nil => rfl
  | cons ms arguments ih =>
    rw [List.flatMap_cons, List.append_assoc, ← ih]
    cases arguments <;> simp [Lexeme.separated]

theorem exists_arguments {arguments : List (List Lexeme)}
    (h : ∀ ls ∈ arguments, Derivable .sum ls) :
    ∃ trees : List (List Lexeme × Tree), trees.map Prod.fst = arguments ∧
      ∀ a ∈ trees, Derives .sum a.1 a.2 := by
  induction arguments with
  | nil => exact ⟨[], rfl, nofun⟩
  | cons ls arguments ih =>
    obtain ⟨e, he⟩ := h ls List.mem_cons_self
    obtain ⟨trees, rfl, htrees⟩ := ih fun ms hms => h ms (List.mem_cons_of_mem _ hms)
    exact ⟨(ls, e) :: trees, rfl, List.forall_mem_cons.2 ⟨he, htrees⟩⟩

theorem derivable_call {arguments : List (List Lexeme)} (hne : arguments ≠ [])
    (h : ∀ ls ∈ arguments, Derivable .sum ls) (name : Text) :
    Derivable .atom
      (.function name :: .opening :: Lexeme.separated arguments ++ [.closing]) := by
  obtain ⟨trees, rfl, htrees⟩ := exists_arguments h
  exact ⟨_, .call name (by simpa using hne) htrees⟩

namespace Reading

variable {calls : List Bool} {ls : List Lexeme} {last l : Lexeme}

theorem applied (h : Reading calls ls last) (hlast : last.isOperandEnd = false) :
    ∃ outer front, ls = outer ++ front ∧ Opened calls outer ∧ Awaits .applied front := by
  cases h with
  | operand _ _ hopened hfront => exact ⟨_, _, rfl, hopened, hfront.applied⟩
  | argument name hopened hfront => exact ⟨_, _, rfl, hopened, hfront.function name⟩
  | complete hend _ _ => simp [hlast] at hend

theorem leaf (h : Reading calls ls last) (hlast : last.isOperandEnd = false)
    (hl : Derivable .atom [l]) (hend : l.isOperandEnd) : Reading calls (ls ++ [l]) l := by
  obtain ⟨outer, front, rfl, hopened, hfront⟩ := h.applied hlast
  rw [List.append_assoc]
  exact .complete hend hopened (hfront.next _ hl)

theorem function (h : Reading calls ls last) (hlast : last.isOperandEnd = false) (name : Text) :
    Reading calls (ls ++ [.function name]) (.function name) := by
  obtain ⟨outer, front, rfl, hopened, hfront⟩ := h.applied hlast
  rw [List.append_assoc]
  exact .argument name hopened hfront

theorem negate (h : Reading calls ls last) (hlast : last.isOperandEnd = false)
    (hfunction : last.isFunction = false) :
    Reading calls (ls ++ [.operator .negate]) (.operator .negate) := by
  cases h with
  | operand _ _ hopened hfront =>
    rw [List.append_assoc]
    exact operand rfl rfl hopened hfront.negate
  | argument name _ _ => cases hfunction
  | complete hend _ _ => simp [hlast] at hend

theorem derivable (h : Reading calls ls last) (hlast : last.isOperandEnd) :
    ∃ outer inner, ls = outer ++ inner ∧ Opened calls outer ∧ Derivable .sum inner := by
  cases h with
  | operand hend _ _ _ => simp [hlast] at hend
  | argument name _ _ => cases hlast
  | complete _ hopened hls => exact ⟨_, _, rfl, hopened, hls⟩

theorem operator (h : Reading calls ls last) (hlast : last.isOperandEnd) (op : BinaryOperator) :
    Reading calls (ls ++ [.operator op.symbol]) (.operator op.symbol) := by
  obtain ⟨outer, inner, rfl, hopened, hinner⟩ := h.derivable hlast
  rw [List.append_assoc]
  exact operand rfl rfl hopened (awaits_operator hinner op)

theorem postfixed (h : Reading calls ls last) (hlast : last.isOperandEnd) (sign : PostfixSign) :
    Reading calls (ls ++ [.postfixed sign.symbol]) (.postfixed sign.symbol) := by
  obtain ⟨outer, inner, rfl, hopened, hinner⟩ := h.derivable hlast
  rw [List.append_assoc]
  exact .complete rfl hopened (derivable_append_sign hinner sign)

theorem opening (h : Reading calls ls last) (hlast : last.isOperandEnd = false) :
    Reading (last.isFunction :: calls) (ls ++ [.opening]) .opening := by
  have hopened : Opened (last.isFunction :: calls) (ls ++ [.opening]) := by
    cases h with
    | operand _ hfunction hopened hfront =>
      rw [hfunction]
      exact .group hopened hfront.applied.next
    | argument name hopened hfront =>
      simpa [isFunction] using @Opened.call _ _ _ name [] hopened hfront.next nofun
    | complete hend _ _ => simp [hlast] at hend
  simpa using @Reading.operand _ _ _ .opening rfl rfl hopened awaits_nil

theorem closing {b : Bool} (h : Reading (b :: calls) ls last) (hlast : last.isOperandEnd) :
    Reading calls (ls ++ [.closing]) .closing := by
  obtain ⟨outer, inner, rfl, hopened, e, he⟩ := h.derivable hlast
  cases hopened with
  | @group _ outer front houter hfront =>
    simpa using @Reading.complete _ _ _ .closing rfl houter (hfront _ ⟨e, he.group⟩)
  | @call _ outer front name arguments houter hfront harguments =>
    have hcall := @derivable_call (arguments ++ [inner]) (by simp)
      (List.forall_mem_append.2 ⟨harguments, by simpa using ⟨e, he⟩⟩) name
    rw [separated_append_singleton] at hcall
    simpa using @Reading.complete _ _ _ .closing rfl houter (hfront _ hcall)

theorem comma (h : Reading (true :: calls) ls last) (hlast : last.isOperandEnd) :
    Reading (true :: calls) (ls ++ [.comma]) .comma := by
  obtain ⟨outer, inner, rfl, hopened, hinner⟩ := h.derivable hlast
  cases hopened with
  | @call _ outer front name arguments houter hfront harguments =>
    have hopened := @Opened.call _ _ _ name (arguments ++ [inner]) houter hfront
      (List.forall_mem_append.2 ⟨harguments, by simpa using hinner⟩)
    simpa using @Reading.operand _ _ _ .comma rfl rfl hopened awaits_nil

end Reading

end DeskCalculator
