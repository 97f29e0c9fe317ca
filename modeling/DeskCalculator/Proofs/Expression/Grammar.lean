import DeskCalculator.Proofs.Expression.Tree
import DeskCalculator.Token.Scan

/-!
# The grammar of expressions

An expression is a sum. The categories from sums to atoms bind ever more tightly, and each of them
includes the next one:

* a sum is `sum + product` or `sum - product`,
* a product is `product * power` or `product / power`,
* a power is `signed ^ power`,
* a signed operand is `- signed`,
* a marked operand is `marked !` or `marked %`,
* an applied function is `function applied`, without parentheses,
* an atom is a number, a constant, `( sum )` or `function ( sum , … , sum )`.

`Derives c ls e` says that the lexemes `ls` have a derivation from the category `c` with the tree
`e`; `Spells ls t` says that the text `t` writes the lexemes `ls`, with blanks wherever one likes and
at least one where a word would otherwise run into the next.
-/

namespace DeskCalculator

/-! ## Derivations -/

inductive Category where
  | sum
  | product
  | power
  | signed
  | marked
  | applied
  | atom
  deriving DecidableEq, Repr

/-- The category that the operands of a category's operators come from. -/
def Category.next : Category → Category
  | sum => product
  | product => power
  | power => signed
  | signed => marked
  | marked => applied
  | applied | atom => atom

def BinaryOperator.category : BinaryOperator → Category
  | plus | minus => .sum
  | times | divide => .product
  | power => .power

/-- Lists of lexemes with a comma between neighbours. -/
def Lexeme.separated : List (List Lexeme) → List Lexeme
  | [] => []
  | [ls] => ls
  | ls :: rest => ls ++ .comma :: separated rest

/-- Lexemes that have a derivation from a category, and its tree. -/
inductive Derives : Category → List Lexeme → Tree → Prop where
  | widen {c : Category} {ls : List Lexeme} {e : Tree} : Derives c.next ls e → Derives c ls e
  | leftOperator {op : BinaryOperator} {ls ms : List Lexeme} {a b : Tree} : op ≠ .power →
      Derives op.category ls a → Derives op.category.next ms b →
      Derives op.category (ls ++ .operator op.symbol :: ms) (.binary op a b)
  | power {ls ms : List Lexeme} {a b : Tree} : Derives .signed ls a → Derives .power ms b →
      Derives .power (ls ++ .operator .power :: ms) (.binary .power a b)
  | negate {ls : List Lexeme} {e : Tree} : Derives .signed ls e →
      Derives .signed (.operator .negate :: ls) (.negate e)
  | postfixed {ls : List Lexeme} {e : Tree} (sign : PostfixSign) : Derives .marked ls e →
      Derives .marked (ls ++ [.postfixed sign.symbol]) (.postfixed sign e)
  | apply {ls : List Lexeme} {e : Tree} (name : Text) : Derives .applied ls e →
      Derives .applied (.function name :: ls) (.call name [e])
  | number (t : Text) : Derives .atom [.number t] (.number t)
  | constant (name : Text) : Derives .atom [.constant name] (.constant name)
  | group {ls : List Lexeme} {e : Tree} : Derives .sum ls e →
      Derives .atom (.opening :: ls ++ [.closing]) e
  | call (name : Text) {arguments : List (List Lexeme × Tree)} : arguments ≠ [] →
      (∀ a ∈ arguments, Derives .sum a.1 a.2) →
      Derives .atom
        (.function name :: .opening :: Lexeme.separated (arguments.map Prod.fst) ++ [.closing])
        (.call name (arguments.map Prod.snd))

/-! ## Spellings -/

namespace Lexeme

def signs : Lexeme → List Char
  | operator .plus => ['+']
  | operator .minus | operator .negate => ['-', '−']
  | operator .times => ['*', '×']
  | operator .divide => ['/', '÷']
  | operator .power => ['^']
  | postfixed .factorial => ['!']
  | postfixed .percent => ['%']
  | opening => ['(']
  | closing => [')']
  | comma => [',']
  | _ => []

/-- A word that writes a lexeme. A number has a digit and at most one point; a name is written in
letters of either case. -/
inductive IsWrittenAs : Lexeme → Text → Prop where
  | whole {digits : Text} : digits ≠ [] → (∀ c ∈ digits, c.isDigit) →
      IsWrittenAs (number digits) digits
  | pointed {digits places : Text} : digits ++ places ≠ [] → (∀ c ∈ digits ++ places, c.isDigit) →
      IsWrittenAs (number (digits ++ '.' :: places)) (digits ++ '.' :: places)
  | constant {c : Char} {rest : Text} : Token.isNameStart c → (∀ d ∈ rest, Token.isNamePart d) →
      Text.lower (c :: rest) ∈ Token.constantNames →
      IsWrittenAs (constant (Text.lower (c :: rest))) (c :: rest)
  | function {c : Char} {rest : Text} : Token.isNameStart c → (∀ d ∈ rest, Token.isNamePart d) →
      Text.lower (c :: rest) ∉ Token.constantNames →
      IsWrittenAs (function (Text.lower (c :: rest))) (c :: rest)
  | sign {l : Lexeme} {c : Char} : c ∈ l.signs → IsWrittenAs l [c]

def goesOnWith : Lexeme → Char → Bool
  | number _, c => c.isDigit || c = '.'
  | constant _, c | function _, c => Token.isNamePart c
  | _, _ => false

end Lexeme

/-- A text that writes lexemes, with blanks before, between and after them. -/
inductive Spells : List Lexeme → Text → Prop where
  | nil {blanks : Text} : (∀ c ∈ blanks, Text.isAsciiBlank c) → Spells [] blanks
  | cons {l : Lexeme} {ls : List Lexeme} {blanks word rest : Text} :
      (∀ c ∈ blanks, Text.isAsciiBlank c) → l.IsWrittenAs word →
      (∀ c ∈ rest.head?, l.goesOnWith c = false) → Spells ls rest →
      Spells (l :: ls) (blanks ++ word ++ rest)

end DeskCalculator
