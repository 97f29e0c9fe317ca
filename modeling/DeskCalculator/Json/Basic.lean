import DeskCalculator.Double.Basic
import DeskCalculator.Text.Basic

/-!
# JSON values

The values of a JSON text, with integers apart from other numbers. The members of an object keep the
order in which their keys first appear; of equal keys the last value counts.
-/

namespace DeskCalculator

inductive Json where
  | null
  | bool (b : Bool)
  | integer (n : Int)
  | number (x : Double)
  | string (t : Text)
  | array (items : List Json)
  | object (members : List (Text × Json))
  deriving Repr

namespace Json

/-- The members with a key set to a value: in its place if the key is there, else at the end. -/
def setMember (key : Text) (value : Json) : List (Text × Json) → List (Text × Json)
  | [] => [(key, value)]
  | (k, v) :: rest => if k = key then (k, value) :: rest else (k, v) :: setMember key value rest

def member? (key : String) (members : List (Text × Json)) : Option Json :=
  members.lookup key.toList

def ofString (s : String) : Json := string s.toList

/-- Whether a value counts as true: everything but null, false, zero and what is empty. -/
def isTrue : Json → Bool
  | null => false
  | bool b => b
  | integer n => n != 0
  | number x => !x.isZero
  | string t => !t.isEmpty
  | array items => !items.isEmpty
  | object members => !members.isEmpty

end Json

end DeskCalculator
