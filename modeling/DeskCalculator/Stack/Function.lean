import DeskCalculator.Text.Basic

/-!
# The functions of the calculator

Each function has a name in small letters and takes one argument or two.
-/

namespace DeskCalculator

inductive Function where
  | abs
  | acos
  | acosh
  | asin
  | asinh
  | atan
  | atanh
  | cos
  | cosh
  | erf
  | exp
  | gamma
  | ln
  | log
  | ncr
  | npr
  | root
  | sin
  | sinh
  | sqrt
  | tan
  | tanh
  deriving DecidableEq, Repr

namespace Function

def name : Function → Text
  | abs => "abs".toList
  | acos => "acos".toList
  | acosh => "acosh".toList
  | asin => "asin".toList
  | asinh => "asinh".toList
  | atan => "atan".toList
  | atanh => "atanh".toList
  | cos => "cos".toList
  | cosh => "cosh".toList
  | erf => "erf".toList
  | exp => "exp".toList
  | gamma => "gamma".toList
  | ln => "ln".toList
  | log => "log".toList
  | ncr => "ncr".toList
  | npr => "npr".toList
  | root => "root".toList
  | sin => "sin".toList
  | sinh => "sinh".toList
  | sqrt => "sqrt".toList
  | tan => "tan".toList
  | tanh => "tanh".toList

def all : List Function :=
  [abs, acos, acosh, asin, asinh, atan, atanh, cos, cosh, erf, exp, gamma, ln, log, ncr, npr, root,
    sin, sinh, sqrt, tan, tanh]

def ofName? (t : Text) : Option Function := all.find? (·.name == t)

def arity : Function → Nat
  | ncr | npr | root => 2
  | _ => 1

/-- The names that start with a text, whatever the case of its letters, in order. -/
def completions (start : Text) : List Text :=
  (all.map name).filter (Text.startsWith (Text.lower start))

end Function

end DeskCalculator
