/-!
# Rounding a quotient to a whole number

`Rounding.divide` is the whole number nearest to a quotient of natural numbers. The two ways of
rounding differ on exact halves only: away from zero, or to the even neighbour.
-/

namespace DeskCalculator

/-- Where an exact half goes. -/
inductive Rounding where
  | halfUp
  | halfEven
  deriving DecidableEq, Repr

def Rounding.divide (mode : Rounding) (n d : Nat) : Nat :=
  let q := n / d
  let twice := 2 * (n % d)
  if twice < d then q
  else if d < twice then q + 1
  else match mode with
    | .halfUp => q + 1
    | .halfEven => q + q % 2

end DeskCalculator
