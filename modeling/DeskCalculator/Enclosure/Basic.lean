/-!
# Enclosures of real numbers

A real number that has no finite numeral is known through enclosures: two integers `lo` and `hi`
such that the number lies between `lo / 2 ^ b` and `hi / 2 ^ b`, where `b` is the number of binary
places that a computation works with. Every operation rounds its lower end down and its upper end
up, so an enclosure of the operands gives an enclosure of the result.
-/

namespace DeskCalculator

/-- The two ends of an enclosure, in units of the last binary place. -/
structure Enclosure where
  lo : Int
  hi : Int
  deriving DecidableEq, Repr

namespace Enclosure

def floorDiv (n : Int) (d : Nat) : Int := n.fdiv d

def ceilDiv (n : Int) (d : Nat) : Int := -((-n).fdiv d)

/-- `n / d` with `b` places. -/
def ofRatio (b : Nat) (n : Int) (d : Nat) : Enclosure :=
  ⟨floorDiv (n * Nat.pow 2 b) d, ceilDiv (n * Nat.pow 2 b) d⟩

def ofInt (b : Nat) (n : Int) : Enclosure := ⟨n * Nat.pow 2 b, n * Nat.pow 2 b⟩

/-- The enclosure with `k` units more on each side. -/
def widen (x : Enclosure) (k : Nat) : Enclosure := ⟨x.lo - k, x.hi + k⟩

def dropPlaces (x : Enclosure) (k : Nat) : Enclosure :=
  ⟨floorDiv x.lo (Nat.pow 2 k), ceilDiv x.hi (Nat.pow 2 k)⟩

def add (x y : Enclosure) : Enclosure := ⟨x.lo + y.lo, x.hi + y.hi⟩

def neg (x : Enclosure) : Enclosure := ⟨-x.hi, -x.lo⟩

def sub (x y : Enclosure) : Enclosure := x.add y.neg

def scale (x : Enclosure) (n : Int) : Enclosure :=
  if 0 ≤ n then ⟨x.lo * n, x.hi * n⟩ else ⟨x.hi * n, x.lo * n⟩

def divNat (x : Enclosure) (d : Nat) : Enclosure := ⟨floorDiv x.lo d, ceilDiv x.hi d⟩

def mul (b : Nat) (x y : Enclosure) : Enclosure :=
  let p := x.lo * y.lo
  let q := x.lo * y.hi
  let r := x.hi * y.lo
  let s := x.hi * y.hi
  ⟨floorDiv (min (min p q) (min r s)) (Nat.pow 2 b),
    ceilDiv (max (max p q) (max r s)) (Nat.pow 2 b)⟩

/-- The quotient by a positive number. -/
def div (b : Nat) (x y : Enclosure) : Enclosure :=
  let d := y.lo.toNat
  let e := y.hi.toNat
  ⟨floorDiv (x.lo * Nat.pow 2 b) (if 0 ≤ x.lo then e else d),
    ceilDiv (x.hi * Nat.pow 2 b) (if 0 ≤ x.hi then d else e)⟩

/-- The largest magnitude in the enclosure, in units. -/
def magnitude (x : Enclosure) : Nat := max x.lo.natAbs x.hi.natAbs

def hull (x y : Enclosure) : Enclosure := ⟨x.lo, y.hi⟩

end Enclosure

end DeskCalculator
