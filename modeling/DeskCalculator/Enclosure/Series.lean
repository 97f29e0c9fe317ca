import DeskCalculator.Enclosure.Basic

/-!
# Power series

The series behind the elementary functions, on arguments that other modules have made small. A sum
stops when its term has shrunk to one unit of the last place; the terms after it are together no
larger, and the result is widened by them.
-/

namespace DeskCalculator.Enclosure

/-- `sum + term + term * x / n + term * x ^ 2 / (n * (n + step)) + …`, where each further term
divides by the next `step` whole numbers. -/
def factorialSum (b : Nat) (x : Enclosure) (step : Nat) :
    (fuel n : Nat) → (term sum : Enclosure) → Enclosure
  | 0, _, _, sum => sum
  | fuel + 1, n, term, sum =>
    let sum := sum.add term
    if term.magnitude ≤ 1 then sum.widen 2
    else
      let divisor := if step = 1 then n else n * (n + 1)
      factorialSum b x step fuel (n + step) ((term.mul b x).divNat divisor) sum

/-- `exp x` for `x` of magnitude at most 2. -/
def expSmall (b : Nat) (x : Enclosure) : Enclosure :=
  factorialSum b x 1 (b + 20) 1 (ofInt b 1) ⟨0, 0⟩

/-- `sin x` for `x` of magnitude at most 1. -/
def sinSmall (b : Nat) (x : Enclosure) : Enclosure :=
  factorialSum b (x.mul b x).neg 2 (b + 20) 2 x ⟨0, 0⟩

/-- `cos x` for `x` of magnitude at most 1. -/
def cosSmall (b : Nat) (x : Enclosure) : Enclosure :=
  factorialSum b (x.mul b x).neg 2 (b + 20) 1 (ofInt b 1) ⟨0, 0⟩

/-- `sum + power / n + power * y / (n + 2) + power * y ^ 2 / (n + 4) + …`. -/
def oddSum (b : Nat) (y : Enclosure) : (fuel n : Nat) → (power sum : Enclosure) → Enclosure
  | 0, _, _, sum => sum
  | fuel + 1, n, power, sum =>
    let sum := sum.add (power.divNat n)
    if power.magnitude ≤ 1 then sum.widen 2
    else oddSum b y fuel (n + 2) (power.mul b y) sum

/-- The inverse hyperbolic tangent of `x` of magnitude at most a half. -/
def atanhSmall (b : Nat) (x : Enclosure) : Enclosure :=
  oddSum b (x.mul b x) (b + 20) 1 x ⟨0, 0⟩

/-- `sum + term + term * y * 2 / 3 + term * y ^ 2 * (2 * 4) / (3 * 5) + …`, from the factor
`2 * n / (2 * n + 1)` on. -/
def eulerSum (b : Nat) (y : Enclosure) : (fuel n : Nat) → (term sum : Enclosure) → Enclosure
  | 0, _, _, sum => sum
  | fuel + 1, n, term, sum =>
    let sum := sum.add term
    if term.magnitude ≤ 1 then sum.widen 4
    else eulerSum b y fuel (n + 1) (((term.mul b y).scale (2 * n)).divNat (2 * n + 1)) sum

/-- The arc tangent of `p / q` for `0 ≤ p ≤ q`. -/
def atanSmall (b p q : Nat) : Enclosure :=
  let d := p * p + q * q
  eulerSum b (ofRatio b (p * p : Nat) d) (2 * b + 20) 1 (ofRatio b (p * q : Nat) d) ⟨0, 0⟩

end DeskCalculator.Enclosure
