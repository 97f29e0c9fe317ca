import DeskCalculator.Value.Basic

/-!
# Factorials, combinations and arrangements

Each count comes twice: exactly, on integers of any size, and as a decimal, rounding after every
multiplication and division. Outside `0 ≤ r ≤ n` both counts of choices are zero.
-/

namespace DeskCalculator

/-! ## Exact counts -/

namespace Counting

def maxFactorialOperand : Int := Nat.pow 2 63 - 1

/-- The product of the whole numbers from `low` up to `low + count - 1`, halving the range so that
the factors stay of similar size. -/
def rangeProduct (fuel low count : Nat) : Nat :=
  match fuel with
  | 0 => low
  | fuel + 1 =>
    if count = 0 then 1
    else if count = 1 then low
    else rangeProduct fuel low (count / 2) * rangeProduct fuel (low + count / 2) (count - count / 2)

def factorialNat (n : Nat) : Nat := rangeProduct (n.log2 + 2) 1 n

def factorial (n : Int) : Except ArithmeticFault Int :=
  if n < 0 then .error .factorialOfNegative
  else if maxFactorialOperand < n then .error .factorialTooLarge
  else .ok (factorialNat n.toNat)

/-- Divides a divisor out of a list of factors as far as it goes: each factor loses what it has in
common with what is left of the divisor. -/
def cancel : List Nat → Nat → List Nat × Nat
  | [], d => ([], d)
  | factors@(a :: rest), d =>
    if d = 1 then (factors, d)
    else
      let g := Nat.gcd a d
      let (rest, d) := cancel rest (d / g)
      (a / g :: rest, d)

/-- Cancels several divisors one after the other; what is left of each comes with the factors. -/
def cancelAll : List Nat → List Nat → List Nat × List Nat
  | factors, [] => (factors, [])
  | factors, d :: ds =>
    let (factors, d) := cancel factors d
    let (factors, ds) := cancelAll factors ds
    (factors, d :: ds)

/-- The number of ways to choose, for `0 ≤ k ≤ n`: `k` factors from `n` down, with the divisors from
1 to `k` cancelled before anything is multiplied. -/
def chooseNat (n k : Nat) : Nat :=
  let (factors, divisors) :=
    cancelAll ((List.range k).map (n - ·)) ((List.range k).map (· + 1))
  divisors.foldl (· / ·) (factors.foldl (· * ·) 1)

/-- Whether `r` of `n` things can be taken at all. -/
def isPossible (n r : Int) : Bool := 0 ≤ r && 0 ≤ n && r ≤ n

def choose (n r : Int) : Int :=
  if isPossible n r then chooseNat n.toNat (min r (n - r)).toNat else 0

def arrange (n r : Int) : Int :=
  if isPossible n r then (List.range r.toNat).foldl (fun (p : Int) (i : Nat) => p * (n - i)) 1
  else 0

def divideTowardZero (a b : Int) : Except ArithmeticFault Int :=
  if b = 0 then .error .integerZeroDivisor else .ok (a.tdiv b)

end Counting

/-! ## Decimal counts -/

namespace Context

variable (ctx : Context)

/-- `result * i * (i + 1) * …` with `count` factors, rounding every product. -/
def factorialFrom (i : Nat) : (count : Nat) → Decimal → Decimal
  | 0, result => result
  | count + 1, result => factorialFrom (i + 1) count (ctx.mul result (Decimal.ofNat i))

/-- The factorial as a decimal; one for an operand below two. -/
def factorial (n : Int) : Decimal := ctx.factorialFrom 2 (n - 1).toNat .one

/-- `result * (n - k + i) / i * …` for `count` values of `i`. -/
def chooseFrom (n k : Nat) (i : Nat) : (count : Nat) → Decimal → Decimal
  | 0, result => result
  | count + 1, result =>
    let product := ctx.mul result (Decimal.ofNat (n - k + i))
    chooseFrom n k (i + 1) count (ctx.div product (Decimal.ofNat i))

def choose (n r : Int) : Decimal :=
  if Counting.isPossible n r then
    let k := (min r (n - r)).toNat
    ctx.chooseFrom n.toNat k 1 k .one
  else .zero

/-- `result * (n - i) * (n - i - 1) * …` with `count` factors. -/
def arrangeFrom (n : Nat) (i : Nat) : (count : Nat) → Decimal → Decimal
  | 0, result => result
  | count + 1, result => arrangeFrom n (i + 1) count (ctx.mul result (Decimal.ofNat (n - i)))

def arrange (n r : Int) : Decimal :=
  if Counting.isPossible n r then ctx.arrangeFrom n.toNat 0 r.toNat .one else .zero

end Context

end DeskCalculator
