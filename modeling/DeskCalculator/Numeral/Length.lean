/-!
# How long a number is in base ten

`digitCount n` is the number of decimal digits that write `n`, with one digit for zero. The search
starts from an estimate by the binary logarithm, which never lies above the answer because
`10 ^ 3010 < 2 ^ 10000`, and goes up from there.
-/

namespace DeskCalculator.Numeral

/-- The first `k` at or above `start` with `n < 10 ^ k`, looking at most `fuel` places further. -/
def lengthFrom (n : Nat) : (fuel start : Nat) → Nat
  | 0, k => k
  | fuel + 1, k => if n < Nat.pow 10 k then k else lengthFrom n fuel (k + 1)

def digitCount (n : Nat) : Nat :=
  lengthFrom n (n.log2 + 1) (n.log2 * 3010 / 10000 + 1)

/-- How many times ten divides `n`, at most `limit`. -/
def trailingZeros (n : Nat) : (limit : Nat) → Nat
  | 0 => 0
  | limit + 1 => if n % 10 = 0 then trailingZeros (n / 10) limit + 1 else 0

end DeskCalculator.Numeral
