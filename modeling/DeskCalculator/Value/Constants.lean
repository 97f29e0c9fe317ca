import DeskCalculator.Decimal.Power
import DeskCalculator.Value.Basic

/-!
# The constants and powers of the calculator

Pi is summed from the series `3 + 3 / 24 + 3 * 9 / (24 * 80) + …` with two digits more than wanted,
until a term no longer changes the sum. An exponent goes through a double first, so that only about
17 of its digits count.
-/

namespace DeskCalculator.Context

variable (ctx : Context)

/-- The sum of the series for pi from one of its terms on. The next term has `n / d` times the size;
`na` and `da` are the increments of `n` and `d`. -/
def piSum : (fuel : Nat) → (t s : Decimal) → (n na d da : Nat) → Decimal
  | 0, _, s, _, _, _, _ => s
  | fuel + 1, t, s, n, na, d, da =>
    let n := n + na
    let na := na + 8
    let d := d + da
    let da := da + 32
    let t := ctx.div (ctx.mul t (Decimal.ofNat n)) (Decimal.ofNat d)
    let next := ctx.add s t
    if next = s then s else piSum fuel t next n na d da

def pi : Decimal :=
  let work := { ctx with precision := ctx.precision + 2 }
  ctx.plus (work.piSum (4 * ctx.precision + 20) (Decimal.ofNat 3) (Decimal.ofNat 3) 1 0 0 24)

def e : Decimal := ctx.exp .one

/-- A power of decimals, the exponent taken as a double. -/
def power (base exponent : Decimal) : Except ArithmeticFault Decimal := do
  let x ← exponent.toDouble
  if x.isZero then return .one
  else if x.isWhole then return ctx.pow base (Decimal.ofInt x.truncate)
  else return ctx.pow base (Decimal.ofDouble x)

end DeskCalculator.Context
