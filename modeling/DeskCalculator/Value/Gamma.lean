import DeskCalculator.Double.Elementary

/-!
# Gamma and error function on doubles

Both are fixed approximations carried out in double precision, rounding at every operation: the
Lanczos approximation of the Gamma function with nine terms, reflected below one half, and the
rational approximation of the error function with five terms. Close to a pole of Gamma the
reflection gives a huge number of either sign; it fails only where a divisor is zero.
-/

namespace DeskCalculator.Double

def ofConstant (negative : Bool) (c : Nat) (e : Int) : Double := ofScientific negative c e

/-- The leading constant of the Gamma approximation. -/
def lanczosBase : Double := ofConstant false 99999999999980993 (-17)

def lanczosTerms : List Double := [
  ofConstant false 6765203681218851 (-13),
  ofConstant true 12591392167224028 (-13),
  ofConstant false 77132342877765313 (-14),
  ofConstant true 17661502916214059 (-14),
  ofConstant false 12507343278686905 (-15),
  ofConstant true 13857109526572012 (-17),
  ofConstant false 99843695780195716 (-22),
  ofConstant false 15056327351493116 (-23)]

/-- `sum + a₁ / (z + i) + a₂ / (z + i + 1) + …`. -/
def lanczosSum (z : Double) : (i : Nat) → List Double → Double → Except ArithmeticFault Double
  | _, [], sum => .ok sum
  | i, a :: rest, sum => do
    let term ← a.quotient (z.add (ofNat i))
    lanczosSum z (i + 1) rest (sum.add term)

def half : Double := ofConstant false 5 (-1)

/-- Gamma of a number that is not below one half, or of a NaN. -/
def gammaRight (z : Double) : Except ArithmeticFault Double := do
  let z := z.sub (ofNat 1)
  let x ← lanczosSum z 1 lanczosTerms lanczosBase
  let t := (z.add (ofNat 7)).add half
  let root ← squareRoot ((ofNat 2).mul pi)
  let power ← pow t (z.add half)
  let decay ← exp t.neg
  return ((root.mul power).mul decay).mul x

def gamma (z : Double) : Except ArithmeticFault Double :=
  if z.lt half then do
    let s ← sin (pi.mul z)
    let g ← gammaRight ((ofNat 1).sub z)
    pi.quotient (s.mul g)
  else gammaRight z

/-- The coefficients of the error function, the last one first. -/
def erfTerms : List Double := [
  ofConstant false 1061405429 (-9),
  ofConstant true 1453152027 (-9),
  ofConstant false 1421413741 (-9),
  ofConstant true 284496736 (-9),
  ofConstant false 254829592 (-9)]

def erf (x : Double) : Except ArithmeticFault Double := do
  let sign := if x.lt zero then (ofNat 1).neg else ofNat 1
  let x := x.abs
  let t ← (ofNat 1).quotient ((ofNat 1).add ((ofConstant false 3275911 (-7)).mul x))
  let polynomial := erfTerms.foldl (fun p a => (p.add a).mul t) zero
  let decay ← exp (x.neg.mul x)
  return sign.mul ((ofNat 1).sub (polynomial.mul decay))

def choose (n r : Double) : Except ArithmeticFault Double := do
  let top ← gamma (n.add (ofNat 1))
  let left ← gamma (r.add (ofNat 1))
  let right ← gamma ((n.sub r).add (ofNat 1))
  top.quotient (left.mul right)

def arrange (n r : Double) : Except ArithmeticFault Double := do
  let top ← gamma (n.add (ofNat 1))
  let bottom ← gamma ((n.sub r).add (ofNat 1))
  top.quotient bottom

end DeskCalculator.Double
