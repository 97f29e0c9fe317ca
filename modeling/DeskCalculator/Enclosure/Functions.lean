import DeskCalculator.Enclosure.Series

/-!
# Elementary functions on quotients

Enclosures with `b` places of the elementary functions at a quotient `n / d` of whole numbers. Each
first reduces its argument: the logarithm by a power of two, the exponential by a multiple of the
logarithm of two, sine and cosine by a multiple of a quarter turn, the arc tangent by a reciprocal.
The functions work with `guard` places more than asked for.
-/

namespace DeskCalculator.Enclosure

/-- Places kept beyond those asked for. -/
def guard : Nat := 40

/-! ## Constants -/

/-- The logarithm of two, `2 * atanh (1 / 3)`. -/
def ln2 (b : Nat) : Enclosure :=
  let w := b + guard
  ((atanhSmall w (ofRatio w 1 3)).scale 2).dropPlaces guard

/-- The logarithm of ten, `3 * ln 2 + 2 * atanh (1 / 9)`. -/
def ln10 (b : Nat) : Enclosure :=
  let w := b + guard
  (((ln2 w).scale 3).add ((atanhSmall w (ofRatio w 1 9)).scale 2)).dropPlaces guard

/-- The number pi, `16 * atan (1 / 5) - 4 * atan (1 / 239)`. -/
def pi (b : Nat) : Enclosure :=
  let w := b + guard
  (((atanSmall w 1 5).scale 16).sub ((atanSmall w 1 239).scale 4)).dropPlaces guard

/-! ## Exponential and logarithm -/

def exp (b : Nat) (n : Int) (d : Nat) : Enclosure :=
  let k := floorDiv (n * 144269504088896340736) (d * 100000000000000000000)
  let w := b + guard + k.toNat + k.natAbs.log2
  let rest := (ofRatio w n d).sub ((ln2 w).scale k)
  (expSmall w rest).dropPlaces (w - b - k).toNat

/-- The exponential of a number between the ends of an enclosure. -/
def expOf (b : Nat) (x : Enclosure) : Enclosure :=
  hull (exp b x.lo (Nat.pow 2 b)) (exp b x.hi (Nat.pow 2 b))

/-- The natural logarithm of a positive quotient. -/
def log (b n d : Nat) : Enclosure :=
  let k : Int := (n.log2 : Int) - d.log2
  let w := b + guard + k.natAbs.log2
  let p := n * Nat.pow 2 (-k).toNat
  let q := d * Nat.pow 2 k.toNat
  let u := ofRatio w ((p : Int) - q) (p + q)
  (((atanhSmall w u).scale 2).add ((ln2 w).scale k)).dropPlaces (w - b)

def log10 (b n d : Nat) : Enclosure :=
  let w := b + guard
  ((log w n d).div w (ln10 w)).dropPlaces guard

/-! ## Circular functions -/

def atan (b : Nat) (n : Int) (d : Nat) : Enclosure :=
  let w := b + guard
  let p := n.natAbs
  let positive := if p ≤ d then atanSmall w p d
    else ((pi w).divNat 2).sub (atanSmall w d p)
  (if n < 0 then positive.neg else positive).dropPlaces guard

/-- The whole number of quarter turns nearest to the angle `n / d`, and the angle left. -/
def quarterTurns (b : Nat) (n : Int) (d : Nat) : Int × Enclosure :=
  let size := n.natAbs.log2
  let coarse := (pi (size + 20)).lo
  -- The nearest whole number to `2 * n / (d * pi)`.
  let k := floorDiv (2 * (2 * n * Nat.pow 2 (size + 20)) + d * coarse) (2 * d * coarse.toNat)
  let extra := k.natAbs.log2 + 1
  let w := b + extra
  let turn := ((pi w).scale k).divNat 2
  (k, ((ofRatio w n d).sub turn).dropPlaces extra)

def sinCos (b : Nat) (n : Int) (d : Nat) : Enclosure × Enclosure :=
  let w := b + guard
  let (k, rest) := quarterTurns w n d
  let s := (sinSmall w rest).dropPlaces guard
  let c := (cosSmall w rest).dropPlaces guard
  match k % 4 with
  | 0 => (s, c)
  | 1 => (c, s.neg)
  | 2 => (s.neg, c.neg)
  | _ => (c.neg, s)

def sin (b : Nat) (n : Int) (d : Nat) : Enclosure := (sinCos b n d).1

def cos (b : Nat) (n : Int) (d : Nat) : Enclosure := (sinCos b n d).2

/-- The tangent of an angle. Where the cosine's enclosure touches zero there is none, and the hull
of all numbers of a wide range stands for it. -/
def tan (b : Nat) (n : Int) (d : Nat) : Enclosure :=
  let w := 2 * b + guard
  let (s, c) := sinCos w n d
  if 0 < c.lo then (s.div w c).dropPlaces (w - b)
  else if c.hi < 0 then (s.neg.div w c.neg).dropPlaces (w - b)
  else ⟨-Nat.pow 2 (2 * b), Nat.pow 2 (2 * b)⟩

/-- The arc sine of `n / d`, of magnitude at most one: the arc tangent of
`n / sqrt (d ^ 2 - n ^ 2)`. -/
def asin (b : Nat) (n : Int) (d : Nat) : Enclosure :=
  if n.natAbs = d then
    let half := (pi (b + 1)).dropPlaces 1
    let quarter := half.divNat 2
    if n < 0 then quarter.neg else quarter
  else
    let root := ((d * d - n.natAbs * n.natAbs) * Nat.pow 4 (b + guard)).sqrt
    let scaled := n * Nat.pow 2 (b + guard)
    if 0 ≤ n then hull (atan b scaled (root + 1)) (atan b scaled root)
    else hull (atan b scaled root) (atan b scaled (root + 1))

/-- The arc cosine, a quarter turn less the arc sine. -/
def acos (b : Nat) (n : Int) (d : Nat) : Enclosure :=
  let w := b + guard
  (((pi w).divNat 2).sub (asin w n d)).dropPlaces guard

/-! ## Hyperbolic functions -/

def sinh (b : Nat) (n : Int) (d : Nat) : Enclosure :=
  let w := b + guard
  (((exp w n d).sub (exp w (-n) d)).divNat 2).dropPlaces guard

def cosh (b : Nat) (n : Int) (d : Nat) : Enclosure :=
  let w := b + guard
  (((exp w n d).add (exp w (-n) d)).divNat 2).dropPlaces guard

/-- The hyperbolic tangent, `(e - 1) / (e + 1)` for `e = exp (2 * n / d)`. -/
def tanh (b : Nat) (n : Int) (d : Nat) : Enclosure :=
  let w := b + guard
  let e := exp w (2 * n) d
  ((e.sub (ofInt w 1)).div w (e.add (ofInt w 1))).dropPlaces guard

/-- The logarithm of `(n + sqrt m) / d` for natural numbers, not all zero. -/
def logWithRoot (b n m d : Nat) : Enclosure :=
  let w := b + guard
  let root := (m * Nat.pow 4 w).sqrt
  let scaled := n * Nat.pow 2 w + root
  hull (log b scaled (d * Nat.pow 2 w)) (log b (scaled + 1) (d * Nat.pow 2 w))

def asinh (b : Nat) (n : Int) (d : Nat) : Enclosure :=
  let p := n.natAbs
  let positive := logWithRoot b p (p * p + d * d) d
  if n < 0 then positive.neg else positive

def acosh (b n d : Nat) : Enclosure := logWithRoot b n (n * n - d * d) d

def atanh (b : Nat) (n : Int) (d : Nat) : Enclosure :=
  let w := b + 1
  ((log w (d + n).toNat (d - n).toNat).divNat 2).dropPlaces 1

end DeskCalculator.Enclosure
