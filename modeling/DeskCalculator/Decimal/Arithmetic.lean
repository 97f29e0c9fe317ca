import DeskCalculator.Decimal.Basic

/-!
# Decimal arithmetic

Each operation takes the exact result and rounds it once with the context. Where an operand is not a
number the result is one too; an operation without a result, such as the difference of two
infinities, gives a NaN without payload.
-/

namespace DeskCalculator

namespace Decimal

def invalid : Decimal := nan false false 0

def isNaN : Decimal → Bool
  | nan .. => true
  | _ => false

def isSignaling : Decimal → Bool
  | nan _ signaling _ => signaling
  | _ => false

end Decimal

namespace Context

open Decimal

variable (ctx : Context)

/-- A NaN as a result: no longer signaling, its payload cut to the precision. -/
def quiet : Decimal → Decimal
  | nan s _ payload => nan s false (payload % Nat.pow 10 ctx.precision)
  | x => x

/-- The NaN that two operands pass on: a signaling one first, else the left one first. -/
def passNaN (a b : Decimal) : Decimal :=
  if a.isSignaling then ctx.quiet a
  else if b.isSignaling then ctx.quiet b
  else if a.isNaN then ctx.quiet a
  else ctx.quiet b

/-- The number rounded to the context. Zero loses its sign. -/
def plus : Decimal → Decimal
  | finite s c e => ctx.round (s && c != 0) c e
  | infinite s => infinite s
  | x => ctx.quiet x

/-- The opposite number, rounded. Zero loses its sign. -/
def minus : Decimal → Decimal
  | finite s c e => ctx.round (!s && c != 0) c e
  | infinite s => infinite (!s)
  | x => ctx.quiet x

/-- The magnitude, rounded. A NaN keeps its sign. -/
def abs : Decimal → Decimal
  | finite _ c e => ctx.round false c e
  | infinite _ => infinite false
  | x => ctx.quiet x

/-- A sum of two signed coefficients of one exponent. A zero sum of opposite signs is positive. -/
def addAligned (s : Bool) (c : Nat) (t : Bool) (d : Nat) (e : Int) : Decimal :=
  if s = t then ctx.round s (c + d) e
  else if d < c then ctx.round s (c - d) e
  else if c < d then ctx.round t (d - c) e
  else ctx.round false 0 e

/-- A sum where the first operand has the larger exponent. If the second lies wholly below what
rounding can see, a single unit just below that place stands for it. -/
def addOrdered (s : Bool) (c : Nat) (e : Int) (t : Bool) (d : Nat) (f : Int) : Decimal :=
  if c = 0 then ctx.addAligned s 0 t d f
  else
    let digits := Numeral.digitCount c
    let unseen := e - 1 + (if ctx.precision < digits then 0 else (digits : Int) - ctx.precision - 1)
    if leadingExponent d f < unseen then
      ctx.addAligned s (c * Nat.pow 10 (e - unseen).toNat) t (if d = 0 then 0 else 1) unseen
    else
      ctx.addAligned s (c * Nat.pow 10 (e - f).toNat) t d f

def addFinite (s : Bool) (c : Nat) (e : Int) (t : Bool) (d : Nat) (f : Int) : Decimal :=
  if f ≤ e then ctx.addOrdered s c e t d f else ctx.addOrdered t d f s c e

def add : Decimal → Decimal → Decimal
  | finite s c e, finite t d f => ctx.addFinite s c e t d f
  | infinite s, infinite t => if s = t then infinite s else invalid
  | infinite s, finite .. => infinite s
  | finite .., infinite t => infinite t
  | a, b => ctx.passNaN a b

def sub : Decimal → Decimal → Decimal
  | finite s c e, finite t d f => ctx.addFinite s c e (!t) d f
  | infinite s, infinite t => if s = !t then infinite s else invalid
  | infinite s, finite .. => infinite s
  | finite .., infinite t => infinite (!t)
  | a, b => ctx.passNaN a b

def mul : Decimal → Decimal → Decimal
  | finite s c e, finite t d f => ctx.round (s != t) (c * d) (e + f)
  | infinite s, infinite t => infinite (s != t)
  | infinite s, finite t d _ => if d = 0 then invalid else infinite (s != t)
  | finite s c _, infinite t => if c = 0 then invalid else infinite (s != t)
  | a, b => ctx.passNaN a b

/-- A quotient of nonzero finite decimals. An exact quotient has the exponent nearest to the
difference of the exponents that can hold it. -/
def divFinite (s : Bool) (c : Nat) (e : Int) (t : Bool) (d : Nat) (f : Int) : Decimal :=
  let ideal := e - f
  let shift := (Numeral.digitCount d : Int) - Numeral.digitCount c + ctx.precision + 1
  let n := c * Nat.pow 10 shift.toNat
  let m := d * Nat.pow 10 (-shift).toNat
  let q := n / m
  if n % m = 0 then
    let zeros := Numeral.trailingZeros q shift.toNat
    ctx.round (s != t) (q / Nat.pow 10 zeros) (ideal - shift + zeros)
  else
    -- A last digit 0 or 5 is raised so that rounding sees that the quotient lies above it.
    ctx.round (s != t) (if q % 5 = 0 then q + 1 else q) (ideal - shift)

def div : Decimal → Decimal → Decimal
  | finite s c e, finite t d f =>
    if d = 0 then (if c = 0 then invalid else infinite (s != t))
    else if c = 0 then ctx.round (s != t) 0 (e - f)
    else ctx.divFinite s c e t d f
  | infinite _, infinite _ => invalid
  | infinite s, finite t .. => infinite (s != t)
  | finite s .., infinite t => finite (s != t) 0 ctx.tiny
  | a, b => ctx.passNaN a b

end Context

end DeskCalculator
