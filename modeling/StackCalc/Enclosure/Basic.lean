import StackCalc.Binary64.Arithmetic

/-!
# Enclosures

An enclosure holds two integers `lo` and `hi` that bound a real number in units of
`2 ^ (-p)`, where the precision `p` is fixed by the context.  Each operation rounds its lower end
down and its upper end up, so the result bounds every real number that the operation gives on
members of its arguments.

Bounds are an enclosure with a scale of its own.  They determine a binary64 number as soon as
both ends round to it, and `Bounds.settle` raises the precision until they do.
-/

namespace StackCalc

/-- The real numbers between `lo` and `hi` units. -/
structure Enclosure where
  lo : Int
  hi : Int
deriving DecidableEq

/-- The quotient by a positive divisor, rounded up. -/
def ceilDiv (a b : Int) : Int := -(-a / b)

/-- The quotient by `2 ^ bits`, rounded up. -/
def ceilShift (a : Int) (bits : Nat) : Int := -((-a) >>> bits)

namespace Enclosure

def ofInt (p : Nat) (n : Int) : Enclosure := ⟨n <<< p, n <<< p⟩

/-- The fraction `num / den` with a positive denominator. -/
def ofRatio (p : Nat) (num : Int) (den : Nat) : Enclosure :=
  ⟨num <<< p / den, ceilDiv (num <<< p) den⟩

def add (a b : Enclosure) : Enclosure := ⟨a.lo + b.lo, a.hi + b.hi⟩

def neg (a : Enclosure) : Enclosure := ⟨-a.hi, -a.lo⟩

def sub (a b : Enclosure) : Enclosure := ⟨a.lo - b.hi, a.hi - b.lo⟩

def times (n : Int) (a : Enclosure) : Enclosure :=
  if 0 ≤ n then ⟨n * a.lo, n * a.hi⟩ else ⟨n * a.hi, n * a.lo⟩

/-- The same reals in units that are `2 ^ bits` times as large. -/
def coarsen (bits : Nat) (a : Enclosure) : Enclosure := ⟨a.lo >>> bits, ceilShift a.hi bits⟩

/-- The least and the greatest of the four products of ends. -/
def product (a b : Enclosure) : Enclosure :=
  let w := a.lo * b.lo
  let x := a.lo * b.hi
  let y := a.hi * b.lo
  let z := a.hi * b.hi
  ⟨min (min w x) (min y z), max (max w x) (max y z)⟩

def mul (p : Nat) (a b : Enclosure) : Enclosure := (a.product b).coarsen p

/-- The product with the fraction `num / den` of natural numbers. -/
def mulRatio (num den : Nat) (a : Enclosure) : Enclosure :=
  ⟨a.lo * num / den, ceilDiv (a.hi * num) den⟩

/-- The quotient, if the divisor is known to be positive. -/
def div? (p : Nat) (a b : Enclosure) : Option Enclosure :=
  if 0 < b.lo then
    let lo := a.lo <<< p
    let hi := a.hi <<< p
    some ⟨lo / (if 0 ≤ lo then b.hi else b.lo), ceilDiv hi (if 0 ≤ hi then b.lo else b.hi)⟩
  else none

/-- The square root; a negative lower end counts as zero. -/
def sqrt (p : Nat) (a : Enclosure) : Enclosure :=
  ⟨floorRoot 2 (a.lo.toNat <<< p), floorRoot 2 (a.hi.toNat <<< p) + 1⟩

end Enclosure

/-- The real numbers between `lo * 2 ^ (-scale)` and `hi * 2 ^ (-scale)`. -/
structure Bounds where
  lo : Int
  hi : Int
  /-- The number of binary places. -/
  scale : Int
deriving DecidableEq

namespace Bounds

/-- The bounds of an enclosure with precision `p`. -/
def ofEnclosure (p : Nat) (e : Enclosure) : Bounds := ⟨e.lo, e.hi, p⟩

/-- The bounds of a natural number of quanta times an enclosure. -/
def ofQuanta (p : Nat) (quanta : Nat) (factor : Enclosure) : Bounds :=
  ⟨quanta * factor.lo, quanta * factor.hi, p + 1074⟩

/-- Bounds that tell nothing. -/
def unknown : Bounds := ⟨-1, 1, 0⟩

/-- Bounds of a magnitude beyond every finite number. -/
def huge : Bounds := ⟨1, 1, -1100⟩

/-- Bounds of a positive magnitude below half a quantum. -/
def tiny : Bounds := ⟨1, 1, 1100⟩

/-- The number nearest to `n * 2 ^ (-scale)`. -/
def nearest (n scale : Int) : Binary64 :=
  let quanta := n.natAbs * Binary64.quantaPerOne
  if 0 ≤ scale then Binary64.ofRatio (n < 0) quanta (1 <<< scale.natAbs)
  else Binary64.ofRatio (n < 0) (quanta <<< scale.natAbs) 1

/-- The number that both ends round to. -/
def round? (b : Bounds) : Option Binary64 :=
  let low := nearest b.lo b.scale
  let high := nearest b.hi b.scale
  if low = high then some low else none

/-- Doubles the precision until the bounds determine a number, at most `fuel` times; after that
the lower end decides. -/
def settle (bounds : (p : Nat) → Bounds) : (fuel p : Nat) → Binary64
  | 0, p => nearest (bounds p).lo (bounds p).scale
  | fuel + 1, p =>
    match (bounds p).round? with
    | some x => x
    | none => settle bounds fuel (2 * p)

/-- The number nearest to the real that the bounds enclose at every precision. -/
def limit (bounds : (p : Nat) → Bounds) : Binary64 := settle bounds 6 128

end Bounds

end StackCalc
