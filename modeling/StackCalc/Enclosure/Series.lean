import StackCalc.Enclosure.Basic

/-!
# Series

All power series of this library are evaluated in nested form,

    1 + z * r 1 * (1 + z * r 2 * (1 + z * r 3 * ⋯)),

where every product `z * r k` lies in `[-1/2, 1/2]`.  Each bracket then lies in `[0, 2]`, so the
tail that is cut off is replaced by that enclosure and the sum needs no separate error bound.

The functions of this module take arguments that are already small and give enclosures at the
same precision.
-/

namespace StackCalc

namespace Enclosure

/-- The ratio `r k` of a nested series, as numerator and denominator. -/
abbrev Ratios := Nat → Nat × Nat

/-- The brackets of a nested series from the `k`-th on, cut off after `terms` of them. -/
def nestedFrom (p : Nat) (z : Enclosure) (ratios : Ratios) : (terms k : Nat) → Enclosure
  | 0, _ => ⟨0, 2 <<< p⟩
  | terms + 1, k =>
    let (num, den) := ratios k
    add (ofInt p 1) ((mul p z (nestedFrom p z ratios terms (k + 1))).mulRatio num den)

/-- A nested series whose products fall by `bits` bits a term, with terms enough for the
precision. -/
def nested (p bits : Nat) (z : Enclosure) (ratios : Ratios) : Enclosure :=
  nestedFrom p z ratios (p / bits + 4) 1

/-- The ratios of the exponential series in `x`. -/
def exponentialRatios : Ratios := fun k => (1, k)

/-- The ratios of `sin x / x` in `-x ^ 2` and of `sinh x / x` in `x ^ 2`. -/
def sineRatios : Ratios := fun k => (1, 2 * k * (2 * k + 1))

/-- The ratios of `cos x` in `-x ^ 2` and of `cosh x` in `x ^ 2`. -/
def cosineRatios : Ratios := fun k => (1, (2 * k - 1) * (2 * k))

/-- The ratios of `artanh t / t` in `t ^ 2`. -/
def artanhRatios : Ratios := fun k => (2 * k - 1, 2 * k + 1)

/-- The ratios of `arcsin x / x` in `x ^ 2`. -/
def arcsinRatios : Ratios := fun k => ((2 * k - 1) * (2 * k - 1), 2 * k * (2 * k + 1))

/-- The ratios of `(1 + x ^ 2) * arctan x / x` in `x ^ 2 / (1 + x ^ 2)`. -/
def arctanRatios : Ratios := fun k => (2 * k, 2 * k + 1)

/-- The angle whose tangent is `1 / m`. -/
def arctanInverse (p bits m : Nat) : Enclosure :=
  (nested p bits (ofRatio p 1 (m * m + 1)) arctanRatios).mulRatio m (m * m + 1)

/-- Half a turn, by Machin's formula. -/
def pi (p : Nat) : Enclosure :=
  times 4 (sub (times 4 (arctanInverse p 4 5)) (arctanInverse p 15 239))

/-- The natural logarithm of `num / den`, which lies between `3 / 4` and `3 / 2`. -/
def lnNear (p num den : Nat) : Enclosure :=
  let t := ofRatio p ((num : Int) - den) (num + den)
  times 2 (mul p t (nested p 4 (mul p t t) artanhRatios))

def ln2 (p : Nat) : Enclosure :=
  (nested p 3 (ofRatio p 1 9) artanhRatios).mulRatio 2 3

/-- The natural logarithm of a positive number of quanta: the quanta are split into a power of
two and a factor near one. -/
def ln (p quanta : Nat) : Enclosure :=
  let top := quanta.log2
  let power := if 3 <<< top ≤ 2 * quanta then top + 1 else top
  add (times ((power : Int) - 1074) (ln2 p)) (lnNear p quanta (1 <<< power))

/-- The factor `arctan x / x` for an `x` in `[0, 1/16]`, given `x ^ 2`. -/
def arctanFactor (p : Nat) (square : Enclosure) : Option Enclosure := do
  let unit := add (ofInt p 1) square
  let z ← div? p square unit
  div? p (nested p 8 z arctanRatios) unit

/-- The tangent of half the angle with tangent `x`. -/
def halveTangent (p : Nat) (x : Enclosure) : Option Enclosure :=
  div? p x (add (ofInt p 1) (sqrt p (add (ofInt p 1) (mul p x x))))

/-- The angle whose tangent lies in `[0, 1]`, halved four times to bring the tangent below
`1 / 16`. -/
def arctan (p : Nat) (x : Enclosure) : Option Enclosure := do
  let x ← halveTangent p x
  let x ← halveTangent p x
  let x ← halveTangent p x
  let x ← halveTangent p x
  let factor ← arctanFactor p (mul p x x)
  return times 16 (mul p x factor)

/-- Squares an enclosure a number of times. -/
def squareTimes (p : Nat) : (count : Nat) → Enclosure → Enclosure
  | 0, a => a
  | count + 1, a => squareTimes p count (mul p a a)

/-- The exponential of a number between `-800` and `800`, as bounds with `p` significant bits: a
multiple of the logarithm of two is split off, and the rest is divided by `2 ^ 8`. -/
def exponential (p : Nat) (t : Enclosure) : Bounds :=
  let unit := ln2 p
  let power := (t.lo + unit.lo / 2) / unit.lo
  let rest := (sub t (times power unit)).coarsen 8
  let e := squareTimes p 8 (nested p 8 rest exponentialRatios)
  ⟨e.lo, e.hi, p - power⟩

end Enclosure

/-- The same reals as an enclosure with another number of binary places. -/
def Bounds.rescale (b : Bounds) (scale : Int) : Enclosure :=
  if scale ≤ b.scale then (⟨b.lo, b.hi⟩ : Enclosure).coarsen (b.scale - scale).toNat
  else (⟨b.lo, b.hi⟩ : Enclosure).times (1 <<< (scale - b.scale).toNat)

end StackCalc
