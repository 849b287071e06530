import StackCalc.Enclosure.Circular

/-!
# Bounds of exponentials, hyperbolic functions and logarithms

Exponentials and hyperbolic functions of large arguments are cut off where they leave the range
of finite numbers, before any power of two of that size is formed.
-/

namespace StackCalc

open Binary64 (quantaPerOne)

namespace Bounds

open Enclosure

/-- The least whole number whose exponential is beyond every finite number. -/
def exponentCeiling : Nat := 710

/-- A whole number below whose opposite the exponential is less than half a quantum. -/
def exponentFloor : Nat := 746

def exponential (negative : Bool) (quanta p : Nat) : Bounds :=
  if negative && exponentFloor * quantaPerOne ≤ quanta then tiny
  else if !negative && exponentCeiling * quantaPerOne ≤ quanta then huge
  else
    let x := Enclosure.ofQuanta p quanta
    Enclosure.exponential p (if negative then x.neg else x)

/-- The exponentials of a magnitude and of its opposite, and the scale of both. -/
def exponentialPair (quanta p : Nat) : Enclosure × Enclosure × Int :=
  let x := Enclosure.ofQuanta p quanta
  let grown := Enclosure.exponential p x
  (⟨grown.lo, grown.hi⟩, (Enclosure.exponential p x.neg).rescale grown.scale, grown.scale)

def sinh (quanta p : Nat) : Bounds :=
  if atMostHalf quanta then ofQuanta p quanta (nested p 4 (squareOfQuanta p quanta) sineRatios)
  else if (exponentCeiling + 1) * quantaPerOne ≤ quanta then huge
  else
    let (grown, shrunk, scale) := exponentialPair quanta p
    let difference := sub grown shrunk
    ⟨difference.lo, difference.hi, scale + 1⟩

def cosh (quanta p : Nat) : Bounds :=
  if atMostHalf quanta then ofEnclosure p (nested p 4 (squareOfQuanta p quanta) cosineRatios)
  else if (exponentCeiling + 1) * quantaPerOne ≤ quanta then huge
  else
    let (grown, shrunk, scale) := exponentialPair quanta p
    let total := add grown shrunk
    ⟨total.lo, total.hi, scale + 1⟩

/-- Bounds of the hyperbolic tangent of a magnitude; from 32 on it is nearest to one. -/
def tanh (quanta p : Nat) : Bounds :=
  if atMostHalf quanta then
    let square := squareOfQuanta p quanta
    ofFactor p quanta (div? p (nested p 4 square sineRatios) (nested p 4 square cosineRatios))
  else if 32 * quantaPerOne ≤ quanta then ⟨1, 1, 0⟩
  else
    let decay := (Enclosure.exponential p (Enclosure.ofQuanta p (2 * quanta)).neg).rescale p
    let unit := Enclosure.ofInt p 1
    ofOption p (div? p (sub unit decay) (add unit decay))

def ln (quanta p : Nat) : Bounds := ofEnclosure p (Enclosure.ln p quanta)

/-- Bounds of the logarithm of a positive magnitude to a base above one. -/
def log (base quanta p : Nat) : Bounds :=
  ofOption p (div? p (Enclosure.ln p quanta) (Enclosure.ln p (base * quantaPerOne)))

end Bounds

end StackCalc
