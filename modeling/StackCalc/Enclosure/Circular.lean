import StackCalc.Enclosure.Series

/-!
# Bounds of circular functions

The arguments are magnitudes in quanta, since every function here is odd or even or, for the
angle of a given cosine, symmetric about a quarter turn.

A magnitude up to one half is not converted to an enclosure: an odd function is the exact
argument times an enclosure near one, so its relative precision does not depend on the size of
the argument.  A larger magnitude is first reduced by quarter turns.
-/

namespace StackCalc

open Binary64 (quantaPerOne)

namespace Enclosure

def ofQuanta (p quanta : Nat) : Enclosure := ofRatio p quanta quantaPerOne

def squareOfQuanta (p quanta : Nat) : Enclosure :=
  ofRatio p (quanta * quanta) (quantaPerOne * quantaPerOne)

/-- Half a half turn. -/
def quarterTurn (p : Nat) : Enclosure := (pi p).mulRatio 1 2

/-- The factor `sin x / x`, given `x ^ 2`. -/
def sineFactor (p : Nat) (square : Enclosure) : Enclosure := nested p 4 square.neg sineRatios

/-- The cosine of `x`, given `x ^ 2`. -/
def cosine (p : Nat) (square : Enclosure) : Enclosure := nested p 4 square.neg cosineRatios

/-- The number of quarter turns nearest to a magnitude and what remains of it; the reduction
carries as many further bits as the magnitude has before its point. -/
def reduceAngle (p quanta : Nat) : Int × Enclosure :=
  let extra := (quanta / quantaPerOne).log2 + 8
  let x := ofQuanta (p + extra) quanta
  let turn := quarterTurn (p + extra)
  let count := (x.lo + turn.lo / 2) / turn.lo
  (count, (sub x (times count turn)).coarsen extra)

/-- The sine and the cosine of a magnitude beyond one half. -/
def sineCosine (p quanta : Nat) : Enclosure × Enclosure :=
  let (count, rest) := reduceAngle p quanta
  let square := mul p rest rest
  let s := mul p rest (sineFactor p square)
  let c := cosine p square
  if count % 4 = 0 then (s, c)
  else if count % 4 = 1 then (c, s.neg)
  else if count % 4 = 2 then (s.neg, c.neg)
  else (c.neg, s)

/-- The quotient by a divisor of known sign. -/
def divSigned? (p : Nat) (a b : Enclosure) : Option Enclosure :=
  if b.hi < 0 then div? p a.neg b.neg else div? p a b

/-- The angle whose cosine is a given magnitude, at most one, by the tangent of its half. -/
def arccos (p quanta : Nat) : Option Enclosure := do
  let square := ofRatio p (quantaPerOne - quanta : Nat) (quantaPerOne + quanta)
  return times 2 (← arctan p (sqrt p square))

end Enclosure

namespace Bounds

open Enclosure

def atMostHalf (quanta : Nat) : Bool := 2 * quanta ≤ quantaPerOne

def atMostSixteenth (quanta : Nat) : Bool := 16 * quanta ≤ quantaPerOne

/-- The bounds of an enclosure that a division may have failed to give. -/
def ofOption (p : Nat) : Option Enclosure → Bounds
  | some e => ofEnclosure p e
  | none => unknown

/-- The bounds of a number of quanta times such an enclosure. -/
def ofFactor (p quanta : Nat) : Option Enclosure → Bounds
  | some factor => ofQuanta p quanta factor
  | none => unknown

def sine (quanta p : Nat) : Bounds :=
  if atMostHalf quanta then ofQuanta p quanta (sineFactor p (squareOfQuanta p quanta))
  else ofEnclosure p (sineCosine p quanta).1

def cosine (quanta p : Nat) : Bounds :=
  if atMostHalf quanta then ofEnclosure p (Enclosure.cosine p (squareOfQuanta p quanta))
  else ofEnclosure p (sineCosine p quanta).2

def tangent (quanta p : Nat) : Bounds :=
  if atMostHalf quanta then
    let square := squareOfQuanta p quanta
    ofFactor p quanta (div? p (sineFactor p square) (Enclosure.cosine p square))
  else
    let (s, c) := sineCosine p quanta
    ofOption p (divSigned? p s c)

/-- Bounds of the angle whose tangent is a given magnitude; beyond one it is the complement of
the angle with the inverse tangent. -/
def arctan (quanta p : Nat) : Bounds :=
  if atMostSixteenth quanta then
    ofFactor p quanta (arctanFactor p (squareOfQuanta p quanta))
  else if quanta ≤ quantaPerOne then
    ofOption p (Enclosure.arctan p (Enclosure.ofQuanta p quanta))
  else
    ofOption p <| (Enclosure.arctan p (Enclosure.ofRatio p quantaPerOne quanta)).map fun angle =>
      sub (quarterTurn p) angle

/-- Bounds of the angle whose cosine is a given number, at most one in magnitude. -/
def arccos (negative : Bool) (quanta p : Nat) : Bounds :=
  ofOption p <| (Enclosure.arccos p quanta).map fun angle =>
    if negative then sub (pi p) angle else angle

/-- Bounds of the angle whose sine is a given magnitude, at most one. -/
def arcsin (quanta p : Nat) : Bounds :=
  if atMostSixteenth quanta then
    ofQuanta p quanta (nested p 8 (squareOfQuanta p quanta) arcsinRatios)
  else
    ofOption p <| (Enclosure.arccos p quanta).map fun angle => sub (quarterTurn p) angle

end Bounds

end StackCalc
