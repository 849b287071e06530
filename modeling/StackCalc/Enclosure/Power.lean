import StackCalc.Enclosure.Exponential

/-!
# Bounds of powers

A power of a positive number is the exponential of a product with its logarithm.  Unlike the
other elementary functions, a power can lie exactly halfway between two binary64 numbers, where
no precision settles it.  Such a power has a significand of at most 54 bits, so its base and
exponent are of a form that is recognised and computed exactly.
-/

namespace StackCalc

open Binary64 (quantaPerOne)

/-- A positive number as an odd number and the power of two it is multiplied with, found in at
most `fuel` halvings. -/
def oddPart : (fuel n : Nat) → Nat × Nat
  | 0, n => (n, 0)
  | fuel + 1, n =>
    if n % 2 = 0 then
      let (odd, power) := oddPart fuel (n / 2)
      (odd, power + 1)
    else (n, 0)

namespace Bounds

open Enclosure

/-- The number `root ^ exponent * 2 ^ power` for an odd root, if its significand has at most 54
bits. -/
def shortPower? (root : Nat) (exponent power : Int) : Option Bounds :=
  if root = 1 then
    if 1100 < power then some huge
    else if power < -1100 then some tiny
    else some ⟨1, 1, -power⟩
  else if exponent < 0 || 54 < exponent then none
  else
    let significand : Nat := Nat.pow root exponent.toNat
    if 1 <<< 54 < significand then none else some ⟨significand, significand, -power⟩

/-- The power of a positive magnitude if its significand has at most 54 bits; the exponent, in
quanta, is not zero.  With the base `odd * 2 ^ e` and the exponent `n / 2 ^ j`, such a power
needs a whole `2 ^ j`-th root of the odd part and an `e` that is a multiple of `2 ^ j`. -/
def exactPower? (quanta : Nat) (exponent : Int) : Option Bounds :=
  let (odd, power) := oddPart 2100 quanta
  let (part, twos) := oddPart 2100 exponent.natAbs
  let roots := 1074 - twos
  let count : Int := (part <<< (twos - 1074) : Nat) * exponent.sign
  if 11 < roots then none
  else
    let degree := 1 <<< roots
    let root := floorRoot degree odd
    let shift : Int := power - 1074
    if Nat.pow root degree = odd ∧ shift % (degree : Int) = 0 then
      shortPower? root count (shift / (degree : Int) * count)
    else none

/-- Bounds of the power of a positive magnitude to an exponent in quanta.  The logarithm carries
as many further bits as the exponent has before its point. -/
def power (quanta : Nat) (exponent : Int) (p : Nat) : Bounds :=
  let extra := (exponent.natAbs / quantaPerOne).log2 + 12
  let t := (times exponent (Enclosure.ln (p + extra) quanta)).coarsen (1074 + extra)
  if (exponentCeiling : Int) <<< p ≤ t.lo then huge
  else if t.hi ≤ -((exponentFloor : Int) <<< p) then tiny
  else Enclosure.exponential p t

end Bounds

end StackCalc
