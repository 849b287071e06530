import StackCalc.Binary64.Rounding

/-!
# Shortest decimals

`Binary64.shortestDecimal` gives a finite number as the decimal with the fewest digits that
reads back as the same magnitude, and among those the one nearest to it.

A decimal with `n` significant digits lies on a grid of powers of ten.  If any point of that
grid reads back, then so does one of the two points next to the number, so the search looks at
these two for `n = 1, 2, …, 17` and takes the first grid with a hit.  The exact expansion stands
behind the search, hence every result reads back whatever the grids hold.
-/

namespace StackCalc

/-- The number `digits * 10 ^ exponent`. -/
structure Decimal where
  digits : Nat
  exponent : Int
deriving DecidableEq, Inhabited

namespace Decimal

def toBinary64 (d : Decimal) : Binary64 := Binary64.ofDecimal d.digits d.exponent

/-- Removes up to `fuel` trailing zeros of `digits` into the exponent. -/
def trimZeros : (fuel : Nat) → (digits : Nat) → (exponent : Int) → Decimal
  | 0, digits, exponent => ⟨digits, exponent⟩
  | fuel + 1, digits, exponent =>
    if digits % 10 = 0 then trimZeros fuel (digits / 10) (exponent + 1) else ⟨digits, exponent⟩

end Decimal

/-- The number of decimal digits of `n`, one for zero. -/
def decimalLength (n : Nat) : Nat := (Nat.toDigits 10 n).length

namespace Binary64

/-- The decimal exponent `e` of a positive finite magnitude: it lies in
`[10 ^ (e - 1), 10 ^ e)`. -/
def decimalExponent (x : Binary64) : Int :=
  if quantaPerOne ≤ x.quanta then decimalLength x.wholePart
  else 1 - decimalLength ((quantaPerOne - 1) / x.quanta)

/-- The magnitude of `x` in units of `10 ^ exponent`, as a numerator and a denominator. -/
def inUnitsOfTen (x : Binary64) (exponent : Int) : Nat × Nat :=
  if exponent < 0 then (x.quanta * Nat.pow 10 exponent.natAbs, quantaPerOne)
  else (x.quanta, quantaPerOne * Nat.pow 10 exponent.natAbs)

/-- Whether a decimal reads back as the magnitude of `x`. -/
def readsBack (x : Binary64) (d : Decimal) : Bool := d.toBinary64.code == x.code

/-- Of the two grid points next to the magnitude of `x`, the nearest one that reads back; the
even one if both do and are equally near. -/
def gridDecimal? (x : Binary64) (exponent : Int) : Option Decimal :=
  let (num, den) := x.inUnitsOfTen exponent
  let below : Decimal := ⟨num / den, exponent⟩
  let above : Decimal := ⟨num / den + 1, exponent⟩
  if x.readsBack below then
    if x.readsBack above then some ⟨nearestEven num den, exponent⟩ else some below
  else if x.readsBack above then some above
  else none

/-- The first hit on the grids of `count`, `count + 1`, … digits, for `fuel` grids. -/
def searchGrids (x : Binary64) (top : Int) : (fuel count : Nat) → Option Decimal
  | 0, _ => none
  | fuel + 1, count =>
    match x.gridDecimal? (top - count) with
    | some d => some d
    | none => searchGrids x top fuel (count + 1)

/-- The magnitude of a finite number with all its digits, since one quantum is
`5 ^ 1074 / 10 ^ 1074`. -/
def exactDecimal (x : Binary64) : Decimal := ⟨x.quanta * Nat.pow 5 1074, -1074⟩

/-- The shortest decimal that reads back as the magnitude of a finite number. -/
def shortestDecimal (x : Binary64) : Decimal :=
  if x.isZero then ⟨0, 0⟩
  else
    match x.searchGrids x.decimalExponent 17 1 with
    | some d => Decimal.trimZeros 17 d.digits d.exponent
    | none => x.exactDecimal

end Binary64

end StackCalc
