import StackCalc.Binary64.Basic

/-!
# Rounding to the nearest binary64 number

`codeOfRatio num den` is the code of the binary64 number nearest to `num / den` quanta, with a
tie going to the even significand.  When the quotient has more than 53 bits, its excess low bits
are dropped in the rounding; the number of dropped bits is also the exponent field less one, so
the code is the dropped count times `2 ^ 52` plus the rounded significand.  A significand that
rounds up to `2 ^ 53` carries into the field by itself.

Since the numerator and denominator are exact, every operation that ends here is correctly
rounded.
-/

namespace StackCalc

/-- The integer nearest to `num / den`, where a half goes to the even neighbour. -/
def nearestEven (num den : Nat) : Nat :=
  let floor := num / den
  let rest := num % den
  if 2 * rest < den then floor
  else if 2 * rest = den then floor + floor % 2
  else floor + 1

namespace Binary64

/-- The number of low bits by which a magnitude of `whole` quanta exceeds a significand. -/
def excessBits (whole : Nat) : Nat :=
  if whole < 2 * hiddenBit then 0 else whole.log2 - 52

/-- The code of the number nearest to `num / den` quanta. -/
def codeOfRatio (num den : Nat) : Nat :=
  let excess := excessBits (num / den)
  excess * hiddenBit + nearestEven num (den <<< excess)

/-- The number of a given sign nearest to `num / den` quanta, infinite when that is out of
range. -/
def ofRatio (negative : Bool) (num den : Nat) : Binary64 :=
  ofCode negative (codeOfRatio num den)

/-- The number nearest to an integer count of quanta, with the given sign for zero. -/
def ofSignedQuanta (zeroSign : Bool) (quanta : Int) : Binary64 :=
  if quanta = 0 then ofCode zeroSign 0 else ofRatio (quanta < 0) quanta.natAbs 1

def ofNat (n : Nat) : Binary64 := ofRatio false (n * quantaPerOne) 1

/-- The number nearest to an integer; zero is positive. -/
def ofInt (n : Int) : Binary64 := ofRatio (n < 0) (n.natAbs * quantaPerOne) 1

/-- The number nearest to `digits * 10 ^ exponent`. -/
def ofDecimal (digits : Nat) (exponent : Int) : Binary64 :=
  if exponent < 0 then ofRatio false (digits * quantaPerOne) (Nat.pow 10 exponent.natAbs)
  else ofRatio false (digits * Nat.pow 10 exponent.natAbs * quantaPerOne) 1

end Binary64

end StackCalc
