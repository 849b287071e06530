import StackCalc.Library

/-!
# Written numbers

A number is written with the digits of a decimal that reads back as the number, in one of three
notations:

* positional: digits and, if need be, a point, never an exponent; this is how values are shown,
  with the decimal of the library, and it is what the calculator reads;
* floating: positional with at least one place when the decimal exponent lies in `[-4, 16)`,
  and otherwise with an exponent of at least two digits; this is how literals are shown;
* constant: an integer below `10 ^ 16` plainly, any other number in floating notation; this is
  how pooled constants are shown.
-/

namespace StackCalc

/-- The digits of a natural number in base ten. -/
def decimalDigits (n : Nat) : List Char := Nat.toDigits 10 n

/-- A whole number in base ten. -/
def decimalText (n : Nat) : String := String.ofList (decimalDigits n)

/-- An integer in base ten. -/
def integerText (n : Int) : String :=
  if n < 0 then "-" ++ decimalText n.natAbs else decimalText n.natAbs

namespace Decimal

/-- The decimal without an exponent; a point stands only before a digit. -/
def positional (d : Decimal) : List Char :=
  let digits := decimalDigits d.digits
  if 0 ≤ d.exponent then digits ++ List.replicate d.exponent.natAbs '0'
  else
    let places := d.exponent.natAbs
    if places < digits.length then
      digits.take (digits.length - places) ++ '.' :: digits.drop (digits.length - places)
    else '0' :: '.' :: (List.replicate (places - digits.length) '0' ++ digits)

/-- The exponent of a decimal written with one digit before the point. -/
def scientificExponent (d : Decimal) : Int :=
  d.exponent + (decimalDigits d.digits).length - 1

/-- The decimal with one digit before the point and a signed exponent of two or more digits. -/
def scientific (d : Decimal) : List Char :=
  let mantissa :=
    match decimalDigits d.digits with
    | [] => []
    | [first] => [first]
    | first :: rest => first :: '.' :: rest
  let sign := if d.scientificExponent < 0 then '-' else '+'
  let exponent := decimalDigits d.scientificExponent.natAbs
  mantissa ++ 'e' :: sign :: (List.replicate (2 - exponent.length) '0' ++ exponent)

def floating (d : Decimal) : List Char :=
  if d.scientificExponent < -4 || 16 ≤ d.scientificExponent then d.scientific
  else if 0 ≤ d.exponent then d.positional ++ ['.', '0']
  else d.positional

end Decimal

namespace Binary64

def signText (x : Binary64) : List Char := if x.negative then ['-'] else []

def specialText (x : Binary64) : List Char :=
  if x.isNaN then "nan".toList else x.signText ++ "inf".toList

/-- A number as values are shown: positional, with a plain zero. -/
def text [Library] (x : Binary64) : String :=
  String.ofList <|
    if !x.isFinite then x.specialText
    else if x.isZero then ['0']
    else x.signText ++ (Library.decimal x).positional

/-- A number as literals are shown: in floating notation, with the sign of zero. -/
def literalText (x : Binary64) : String :=
  String.ofList <|
    if x.isFinite then x.signText ++ x.shortestDecimal.floating else x.specialText

/-- The least whole number, `10 ^ 16`, that is not shown plainly as a pooled constant. -/
def plainLimit : Nat := 10000000000000000

/-- A number as pooled constants are shown: a small integer plainly, else as a literal. -/
def constantText (x : Binary64) : String :=
  if x.isInteger && x.wholePart < plainLimit then integerText x.truncate else x.literalText

end Binary64

end StackCalc
