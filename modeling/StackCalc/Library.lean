import StackCalc.Binary64.Elementary
import StackCalc.Decimal.Shortest
import StackCalc.Reduction

/-!
# Libraries

The calculator does not compute everything itself.  It takes the elementary functions, the cube
root, the sums and extremes of arrays and the decimals in which values are shown from a library.
How programs are compiled and run, where they fail and what is logged and reported does not depend
on the library; of results that are not finite the machine itself makes errors.

The standard library rounds the elementary functions to the nearest number, adds up arrays in
blocks, and shows the shortest decimals.
-/

namespace StackCalc

/-- The functions that the calculator takes from a library. -/
class Library where
  sin : Binary64 → Binary64
  cos : Binary64 → Binary64
  tan : Binary64 → Binary64
  arcsin : Binary64 → Binary64
  arccos : Binary64 → Binary64
  arctan : Binary64 → Binary64
  sinh : Binary64 → Binary64
  cosh : Binary64 → Binary64
  tanh : Binary64 → Binary64
  exp : Binary64 → Binary64
  ln : Binary64 → Binary64
  log2 : Binary64 → Binary64
  log10 : Binary64 → Binary64
  pow : (base exponent : Binary64) → Binary64
  cbrt : Binary64 → Binary64
  sum : List Binary64 → Binary64
  least : List Binary64 → Binary64
  greatest : List Binary64 → Binary64
  /-- The decimal with which the magnitude of a finite number is shown. -/
  decimal : Binary64 → Decimal

namespace Library

instance standard : Library where
  sin := Binary64.sin
  cos := Binary64.cos
  tan := Binary64.tan
  arcsin := Binary64.arcsin
  arccos := Binary64.arccos
  arctan := Binary64.arctan
  sinh := Binary64.sinh
  cosh := Binary64.cosh
  tanh := Binary64.tanh
  exp := Binary64.exp
  ln := Binary64.ln
  log2 := Binary64.log2
  log10 := Binary64.log10
  pow := Binary64.pow
  cbrt := Binary64.cbrt
  sum := Reduction.sum
  least := Reduction.extreme fun x best => x.less best
  greatest := Reduction.extreme fun x best => best.less x
  decimal := Binary64.shortestDecimal

/-- What the calculator relies on: only at one is a logarithm zero, and the decimal of a number
reads back as its magnitude. -/
class Lawful [Library] : Prop where
  isZero_ln {x : Binary64} :
    x.atMost .zero = false → x.equals .one = false → (Library.ln x).isZero = false
  toBinary64_decimal {x : Binary64} :
    x.isFinite = true → x.isZero = false → (Library.decimal x).toBinary64 = x.abs

end Library

end StackCalc
