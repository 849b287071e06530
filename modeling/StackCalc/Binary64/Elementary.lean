import StackCalc.Enclosure.Power

/-!
# Elementary functions

The elementary functions give the binary64 number nearest to their real value, found from
bounds of that value.  Apart from powers, no value of these functions at a finite number is
halfway between two binary64 numbers, so some precision settles every one of them.

NaN, the infinities and the zeros are treated first.  A function gives NaN where it has no real
value.
-/

namespace StackCalc

namespace Binary64

/-- An odd function, whose zeros keep their sign, from its values on positive magnitudes. -/
def oddFunction (x : Binary64) (value : Nat → Binary64) : Binary64 :=
  if x.isZero then x
  else
    let magnitude := value x.quanta
    if x.negative then magnitude.neg else magnitude

/-- The sine of an angle in radians; infinity has none. -/
def sin (x : Binary64) : Binary64 :=
  if !x.isFinite then nan else x.oddFunction fun q => Bounds.limit (Bounds.sine q)

/-- The cosine of an angle in radians; infinity has none. -/
def cos (x : Binary64) : Binary64 :=
  if !x.isFinite then nan else Bounds.limit (Bounds.cosine x.quanta)

/-- The tangent of an angle in radians; infinity has none. -/
def tan (x : Binary64) : Binary64 :=
  if !x.isFinite then nan else x.oddFunction fun q => Bounds.limit (Bounds.tangent q)

/-- The angle whose sine is given, for an argument of magnitude at most one. -/
def arcsin (x : Binary64) : Binary64 :=
  if x.isNaN || !x.abs.atMost one then nan
  else x.oddFunction fun q => Bounds.limit (Bounds.arcsin q)

/-- The angle whose cosine is given, for an argument of magnitude at most one. -/
def arccos (x : Binary64) : Binary64 :=
  if x.isNaN || !x.abs.atMost one then nan
  else if x = one then zero
  else Bounds.limit (Bounds.arccos x.negative x.quanta)

/-- The angle whose tangent is given; the infinities have a quarter turn. -/
def arctan (x : Binary64) : Binary64 :=
  if x.isNaN then nan
  else if x.isInfinite then
    (Bounds.limit fun p => Bounds.ofEnclosure (p + 1) (Enclosure.pi p)).withSignOf x
  else x.oddFunction fun q => Bounds.limit (Bounds.arctan q)

def exp (x : Binary64) : Binary64 :=
  if x.isNaN then nan
  else if x.isInfinite then (if x.negative then zero else infinity)
  else Bounds.limit (Bounds.exponential x.negative x.quanta)

def sinh (x : Binary64) : Binary64 :=
  if x.isNaN || x.isInfinite then x
  else x.oddFunction fun q => Bounds.limit (Bounds.sinh q)

def cosh (x : Binary64) : Binary64 :=
  if x.isNaN || x.isInfinite then x.abs else Bounds.limit (Bounds.cosh x.quanta)

def tanh (x : Binary64) : Binary64 :=
  if x.isNaN then x
  else if x.isInfinite then one.withSignOf x
  else x.oddFunction fun q => Bounds.limit (Bounds.tanh q)

/-- A logarithm from its bounds on positive finite magnitudes: zero has an infinite one and a
negative number none. -/
def logarithm (x : Binary64) (bounds : Nat → Nat → Bounds) : Binary64 :=
  if x.isNaN then x
  else if x.isZero then infinity.neg
  else if x.negative then nan
  else if x.isInfinite then x
  else if x = one then zero
  else Bounds.limit (bounds x.quanta)

def ln (x : Binary64) : Binary64 := x.logarithm Bounds.ln

def log2 (x : Binary64) : Binary64 := x.logarithm (Bounds.log 2)

def log10 (x : Binary64) : Binary64 := x.logarithm (Bounds.log 10)

def isOdd (x : Binary64) : Bool := x.isInteger && x.wholePart % 2 == 1

/-- The power of a positive finite magnitude to a finite exponent other than zero. -/
def powerOfMagnitude (quanta : Nat) (exponent : Int) : Binary64 :=
  match Bounds.exactPower? quanta exponent with
  | some bounds => Bounds.nearest bounds.lo bounds.scale
  | none => Bounds.limit (Bounds.power quanta exponent)

/-- The power `x ^ y`.  A zero exponent gives one and so does the base one, even beside NaN.
Otherwise a NaN stays; zero and infinity give zero or infinity, with the sign of the base if the
exponent is an odd integer; and a negative base needs an integer exponent. -/
def pow (x y : Binary64) : Binary64 :=
  let negative := x.negative && y.isOdd
  if y.isZero || x = one then one
  else if x.isNaN || y.isNaN then nan
  else if y.isInfinite then
    if x.abs = one then one
    else if x.abs.less one == y.negative then infinity
    else zero
  else if x.isZero || x.isInfinite then
    ofCode negative (if x.isZero == y.negative then infinityCode else 0)
  else if x.negative && !y.isInteger then nan
  else ofCode negative (powerOfMagnitude x.quanta y.signedQuanta).code

end Binary64

end StackCalc
