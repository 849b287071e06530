import StackCalc.Library
import StackCalc.Opcode

/-!
# Operations on numbers

What each operation of the machine computes, and when it fails.  An operation first checks its
arguments, then computes, and at last its result must be a finite number: an infinite result is
too large, and a result that is not a number is an error too.

Factorials, permutations and combinations multiply and divide in binary64 arithmetic from the
smallest factor up, so their results may be rounded at every step.  Greatest common divisors and
least common multiples are computed on exact integers and rounded once.

The mean of an array divides its sum by the number of elements.  When the sum is not finite, the
elements are divided first.
-/

namespace StackCalc

variable [Library]

inductive ErrorKind where
  | divisionByZero | domainError | emptyArray
deriving DecidableEq

def ErrorKind.name : ErrorKind → String
  | .divisionByZero => "DivisionByZero"
  | .domainError => "DomainError"
  | .emptyArray => "EmptyArray"

inductive OperationError where
  | divisionByZero
  | moduloByZero
  | tooLarge
  | outsideDomain
  | notANumber
  | notPositive (function : String) (x : Binary64)
  | notNatural (function : String) (x : Binary64)
  | notInteger (function : String) (x : Binary64)
  | noRealPower (base exponent : Binary64)
  | negativeRoot (x : Binary64)
  | notInUnitRange (function : String) (x : Binary64)
  | badBase (x : Binary64)
  | factorialTooLarge (n : Int)
  | chosenExceedsTotal (function : String) (n r : Int)
  | emptyArray (function : String)
deriving DecidableEq

namespace OperationError

def kind : OperationError → ErrorKind
  | .divisionByZero | .moduloByZero => .divisionByZero
  | .emptyArray _ => .emptyArray
  | _ => .domainError

def message : OperationError → String
  | .divisionByZero => "Division by zero"
  | .moduloByZero => "Modulo by zero"
  | .tooLarge => "Result is too large to represent"
  | .outsideDomain => "Argument outside the function's domain"
  | .notANumber => "Result is not a number"
  | .notPositive function x => function ++ " argument must be > 0, got " ++ x.text
  | .notNatural function x => function ++ " expects a non-negative integer, got " ++ x.text
  | .notInteger function x => function ++ " expects integers, got " ++ x.text
  | .noRealPower base exponent =>
    base.text ++ " ^ " ++ exponent.text ++ " has no real value"
  | .negativeRoot x => "sqrt of negative number " ++ x.text
  | .notInUnitRange function x => function ++ " argument must be in [-1, 1], got " ++ x.text
  | .badBase x => "log base must be > 0 and != 1, got " ++ x.text
  | .factorialTooLarge n => integerText n ++ "! is too large to represent"
  | .chosenExceedsTotal function n r =>
    function ++ " requires r <= n, got n=" ++ integerText n ++ ", r=" ++ integerText r
  | .emptyArray function => function ++ " of an empty array is undefined"

end OperationError

abbrev Outcome := Except OperationError

namespace Operation

/-- Requires a result to be a finite number. -/
def finiteResult (x : Binary64) : Outcome Binary64 :=
  if x.isNaN then .error .notANumber
  else if x.isInfinite then .error .tooLarge
  else .ok x

/-- Applies a function of one number, whose argument is outside its domain if it turns a number
into NaN. -/
def applyTotal (f : Binary64 → Binary64) (a : Binary64) : Outcome Binary64 :=
  if (f a).isNaN && !a.isNaN then .error .outsideDomain else .ok (f a)

/-- Requires a positive number; NaN passes. -/
def requirePositive (function : String) (a : Binary64) : Outcome Unit :=
  if a.atMost .zero then .error (.notPositive function a) else .ok ()

def requireNatural (function : String) (a : Binary64) : Outcome Nat :=
  if a.less .zero || !a.isInteger then .error (.notNatural function a) else .ok a.wholePart

def requireInteger (function : String) (a : Binary64) : Outcome Int :=
  if a.isInteger then .ok a.truncate else .error (.notInteger function a)

/-- Applies an inverse circular function to a number in `[-1, 1]`. -/
def applyUnitRange (function : String) (f : Binary64 → Binary64) (a : Binary64) :
    Outcome Binary64 :=
  if a.abs.atMost .one then .ok (f a) else .error (.notInUnitRange function a)

/-- Applies a logarithm to a positive number. -/
def applyLogarithm (function : String) (f : Binary64 → Binary64) (a : Binary64) :
    Outcome Binary64 := do
  requirePositive function a
  return f a

/-- Applies a function to a whole number that an infinite or undefined argument has none of. -/
def applyWhole (f : Binary64 → Binary64) (a : Binary64) : Outcome Binary64 :=
  if a.isNaN then .error .outsideDomain
  else if a.isInfinite then .error .tooLarge
  else .ok (f a)

/-- The product of `start` with `first`, `first + 1`, …, `first + count - 1`, rounded after every
factor; it ends early once it is infinite. -/
def risingProduct (start : Binary64) (first : Nat) : (count : Nat) → Binary64
  | 0 => start
  | count + 1 =>
    let next := start.mul (.ofNat first)
    if next.isInfinite then next else risingProduct next (first + 1) count

/-- The greatest number with a finite factorial. -/
def maxFactorial : Nat := 170

def factorial (a : Binary64) : Outcome Binary64 := do
  let n ← requireNatural "factorial" a
  if maxFactorial < n then
    .error (.factorialTooLarge n)
  else return risingProduct .one 2 (n - 1)

/-- The integer nearest to a number, a half going away from zero, with the sign of the number. -/
def roundHalfAway (a : Binary64) : Binary64 := (Binary64.ofNat a.nearestWhole).withSignOf a

/-- Minus one, zero or one, as the number compares to zero. -/
def signOf (a : Binary64) : Binary64 := if a.isZero then .zero else Binary64.one.withSignOf a

/-- One degree in radians, rounded. -/
def radiansPerDegree : Binary64 :=
  (Binary64.ofBits 0x400921fb54442d18).div (.ofNat 180)

/-- One radian in degrees, rounded. -/
def degreesPerRadian : Binary64 :=
  (Binary64.ofNat 180).div (.ofBits 0x400921fb54442d18)

def divide (a b : Binary64) : Outcome Binary64 :=
  if b.isZero then .error .divisionByZero else .ok (a.div b)

/-- The remainder with the sign of the dividend; an infinite dividend has none. -/
def modulo (a b : Binary64) : Outcome Binary64 :=
  if b.isZero then .error .moduloByZero
  else if a.isInfinite && !b.isNaN then .error .outsideDomain
  else .ok (a.remainder b)

/-- The power; zero to a negative finite power and a negative number to a fractional power have
no real value. -/
def power (a b : Binary64) : Outcome Binary64 :=
  let result := Library.pow a b
  if a.isFinite && b.isFinite && (result.isNaN || (result.isInfinite && a.isZero)) then
    .error (.noRealPower a b)
  else .ok result

/-- The logarithm to any base, as a quotient of natural logarithms. -/
def logarithmToBase (a base : Binary64) : Outcome Binary64 := do
  requirePositive "log" a
  if base.atMost .zero || base.equals .one then
    .error (.badBase base)
  else return (Library.ln a).div (Library.ln base)

def greatestCommonDivisor (a b : Binary64) : Outcome Binary64 := do
  let x ← requireInteger "gcd" a
  let y ← requireInteger "gcd" b
  return .ofNat (x.gcd y)

/-- The least common multiple, zero if either number is. -/
def leastCommonMultiple (a b : Binary64) : Outcome Binary64 := do
  let x ← requireInteger "lcm" a
  let y ← requireInteger "lcm" b
  return .ofNat (x.natAbs.lcm y.natAbs)

/-- Requires two natural numbers of which the second is not the greater. -/
def requireChoice (function : String) (a b : Binary64) : Outcome (Nat × Nat) := do
  let n ← requireNatural function a
  let r ← requireNatural function b
  if n < r then .error (.chosenExceedsTotal function n r) else return (n, r)

/-- The number of arrangements of `r` out of `n` things. -/
def permutations (a b : Binary64) : Outcome Binary64 := do
  let (n, r) ← requireChoice "nPr" a b
  return risingProduct .one (n - r + 1) r

/-- Multiplies by `base + i` and divides by `i` for `i = step, step + 1, …`, rounding after each
of the two; it ends early once the result is infinite. -/
def risingQuotient (start : Binary64) (base step : Nat) : (count : Nat) → Binary64
  | 0 => start
  | count + 1 =>
    let next := (start.mul (.ofNat (base + step))).div (.ofNat step)
    if next.isInfinite then next else risingQuotient next base (step + 1) count

/-- The number of choices of `r` out of `n` things, rounded to an integer at the end. -/
def combinations (a b : Binary64) : Outcome Binary64 := do
  let (n, r) ← requireChoice "nCr" a b
  let k := min r (n - r)
  let result := risingQuotient .one (n - k) 1 k
  if result.isInfinite then return result else return .ofNat result.nearestEvenWhole

end Operation

open Operation

/-- The result of an operation on one number before it is required to be finite. -/
def UnaryOperation.compute (op : UnaryOperation) (a : Binary64) : Outcome Binary64 :=
  match op with
  | .neg => .ok a.neg
  | .fact => factorial a
  | .sin => applyTotal Library.sin a
  | .cos => applyTotal Library.cos a
  | .tan => applyTotal Library.tan a
  | .asin => applyUnitRange "asin" Library.arcsin a
  | .acos => applyUnitRange "acos" Library.arccos a
  | .atan => .ok (Library.arctan a)
  | .sinh => .ok (Library.sinh a)
  | .cosh => .ok (Library.cosh a)
  | .tanh => .ok (Library.tanh a)
  | .sqrt => if a.less .zero then .error (.negativeRoot a) else .ok a.sqrt
  | .log => applyLogarithm "log" Library.log10 a
  | .ln => applyLogarithm "ln" Library.ln a
  | .abs => .ok a.abs
  | .floor => applyWhole (fun a => .ofInt a.floorInt) a
  | .ceil => applyWhole (fun a => .ofInt a.ceilInt) a
  | .cbrt => .ok (Library.cbrt a)
  | .log2 => applyLogarithm "log2" Library.log2 a
  | .exp => .ok (Library.exp a)
  | .round => applyWhole roundHalfAway a
  | .sign => .ok (signOf a)
  | .toRad => .ok (a.mul radiansPerDegree)
  | .toDeg => .ok (a.mul degreesPerRadian)

def UnaryOperation.apply (op : UnaryOperation) (a : Binary64) : Outcome Binary64 := do
  finiteResult (← op.compute a)

/-- The result of an operation on two numbers before it is required to be finite. -/
def BinaryOperation.compute (op : BinaryOperation) (a b : Binary64) : Outcome Binary64 :=
  match op with
  | .add => .ok (a.add b)
  | .sub => .ok (a.sub b)
  | .mul => .ok (a.mul b)
  | .div => divide a b
  | .pow => power a b
  | .mod => modulo a b
  | .logBase => logarithmToBase a b
  | .gcd => greatestCommonDivisor a b
  | .lcm => leastCommonMultiple a b
  | .nPr => permutations a b
  | .nCr => combinations a b

def BinaryOperation.apply (op : BinaryOperation) (a b : Binary64) : Outcome Binary64 := do
  finiteResult (← op.compute a b)

/-! ## Arrays -/

/-- The mean of an array that is not empty. -/
def Reduction.mean (xs : List Binary64) : Binary64 :=
  let count := Binary64.ofNat xs.length
  let total := Library.sum xs
  if total.isFinite then total.div count else Library.sum (xs.map (·.div count))

/-- The result of a reducer before it is required to be finite. -/
def Reducer.compute (op : Reducer) (xs : List Binary64) : Binary64 :=
  match op with
  | .sum => Library.sum xs
  | .avg => Reduction.mean xs
  | .min => Library.least xs
  | .max => Library.greatest xs
  | .len => .ofNat xs.length

/-- Whether a reducer has a result for the empty array. -/
def Reducer.allowsEmpty : Reducer → Bool
  | .sum | .len => true
  | _ => false

def Reducer.name (op : Reducer) : String := (Opcode.reduce op).mnemonic.toLower

def Reducer.apply (op : Reducer) (xs : List Binary64) : Outcome Binary64 :=
  if xs.isEmpty && !op.allowsEmpty then .error (.emptyArray op.name)
  else finiteResult (op.compute xs)

end StackCalc
