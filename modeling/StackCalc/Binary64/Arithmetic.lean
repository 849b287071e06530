import StackCalc.Binary64.Rounding

/-!
# Arithmetic on binary64 numbers

Each operation treats NaN and the infinities first and then rounds the exact result of the
finite operands once.  The remainder, the integral parts and the roots of perfect powers are
exact.
-/

namespace StackCalc

/-- The greatest `r` with `r ^ degree ≤ n`, found from the root of `n / 2 ^ degree`, which is
half of it up to one. -/
def floorRoot (degree n : Nat) : Nat :=
  if h : degree = 0 ∨ n = 0 then 0
  else
    let candidate := 2 * floorRoot degree (n >>> degree) + 1
    if Nat.pow candidate degree ≤ n then candidate else candidate - 1
termination_by n
decreasing_by
  have hd : degree ≠ 0 := fun e => h (Or.inl e)
  have hn : n ≠ 0 := fun e => h (Or.inr e)
  rw [Nat.shiftRight_eq_div_pow]
  exact Nat.div_lt_self (Nat.pos_of_ne_zero hn) (Nat.one_lt_two_pow hd)

namespace Binary64

/-- The sum; an exact zero is negative only if both operands are. -/
def add (a b : Binary64) : Binary64 :=
  if a.isNaN || b.isNaN then nan
  else if a.isInfinite then
    if b.isInfinite && a.negative != b.negative then nan else a
  else if b.isInfinite then b
  else ofSignedQuanta (a.negative && b.negative) (a.signedQuanta + b.signedQuanta)

def sub (a b : Binary64) : Binary64 := a.add b.neg

def mul (a b : Binary64) : Binary64 :=
  let negative := a.negative != b.negative
  if a.isNaN || b.isNaN then nan
  else if a.isInfinite || b.isInfinite then
    if a.isZero || b.isZero then nan else ofCode negative infinityCode
  else ofRatio negative (a.quanta * b.quanta) quantaPerOne

/-- The quotient; a zero divisor gives an infinity, or NaN for a zero dividend. -/
def div (a b : Binary64) : Binary64 :=
  let negative := a.negative != b.negative
  if a.isNaN || b.isNaN then nan
  else if a.isInfinite then
    if b.isInfinite then nan else ofCode negative infinityCode
  else if b.isInfinite then ofCode negative 0
  else if b.isZero then
    if a.isZero then nan else ofCode negative infinityCode
  else ofRatio negative (a.quanta * quantaPerOne) b.quanta

/-- The remainder of the division cut toward zero; it has the sign of the dividend and is
exact. -/
def remainder (a b : Binary64) : Binary64 :=
  if a.isNaN || b.isNaN || a.isInfinite || b.isZero then nan
  else if b.isInfinite then a
  else ofRatio a.negative (a.quanta % b.quanta) 1

/-- The greatest integer not above a finite number. -/
def floorInt (x : Binary64) : Int := x.signedQuanta / (quantaPerOne : Int)

/-- The least integer not below a finite number. -/
def ceilInt (x : Binary64) : Int := -(-x.signedQuanta / (quantaPerOne : Int))

/-- The whole number nearest to the magnitude of a finite number, a half going away from
zero. -/
def nearestWhole (x : Binary64) : Nat :=
  let whole := x.wholePart
  if quantaPerOne ≤ 2 * (x.quanta - whole * quantaPerOne) then whole + 1 else whole

/-- The whole number nearest to the magnitude of a finite number, a half going to the even
neighbour. -/
def nearestEvenWhole (x : Binary64) : Nat := nearestEven x.quanta quantaPerOne

/-- The number nearest to the `degree`-th root of `n` quanta, where `n` is large enough for its
whole root to have more bits than a significand; an inexact root is moved to the middle between
two integers, which rounds as the root itself does. -/
def ofRoot (negative : Bool) (degree n : Nat) : Binary64 :=
  let root := floorRoot degree n
  let sticky := if Nat.pow root degree = n then 0 else 1
  ofRatio negative (2 * root + sticky) 2

/-- The square root, NaN below zero. -/
def sqrt (x : Binary64) : Binary64 :=
  if x.isNaN || x.isZero then x
  else if x.negative then nan
  else if x.isInfinite then x
  else ofRoot false 2 (x.quanta * quantaPerOne)

def cbrt (x : Binary64) : Binary64 :=
  if x.isNaN || x.isZero || x.isInfinite then x
  else ofRoot x.negative 3 (x.quanta * (quantaPerOne * quantaPerOne))

end Binary64

end StackCalc
