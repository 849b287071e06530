/-!
# Binary64 numbers

A binary64 number is kept as its sign and the code of its magnitude, the lower 63 bits of its
word.  Codes grow with the magnitudes they stand for, infinity has the code `infinityCode`, and
every larger code is a NaN.

A finite magnitude is a whole number of quanta, where one quantum is the least positive number
`2 ^ (-1074)`.  All arithmetic of this library is stated on quanta, so that a finite number is
an exact integer and the only inexact step of an operation is its one rounding.
-/

namespace StackCalc

/-- A binary64 number: its sign and the code of its magnitude. -/
structure Binary64 where
  negative : Bool
  code : Nat
  code_lt : code < 0x8000000000000000
deriving DecidableEq

namespace Binary64

/-- The weight of the sign bit in a word. -/
def signBit : Nat := 0x8000000000000000

/-- The weight of the exponent field in a code, which is also the hidden bit of a significand. -/
def hiddenBit : Nat := 0x10000000000000

/-- The code of infinity; smaller codes are finite and larger ones are NaN. -/
def infinityCode : Nat := 0x7FF0000000000000

/-- The number with a given code, where a code beyond infinity counts as infinity. -/
def ofCode (negative : Bool) (code : Nat) : Binary64 :=
  ⟨negative, min infinityCode code, by
    have h := Nat.min_le_left infinityCode code
    simp only [infinityCode] at h ⊢
    omega⟩

/-- The number whose 64-bit word is `bits`, of which only the lower 64 bits count. -/
def ofBits (bits : Nat) : Binary64 :=
  ⟨bits / signBit % 2 == 1, bits % signBit, Nat.mod_lt _ (by decide)⟩

def toBits (x : Binary64) : Nat :=
  (if x.negative then signBit else 0) + x.code

def zero : Binary64 := ofCode false 0

def one : Binary64 := ofCode false 0x3FF0000000000000

def infinity : Binary64 := ofCode false infinityCode

/-- The positive quiet NaN without payload. -/
def nan : Binary64 := ofBits 0x7FF8000000000000

instance : Inhabited Binary64 := ⟨zero⟩

def isNaN (x : Binary64) : Bool := infinityCode < x.code

def isInfinite (x : Binary64) : Bool := x.code == infinityCode

/-- Whether `x` denotes a real number. -/
def isFinite (x : Binary64) : Bool := x.code < infinityCode

def isZero (x : Binary64) : Bool := x.code == 0

/-- The number of quanta in the magnitude of a finite number.

The field above the lower 52 bits scales the significand; a field of zero marks a subnormal
number, which has no hidden bit and the scale of the field one. -/
def quanta (x : Binary64) : Nat :=
  let field := x.code / hiddenBit
  if field = 0 then x.code else (hiddenBit + x.code % hiddenBit) <<< (field - 1)

/-- The signed number of quanta that a finite number denotes. -/
def signedQuanta (x : Binary64) : Int :=
  if x.negative then -(x.quanta : Int) else x.quanta

/-- The number of quanta in one. -/
def quantaPerOne : Nat := 1 <<< 1074

/-- The place of a number in the order of the numbers that are not NaN: codes ascend with
magnitudes, and both zeros are at place zero. -/
def rank (x : Binary64) : Int :=
  if x.negative then -(x.code : Int) else x.code

/-- Numeric equality: the zeros are equal, and a NaN equals nothing. -/
def equals (x y : Binary64) : Bool :=
  !x.isNaN && !y.isNaN && x.rank == y.rank

/-- Numeric order, false when either side is NaN. -/
def less (x y : Binary64) : Bool :=
  !x.isNaN && !y.isNaN && decide (x.rank < y.rank)

/-- Numeric order or equality, false when either side is NaN. -/
def atMost (x y : Binary64) : Bool :=
  !x.isNaN && !y.isNaN && decide (x.rank ≤ y.rank)

/-- Whether `x` is finite and denotes an integer. -/
def isInteger (x : Binary64) : Bool :=
  x.isFinite && x.quanta % quantaPerOne == 0

/-- The magnitude of a finite number without its fraction. -/
def wholePart (x : Binary64) : Nat := x.quanta / quantaPerOne

/-- The integer part of a finite number, cut toward zero. -/
def truncate (x : Binary64) : Int :=
  if x.negative then -(x.wholePart : Int) else x.wholePart

/-- The number with the sign bit changed. -/
def neg (x : Binary64) : Binary64 := { x with negative := !x.negative }

/-- The number with the sign bit cleared. -/
def abs (x : Binary64) : Binary64 := { x with negative := false }

/-- The number with the sign of `y` and the magnitude of `x`. -/
def withSignOf (x y : Binary64) : Binary64 := { x with negative := y.negative }

/-- Every word of 64 bits is the word of the number read from it. -/
theorem toBits_ofBits (bits : Nat) (h : bits < 2 * signBit) : (ofBits bits).toBits = bits := by
  simp only [ofBits, toBits, signBit, beq_iff_eq] at h ⊢
  split <;> omega

/-- A number is determined by its word. -/
theorem ofBits_toBits (x : Binary64) : ofBits x.toBits = x := by
  obtain ⟨negative, code, h⟩ := x
  cases negative <;> simp only [ofBits, toBits, signBit, mk.injEq, beq_eq_false_iff_ne, ne_eq,
    Bool.false_eq_true, if_true, if_false, beq_iff_eq] <;> constructor <;> omega

end Binary64

end StackCalc
