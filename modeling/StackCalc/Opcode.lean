import StackCalc.Decimal.Notation

/-!
# Opcodes

The machine has two opcodes that carry an operand, `PUSH_CONST` and `BUILD_ARRAY`.  All others
take their inputs from the stack: one number, two numbers, or one array.  Every opcode has a
number, which is also its byte in the encoding, and a mnemonic.  A program written by hand may
hold a number to which no opcode is assigned.
-/

namespace StackCalc

inductive UnaryOperation where
  | neg | fact
  | sin | cos | tan | asin | acos | atan | sinh | cosh | tanh
  | sqrt | log | ln | abs | floor | ceil | cbrt | log2 | exp | round | sign | toRad | toDeg
deriving DecidableEq

inductive BinaryOperation where
  | add | sub | mul | div | pow | mod | logBase | gcd | lcm | nPr | nCr
deriving DecidableEq

inductive Reducer where
  | sum | avg | min | max | len
deriving DecidableEq

inductive Opcode where
  /-- Pushes a constant of the pool. -/
  | pushConst
  /-- Collects numbers from the stack into an array. -/
  | buildArray
  /-- Replaces a number by the result of an operation. -/
  | unary (op : UnaryOperation)
  /-- Replaces two numbers by the result of an operation. -/
  | binary (op : BinaryOperation)
  /-- Replaces an array by a number. -/
  | reduce (op : Reducer)
  /-- A number that stands for no operation. -/
  | unassigned (number : Int)
deriving DecidableEq

/-- The number and the mnemonic of an operation on one number. -/
def UnaryOperation.entry : UnaryOperation → Nat × String
  | .neg => (0x15, "NEG")
  | .fact => (0x17, "FACT")
  | .sin => (0x20, "SIN")
  | .cos => (0x21, "COS")
  | .tan => (0x22, "TAN")
  | .asin => (0x23, "ASIN")
  | .acos => (0x24, "ACOS")
  | .atan => (0x25, "ATAN")
  | .sinh => (0x26, "SINH")
  | .cosh => (0x27, "COSH")
  | .tanh => (0x28, "TANH")
  | .sqrt => (0x30, "SQRT")
  | .log => (0x31, "LOG")
  | .ln => (0x32, "LN")
  | .abs => (0x33, "ABS")
  | .floor => (0x34, "FLOOR")
  | .ceil => (0x35, "CEIL")
  | .cbrt => (0x36, "CBRT")
  | .log2 => (0x37, "LOG2")
  | .exp => (0x38, "EXP")
  | .round => (0x39, "ROUND")
  | .sign => (0x3A, "SIGN")
  | .toRad => (0x3B, "TORAD")
  | .toDeg => (0x3C, "TODEG")

/-- The number and the mnemonic of an operation on two numbers. -/
def BinaryOperation.entry : BinaryOperation → Nat × String
  | .add => (0x10, "ADD")
  | .sub => (0x11, "SUB")
  | .mul => (0x12, "MUL")
  | .div => (0x13, "DIV")
  | .pow => (0x14, "POW")
  | .mod => (0x16, "MOD")
  | .logBase => (0x3D, "LOG_BASE")
  | .gcd => (0x50, "GCD")
  | .lcm => (0x51, "LCM")
  | .nPr => (0x52, "NPR")
  | .nCr => (0x53, "NCR")

/-- The number and the mnemonic of a reducer. -/
def Reducer.entry : Reducer → Nat × String
  | .sum => (0x40, "SUM")
  | .avg => (0x41, "AVG")
  | .min => (0x42, "MIN")
  | .max => (0x43, "MAX")
  | .len => (0x44, "LEN")

namespace Opcode

/-- The number and the mnemonic of an opcode. -/
def entry : Opcode → Nat × String
  | .pushConst => (0x01, "PUSH_CONST")
  | .buildArray => (0x04, "BUILD_ARRAY")
  | .unary op => op.entry
  | .binary op => op.entry
  | .reduce op => op.entry
  | .unassigned number => (number.toNat, integerText number)

def code (op : Opcode) : Nat := op.entry.1

def mnemonic (op : Opcode) : String := op.entry.2

/-- All opcodes that stand for an operation, in the order of their numbers. -/
def assigned : List Opcode :=
  [.pushConst, .buildArray,
   .binary .add, .binary .sub, .binary .mul, .binary .div, .binary .pow, .unary .neg,
   .binary .mod, .unary .fact,
   .unary .sin, .unary .cos, .unary .tan, .unary .asin, .unary .acos, .unary .atan,
   .unary .sinh, .unary .cosh, .unary .tanh,
   .unary .sqrt, .unary .log, .unary .ln, .unary .abs, .unary .floor, .unary .ceil,
   .unary .cbrt, .unary .log2, .unary .exp, .unary .round, .unary .sign, .unary .toRad,
   .unary .toDeg, .binary .logBase,
   .reduce .sum, .reduce .avg, .reduce .min, .reduce .max, .reduce .len,
   .binary .gcd, .binary .lcm, .binary .nPr, .binary .nCr]

def ofCode? (code : Nat) : Option Opcode := assigned.find? (·.code == code)

def ofMnemonic? (mnemonic : String) : Option Opcode := assigned.find? (·.mnemonic == mnemonic)

/-- Whether instructions with this opcode carry an operand. -/
def hasOperand : Opcode → Bool
  | .pushConst | .buildArray => true
  | _ => false

/-- How many values an instruction takes from the stack and how many it puts there; an array
takes as many as its operand says, none if it has no operand. -/
def stackEffect (op : Opcode) (operand : Option Int) : Int × Int :=
  match op with
  | .pushConst => (0, 1)
  | .buildArray => (operand.getD 0, 1)
  | .binary _ => (2, 1)
  | _ => (1, 1)

/-- Every opcode other than an unassigned number is listed. -/
theorem mem_assigned (op : Opcode) (h : ∀ number, op ≠ .unassigned number) :
    op ∈ assigned := by
  cases op with
  | unary op => cases op <;> decide
  | binary op => cases op <;> decide
  | reduce op => cases op <;> decide
  | pushConst => decide
  | buildArray => decide
  | unassigned number => exact absurd rfl (h number)

/-- Every assigned opcode is found by its number. -/
theorem ofCode?_code {op : Opcode} (h : op ∈ assigned) : ofCode? op.code = some op := by
  have all : ∀ op ∈ assigned, ofCode? op.code = some op := by decide
  exact all op h

end Opcode

end StackCalc
