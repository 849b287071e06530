import StackCalc.Program

/-!
# Building programs

A builder collects the instructions and constants of one program.  Constants are pooled by their
words, so that each word has one slot and the two zeros have two.  An instruction is accepted
only if its operand fits its opcode: an index into the pool so far, a count that is not negative,
or none at all.
-/

namespace StackCalc

inductive EmitError where
  | operandRequired (opcode : Opcode)
  | operandRefused (opcode : Opcode)
  | outsidePool (index : Int) (poolSize : Nat)
deriving DecidableEq

def EmitError.message : EmitError → String
  | .operandRequired opcode => opcode.mnemonic ++ " requires a non-negative operand"
  | .operandRefused opcode => opcode.mnemonic ++ " takes no operand"
  | .outsidePool index poolSize =>
    "Constant index " ++ integerText index ++ " outside pool of " ++ decimalText poolSize

/-- What is wrong with an instruction over a pool of `poolSize` constants. -/
def Instruction.problem? (i : Instruction) (poolSize : Nat) : Option EmitError :=
  match i.opcode, i.operand with
  | .pushConst, some index =>
    if index < 0 then some (.operandRequired .pushConst)
    else if poolSize ≤ index then some (.outsidePool index poolSize)
    else none
  | .buildArray, some count => if count < 0 then some (.operandRequired .buildArray) else none
  | opcode, none => if opcode.hasOperand then some (.operandRequired opcode) else none
  | opcode, some _ => some (.operandRefused opcode)

/-- The parts of a program under construction. -/
structure Builder where
  instructions : List Instruction := []
  constants : List Binary64 := []
  offsets : List Int := []
deriving DecidableEq

namespace Builder

/-- The index of a constant, which joins the pool if it is new. -/
def addConstant (b : Builder) (value : Binary64) : Nat × Builder :=
  match b.constants.idxOf? value with
  | some index => (index, b)
  | none => (b.constants.length, { b with constants := b.constants ++ [value] })

/-- Adds an instruction, if its operand fits. -/
def emit (b : Builder) (i : Instruction) (offset : Int) : Except EmitError Builder :=
  match i.problem? b.constants.length with
  | some problem => .error problem
  | none =>
    .ok { b with instructions := b.instructions ++ [i], offsets := b.offsets ++ [offset] }

def build (b : Builder) : Program := ⟨b.instructions, b.constants, b.offsets⟩

end Builder

end StackCalc
