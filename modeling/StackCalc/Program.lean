import StackCalc.Opcode

/-!
# Programs

A program is a straight line of instructions with a pool of constants.  It may also name, for
each instruction, the offset in the source text it was compiled from.

An instruction occupies one byte, and eight more if its opcode carries an operand; the address
of an instruction is the number of bytes before it.
-/

namespace StackCalc

/-- An opcode and perhaps an operand. -/
structure Instruction where
  opcode : Opcode
  /-- The pool index or element count, where there is one. -/
  operand : Option Int := none
deriving DecidableEq

def Instruction.size (i : Instruction) : Nat := if i.opcode.hasOperand then 9 else 1

/-- How many values an instruction takes from the stack and how many it puts there. -/
def Instruction.stackEffect (i : Instruction) : Int × Int := i.opcode.stackEffect i.operand

/-- The mnemonic of an instruction and its operand, if it has one. -/
def Instruction.text (i : Instruction) : String :=
  match i.operand with
  | none => i.opcode.mnemonic
  | some operand => i.opcode.mnemonic ++ " " ++ integerText operand

structure Program where
  instructions : List Instruction := []
  constants : List Binary64 := []
  /-- The source offsets of the instructions, as far as they are known. -/
  offsets : List Int := []
deriving DecidableEq

/-- The addresses of instructions of which the first stands at `start`. -/
def addressesFrom (start : Nat) : List Instruction → List Nat
  | [] => []
  | i :: is => start :: addressesFrom (start + i.size) is

def Program.addresses (p : Program) : List Nat := addressesFrom 0 p.instructions

/-- The greatest height of the stack over instructions that start at `height`, and at least
`peak`, as their stack effects add up. -/
def peakHeight (height peak : Int) : List Instruction → Int
  | [] => peak
  | i :: is =>
    let next := height + i.stackEffect.2 - i.stackEffect.1
    peakHeight next (max peak next) is

/-- The greatest height of the stack that the stack effects of a program add up to. -/
def Program.maxStack (p : Program) : Int := peakHeight 0 0 p.instructions

end StackCalc
