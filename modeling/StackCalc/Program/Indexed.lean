import StackCalc.Program.Bytes

/-!
# Builders with an index

A builder that looks for a constant in the pool itself takes longer the larger the pool is.  An
indexed builder keeps, beside the pool, an index from the bytes of each word to its slot, and finds
constants there.

It is an object which is called again and again.  Each call changes its parts one after the other,
and a call that is refused leaves the builder as it is at that moment.
-/

namespace StackCalc

/-- A builder that finds the slots of its constants in an index. -/
structure IndexedBuilder extends Builder where
  /-- The words in the pool, as bytes, with their slots; the first entry of a word counts. -/
  index : List (List UInt8 × Nat) := []
deriving DecidableEq

/-- A part of the work on a program: it changes the builder and may be refused. -/
abbrev Building := ExceptT EmitError (StateM IndexedBuilder)

namespace Building

/-- The bytes under which a constant is entered in the index. -/
def key (value : Binary64) : List UInt8 := littleEndian 8 value.toBits

/-- The slot of a constant, which joins the pool if it is not in the index. -/
def addConstant (value : Binary64) : Building Nat := do
  match (← get).index.lookup (key value) with
  | some slot => return slot
  | none =>
    let slot := (← get).constants.length
    modify fun b => { b with constants := b.constants ++ [value] }
    modify fun b => { b with index := (key value, slot) :: b.index }
    return slot

/-- Adds an instruction, if its operand fits. -/
def emit (i : Instruction) (offset : Int) : Building Instruction := do
  match i.problem? (← get).constants.length with
  | some problem => throw problem
  | none =>
    modify fun b => { b with instructions := b.instructions ++ [i] }
    modify fun b => { b with offsets := b.offsets ++ [offset] }
    return i

def build : Building Program := do
  return (← get).toBuilder.build

/-- A call of a builder. -/
inductive Call where
  | addConstant (value : Binary64)
  | emit (i : Instruction) (offset : Int)
  | build
deriving DecidableEq

/-- What a call gives that is not refused. -/
inductive Answer where
  | slot (slot : Nat)
  | instruction (i : Instruction)
  | program (p : Program)
deriving DecidableEq

def perform : Call → Building Answer
  | .addConstant value => .slot <$> addConstant value
  | .emit i offset => .instruction <$> emit i offset
  | .build => .program <$> build

end Building

end StackCalc
