import StackCalc.Operation
import StackCalc.Program
import StackCalc.Text.Forms
import StackCalc.Value

/-!
# Running programs

The machine runs the instructions of a program once, from first to last, on a stack of values.
A step fails with an error if its operation has no result for the values it finds, and with a
fault if the values themselves are missing or of the wrong sort, which no compiled program
causes.

The log has one entry for each step that was started, with snapshots of the stack before and after
it if the run is verbose.  The last entry of a failed run has no snapshot after it.  As a table
the log has one row for each step, in which stacks are shown from the bottom up, and a stack of
which there is no snapshot as a dash.
-/

namespace StackCalc

variable [Library]

/-- A breach of the structure of a program. -/
inductive MachineFault where
  /-- No operation is assigned to the number. -/
  | unknownOpcode (number : Int)
  /-- The index is missing or outside the pool. -/
  | badConstant (index : Option Int) (poolSize : Nat)
  /-- An array needs more elements than the stack holds. -/
  | shortArray (count : Int) (height : Nat)
  | underflow
  /-- An operation finds an array in place of a number. -/
  | numberExpected (found : Value)
  /-- A reducer finds a number in place of an array. -/
  | arrayExpected (found : Value)
  /-- The program does not leave exactly one value. -/
  | leftover (height : Nat)
deriving DecidableEq

def MachineFault.message : MachineFault → String
  | .unknownOpcode number => "Unknown opcode " ++ integerText number
  | .badConstant index poolSize =>
    "Constant index " ++ (index.map integerText).getD "None" ++ " outside pool of " ++
      decimalText poolSize
  | .shortArray count height =>
    "BUILD_ARRAY " ++ integerText count ++ " with only " ++ decimalText height ++
      " values on the stack"
  | .underflow => "Operand stack underflow"
  | .numberExpected found => "Expected a number on the stack but found " ++ found.tag
  | .arrayExpected found => "Expected an array on the stack but found " ++ found.tag
  | .leftover height => "Program finished with " ++ decimalText height ++ " values on the stack"

inductive StepFailure where
  | error (e : OperationError)
  | fault (f : MachineFault)
deriving DecidableEq

/-- The operand stack, top first. -/
abbrev Stack := List Value

abbrev StepOutcome := Except StepFailure

namespace Stack

def popNumber : Stack → StepOutcome (Binary64 × Stack)
  | .number x :: stack => .ok (x, stack)
  | found :: _ => .error (.fault (.numberExpected found))
  | [] => .error (.fault .underflow)

def popArray : Stack → StepOutcome (List Binary64 × Stack)
  | .array items :: stack => .ok (items, stack)
  | found :: _ => .error (.fault (.arrayExpected found))
  | [] => .error (.fault .underflow)

/-- Takes a number of numbers from the stack in front of `items`, so that they end up in the
order in which they were pushed. -/
def popNumbers (items : List Binary64) : (count : Nat) → Stack →
    StepOutcome (List Binary64 × Stack)
  | 0, stack => .ok (items, stack)
  | count + 1, stack => do
    let (x, stack) ← popNumber stack
    popNumbers (x :: items) count stack

/-- Puts the result of an operation on the stack. -/
def pushResult (stack : Stack) : Outcome Binary64 → StepOutcome Stack
  | .ok x => .ok (.number x :: stack)
  | .error e => .error (.error e)

/-- A snapshot of the stack, taken only in verbose runs. -/
def snapshot (verbose : Bool) (stack : Stack) : Option Stack :=
  if verbose then some stack else none

end Stack

open Stack

/-- The constant at an index of the pool. -/
def constantAt? (constants : List Binary64) : Option Int → Option Binary64
  | some index => if index < 0 then none else constants[index.toNat]?
  | none => none

/-- The effect of one instruction on the stack. -/
def Instruction.step (constants : List Binary64) (i : Instruction) (stack : Stack) :
    StepOutcome Stack :=
  match i.opcode with
  | .pushConst =>
    match constantAt? constants i.operand with
    | some x => .ok (.number x :: stack)
    | none => .error (.fault (.badConstant i.operand constants.length))
  | .buildArray => do
    let count := i.operand.getD 0
    if (stack.length : Int) < count then
      .error (.fault (.shortArray count stack.length))
    else
      let (items, stack) ← popNumbers [] count.toNat stack
      return .array items :: stack
  | .unary op => do
    let (a, stack) ← popNumber stack
    pushResult stack (op.apply a)
  | .binary op => do
    let (b, stack) ← popNumber stack
    let (a, stack) ← popNumber stack
    pushResult stack (op.apply a b)
  | .reduce op => do
    let (items, stack) ← popArray stack
    pushResult stack (op.apply items)
  | .unassigned number => .error (.fault (.unknownOpcode number))

/-- One entry of the step log; snapshots have the top of the stack first. -/
structure LogEntry where
  index : Nat
  instruction : Instruction
  /-- The stack before the step, if the run is verbose. -/
  before : Option Stack
  /-- The stack after the step, if the run is verbose and the step succeeded. -/
  after : Option Stack

/-- A failed operation and the instruction it belongs to. -/
structure RuntimeError where
  cause : OperationError
  opcode : Opcode
  step : Nat
  /-- Its source offset, if the program knows it. -/
  offset : Option Int
deriving DecidableEq

inductive RunFailure where
  | error (e : RuntimeError)
  | fault (f : MachineFault)
deriving DecidableEq

structure Run where
  result : Except RunFailure Value
  log : List LogEntry

/-- The one value that a finished program has to leave. -/
def finalValue : Stack → Except RunFailure Value
  | [value] => .ok value
  | stack => .error (.fault (.leftover stack.length))

/-- The failure of a run whose step `index` failed. -/
def StepFailure.toRunFailure (failure : StepFailure) (opcode : Opcode) (index : Nat)
    (offsets : List Int) : RunFailure :=
  match failure with
  | .error cause => .error ⟨cause, opcode, index, offsets[index]?⟩
  | .fault f => .fault f

/-- Runs instructions of which the first has the place `index` in the program. -/
def runFrom (verbose : Bool) (constants : List Binary64) (offsets : List Int) (index : Nat)
    (stack : Stack) : List Instruction → Run
  | [] => ⟨finalValue stack, []⟩
  | i :: is =>
    match i.step constants stack with
    | .error failure =>
      ⟨.error (failure.toRunFailure i.opcode index offsets),
        [⟨index, i, snapshot verbose stack, none⟩]⟩
    | .ok next =>
      let rest := runFrom verbose constants offsets (index + 1) next is
      ⟨rest.result, ⟨index, i, snapshot verbose stack, snapshot verbose next⟩ :: rest.log⟩

/-- Runs a program on an empty stack. -/
def Program.run (p : Program) (verbose : Bool := false) : Run :=
  runFrom verbose p.constants p.offsets 0 [] p.instructions

/-! ## Step tables -/

/-- The texts of the values on a stack, bottom first. -/
def Stack.texts (stack : Stack) : List String := (stack.map Value.text).reverse

def Stack.line (stack : Stack) : String := "[" ++ " ".intercalate stack.texts ++ "]"

def snapshotLine (stack : Option Stack) : String := (stack.map Stack.line).getD "-"

def stepRow (index instruction before after : String) : String :=
  padLeft 4 index ++ "  " ++ padRight 18 instruction ++ "  " ++ padRight 24 before ++ "  " ++ after

def LogEntry.row (e : LogEntry) : String :=
  stepRow (decimalText e.index) e.instruction.text (snapshotLine e.before) (snapshotLine e.after)

def stepTable (log : List LogEntry) : String :=
  "\n".intercalate
    (stepRow "STEP" "INSTRUCTION" "STACK BEFORE" "STACK AFTER" :: log.map LogEntry.row)

end StackCalc
