import StackCalc.Expr
import StackCalc.Functions
import StackCalc.Program.Builder

/-!
# Compiling expressions

The compiler emits the code of the operands of a node before the node's own instruction, from
left to right, so that every operation finds its inputs on top of the stack.  It gives each node
a static type, number or array, and rejects a node whose operands have the wrong one.

While it emits, the compiler keeps the program built so far, the height of the stack after that
program, and the number of nodes it is inside of.  All three outlive a failure.  A failure is
either an error of the expression, which has an offset, or a fault, which shows that the
functions or the tree are not fit to be compiled.
-/

namespace StackCalc

/-- The greatest number of nodes on a path from the root. -/
def maxTreeDepth : Nat := 150

/-- What kind of value a node leaves on the stack. -/
inductive StaticType where
  | number | array
deriving DecidableEq

/-- What is wrong with an expression. -/
inductive CompileCause where
  | tooDeep
  | arrayElement
  /-- The node is an array where an operator or a function needs a number. -/
  | arrayOperand (context : String)
  | unknownFunction (name : String)
  /-- The function does not accept so many arguments. -/
  | wrongArity (name : String) (arities : List Nat) (supplied : Nat)
  /-- The node is a number where a reducer needs an array. -/
  | arrayExpected (name : String)
deriving DecidableEq

def CompileCause.message : CompileCause → String
  | .tooDeep => "Expression nested too deeply"
  | .arrayElement => "Array elements must be numbers, not arrays"
  | .arrayOperand context => context ++ " expects a number, not an array"
  | .unknownFunction name => "Unknown function '" ++ name ++ "'"
  | .wrongArity name arities supplied =>
    name ++ " expects " ++ " or ".intercalate (arities.map decimalText) ++ " argument" ++
      (if arities = [1] then "" else "s") ++ " but got " ++ decimalText supplied
  | .arrayExpected name => name ++ " expects an array argument, e.g. " ++ name ++ "([1, 2, 3])"

/-- An error of an expression and the offset of the node at fault. -/
structure CompileError where
  cause : CompileCause
  offset : Int
deriving DecidableEq

/-- A breach of the invariants of compiled code. -/
inductive CompileFault where
  | hole
  /-- The instruction needs more values than its operands left. -/
  | shortStack (opcode : Opcode) (pops depth : Int)
  /-- The instruction is not accepted into the program. -/
  | refused (problem : EmitError)
  /-- A reducer accepts a call without arguments. -/
  | missingArgument (name : String)
  /-- The program does not leave exactly one value. -/
  | leftover (depth : Int)
deriving DecidableEq

def CompileFault.message : CompileFault → String
  | .hole => "Unknown node type Node"
  | .shortStack opcode pops depth =>
    opcode.mnemonic ++ " would pop " ++ integerText pops ++ " values from a stack of " ++
      integerText depth
  | .refused problem => problem.message
  | .missingArgument name => name ++ " has no argument to reduce"
  | .leftover depth => "Generated code leaves " ++ integerText depth ++ " values on the stack"

inductive CompileFailure where
  | error (e : CompileError)
  | fault (f : CompileFault)
deriving DecidableEq

/-- What the compiler has produced so far. -/
structure Emitted where
  builder : Builder := {}
  /-- The height of the stack after the program. -/
  depth : Int := 0
  /-- The number of nodes the compiler is inside of. -/
  nesting : Nat := 0
deriving DecidableEq

/-- A part of a compilation: it adds to what is emitted and may fail. -/
abbrev Emission := ExceptT CompileFailure (StateM Emitted)

namespace Emission

/-- Fails with an error of the expression. -/
def reject {α : Type} (cause : CompileCause) (offset : Int) : Emission α :=
  throw (.error ⟨cause, offset⟩)

/-- The pool index of a constant. -/
def intern (value : Binary64) : Emission Nat := do
  let state ← get
  let (index, builder) := state.builder.addConstant value
  set { state with builder }
  return index

def emit (opcode : Opcode) (operand : Option Int) (offset : Int) : Emission Unit := do
  let state ← get
  let (pops, pushes) := opcode.stackEffect operand
  if state.depth < pops then
    throw (.fault (.shortStack opcode pops state.depth))
  match state.builder.emit ⟨opcode, operand⟩ offset with
  | .error problem => throw (.fault (.refused problem))
  | .ok builder => set { state with builder, depth := state.depth + pushes - pops }

/-- Runs the part of a node one level deeper; the level is left again whether or not the part
fails, but not if the level itself is too deep. -/
def nested {α : Type} (offset : Int) (part : Emission α) : Emission α := do
  modify fun state => { state with nesting := state.nesting + 1 }
  if maxTreeDepth < (← get).nesting then
    reject .tooDeep offset
  let leave (state : Emitted) : Emitted := { state with nesting := state.nesting - 1 }
  ExceptT.mk fun state =>
    let (result, state) := part.run.run state
    (result, leave state)

/-- Runs the part of an operand and rejects it unless it has the expected type. -/
def expect (type : StaticType) (cause : CompileCause) (offset : Int)
    (part : Emission StaticType) : Emission Unit := do
  if (← part) ≠ type then
    reject cause offset

end Emission

def UnaryOperator.opcode : UnaryOperator → Opcode
  | .negation => .unary .neg
  | .factorial => .unary .fact

def BinaryOperator.opcode : BinaryOperator → Opcode
  | .plus => .binary .add
  | .minus => .binary .sub
  | .times => .binary .mul
  | .over => .binary .div
  | .modulo => .binary .mod
  | .power => .binary .pow

/-- How messages refer to an operator. -/
def operatorContext (sign : String) : String := "operator '" ++ sign ++ "'"

/-- The opcode of a function for the arguments of a call. -/
def NamedFunction.opcodeFor (f : NamedFunction) (supplied : Nat) (offset : Int) :
    Except CompileError Opcode :=
  match f.opcode? supplied with
  | some opcode => .ok opcode
  | none => .error ⟨.wrongArity f.name f.arities supplied, offset⟩

open Emission in
mutual

/-- Emits the code of an expression and gives its static type. -/
def Expr.emit (functions : Functions) : Expr → Emission StaticType
  | .number offset value => nested offset do
    let index ← intern value
    Emission.emit .pushConst (some index) offset
    return .number
  | .array offset items => nested offset do
    emitNumbers functions .arrayElement items
    Emission.emit .buildArray (some items.length) offset
    return .array
  | .unary offset op operand => nested offset do
    expect .number (.arrayOperand (operatorContext op.sign)) operand.offset (operand.emit functions)
    Emission.emit op.opcode none offset
    return .number
  | .binary offset op left right => nested offset do
    let cause := CompileCause.arrayOperand (operatorContext op.sign)
    expect .number cause left.offset (left.emit functions)
    expect .number cause right.offset (right.emit functions)
    Emission.emit op.opcode none offset
    return .number
  | .call offset name args => nested offset do
    match functions.find? name with
    | none => reject (.unknownFunction name) offset
    | some f =>
      match f.opcodeFor args.length offset with
      | .error e => throw (.error e)
      | .ok opcode =>
        if f.reducer then emitArray functions f.name args
        else emitNumbers functions (.arrayOperand f.name) args
        Emission.emit opcode none offset
        return .number
  | .hole offset => nested offset (throw (.fault .hole))

/-- Emits the code of expressions that have to be numbers, rejecting another with `cause`. -/
def emitNumbers (functions : Functions) (cause : CompileCause) : List Expr → Emission Unit
  | [] => return
  | e :: es => do
    expect .number cause e.offset (e.emit functions)
    emitNumbers functions cause es

/-- Emits the code of the first argument, which has to be an array. -/
def emitArray (functions : Functions) (name : String) : List Expr → Emission Unit
  | [] => throw (.fault (.missingArgument name))
  | e :: _ => expect .array (.arrayExpected name) e.offset (e.emit functions)

end

/-- Compiles an expression to a program that leaves one value, beginning with nothing emitted;
gives the outcome and what was emitted until then. -/
def Expr.compileWith (functions : Functions) (e : Expr) :
    Except CompileFailure Program × Emitted :=
  let (result, emitted) := (e.emit functions).run.run {}
  match result with
  | .error failure => (.error failure, emitted)
  | .ok _ =>
    if emitted.depth = 1 then (.ok emitted.builder.build, emitted)
    else (.error (.fault (.leftover emitted.depth)), emitted)

/-- Compiles an expression with the standard functions. -/
def Expr.compile (e : Expr) : Except CompileFailure Program :=
  (e.compileWith .standard).1

end StackCalc
