import StackCalc.Compiler
import StackCalc.Expr.Parser
import StackCalc.Machine
import StackCalc.Token.Reading

/-!
# Evaluating source texts

A source text is tokenized, parsed, compiled and run.  Each stage has its own errors; besides
these there are the faults of compilation and of the machine, which no source text causes.
-/

namespace StackCalc

variable [Library]

inductive CalcError where
  | lexical (e : LexError)
  | parse (e : ParseError)
  | compile (e : CompileError)
  | runtime (e : RuntimeError)
  | compileFault (f : CompileFault)
  | machineFault (f : MachineFault)
deriving DecidableEq

namespace CalcError

/-- The stage at which an error arose, as it is reported. -/
def stage : CalcError → String
  | .lexical _ => "LexError"
  | .parse _ => "ParseError"
  | .compile _ => "CodegenError"
  | .runtime _ => "RuntimeError"
  | .compileFault _ | .machineFault _ => "InternalFault"

/-- The class of an error, as it is reported. -/
def className : CalcError → String
  | .runtime _ => "CalcRuntimeError"
  | e => e.stage

def message : CalcError → String
  | .lexical e => e.message
  | .parse e => e.message
  | .compile e => e.cause.message
  | .runtime e => e.cause.message
  | .compileFault f => f.message
  | .machineFault f => f.message

/-- The source offset of an error, if it has one. -/
def offset : CalcError → Option Int
  | .lexical e => some e.offset
  | .parse e => some e.token.offset
  | .compile e => some e.offset
  | .runtime e => e.offset
  | .compileFault _ | .machineFault _ => none

/-- An error on one line: its stage, its kind if it arose at run time, its offset and its
wording. -/
def describe (e : CalcError) : String :=
  let kind :=
    match e with
    | .runtime e => " (" ++ e.cause.kind.name ++ ")"
    | _ => ""
  let place :=
    match e.offset with
    | some offset => " at offset " ++ integerText offset
    | none => ""
  e.stage ++ kind ++ place ++ ": " ++ e.message

def ofCompileFailure : CompileFailure → CalcError
  | .error e => .compile e
  | .fault f => .compileFault f

def ofRunFailure : RunFailure → CalcError
  | .error e => .runtime e
  | .fault f => .machineFault f

end CalcError

def parseSource (source : String) : Except CalcError Expr := do
  let tokens ← (tokenize source).mapError .lexical
  (Expr.ofTokens tokens).mapError .parse

def compileSource (source : String) : Except CalcError Program := do
  let e ← parseSource source
  e.compile.mapError .ofCompileFailure

def Program.evaluate (p : Program) : Except CalcError Value :=
  p.run.result.mapError .ofRunFailure

/-- The value of a source text. -/
def evaluate (source : String) : Except CalcError Value := do
  (← compileSource source).evaluate

/-- The outcome of an evaluation on one line: the text of the value, or the description of the
error. -/
def describeOutcome : Except CalcError Value → String
  | .ok value => value.text
  | .error e => e.describe

end StackCalc
