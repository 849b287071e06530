import StackCalc.Evaluation

/-!
# Sessions

A session evaluates one source text after another with the same compiler and the same machine.
Both keep what their last use left behind, also if it broke off: the compiler what it has emitted,
the machine the constants and the log of the program.  Each use begins by discarding it.

A text that does not parse leaves both as they were, and one that does not compile leaves the
machine.
-/

namespace StackCalc

variable [Library]

/-! ## Compilers -/

/-- Compiles an expression after whatever has been compiled before. -/
def Expr.generate (functions : Functions) (e : Expr) : Emission Program := do
  set ({} : Emitted)
  let _ ← e.emit functions
  let emitted ← get
  if emitted.depth = 1 then
    return emitted.builder.build
  else
    throw (.fault (.leftover emitted.depth))

/-! ## Machines -/

/-- The log of the run that is going on. -/
structure StepLog where
  /-- Whether the stacks after the steps are kept. -/
  verbose : Bool
  entries : List LogEntry := []

namespace StepLog

/-- Adds the entry of a step that begins, numbered by its place. -/
def record (log : StepLog) (i : Instruction) (before : Option Stack) : LogEntry × StepLog :=
  let entry : LogEntry := ⟨log.entries.length, i, before, none⟩
  (entry, { log with entries := log.entries ++ [entry] })

/-- Completes the entry of a step that has succeeded. -/
def finish (log : StepLog) (entry : LogEntry) (stack : Stack) : StepLog :=
  if log.verbose then
    { log with entries := log.entries.set entry.index { entry with after := some stack } }
  else log

end StepLog

/-- A machine, with what the last run left behind. -/
structure Machine where
  verbose : Bool := false
  log : StepLog := { verbose }
  /-- The pool from which constants are pushed. -/
  constants : List Binary64 := []

/-- A part of a run: it changes the machine and may fail. -/
abbrev Routine := ExceptT RunFailure (StateM Machine)

/-- The failure of a run at the step of an entry. -/
def LogEntry.failure (entry : LogEntry) (offset : Option Int) : StepFailure → RunFailure
  | .error cause => .error ⟨cause, entry.instruction.opcode, entry.index, offset⟩
  | .fault f => .fault f

namespace Machine

/-- Runs one instruction, of the given source offset, and gives the stack after it. -/
def step (offset : Option Int) (stack : Stack) (i : Instruction) : Routine Stack := do
  let machine ← get
  let (entry, log) := machine.log.record i (Stack.snapshot machine.verbose stack)
  set { machine with log }
  match i.step machine.constants stack with
  | .error failure => throw (entry.failure offset failure)
  | .ok next =>
    set { machine with log := log.finish entry next }
    return next

/-- Runs instructions of which the first has the place `place` in the program. -/
def steps (offsets : List Int) (place : Nat) (stack : Stack) : List Instruction → Routine Stack
  | [] => return stack
  | i :: is => do
    let next ← step offsets[place]? stack i
    steps offsets (place + 1) next is

/-- Runs a program after whatever has been run before. -/
def execute (p : Program) : Routine Value := do
  modify fun machine =>
    { machine with log := { verbose := machine.verbose }, constants := p.constants }
  let stack ← steps p.offsets 0 [] p.instructions
  ExceptT.mk (pure (finalValue stack))

end Machine

/-! ## Sessions -/

structure Session where
  /-- What the last compilation emitted. -/
  emitted : Emitted := {}
  machine : Machine := {}

namespace Session

/-- The log of the last run. -/
def log (session : Session) : List LogEntry := session.machine.log.entries

def evaluate (session : Session) (source : String) (verbose : Bool := false) :
    Except CalcError Value × Session :=
  match parseSource source with
  | .error e => (.error e, session)
  | .ok e =>
    let (program, emitted) := (e.generate .standard).run.run session.emitted
    match program with
    | .error failure => (.error (.ofCompileFailure failure), { session with emitted })
    | .ok program =>
      let (result, machine) :=
        (Machine.execute program).run.run { session.machine with verbose }
      (result.mapError .ofRunFailure, ⟨emitted, machine⟩)

end Session

end StackCalc
