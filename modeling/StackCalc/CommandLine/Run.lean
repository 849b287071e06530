import StackCalc.CommandLine.Host
import StackCalc.CommandLine.Options
import StackCalc.Program.Listing
import StackCalc.Report

/-!
# The command line program

Everything the program prints is a function of its arguments, of the lines it is given and of the
host.  With an expression it shows what the options ask for and then the value, or a report of the
error on the error stream.  Without one it answers lines until there are no more; every line is
evaluated on its own.

A tree that is too high to be written on the host ends the program without a report, as a fault of
the compiler or of the machine would.
-/

namespace StackCalc

variable [Library]

namespace CommandLine

/-- What is printed on the two streams. -/
structure Printed where
  out : String := ""
  /-- The texts on the error stream and the calls of the library between them. -/
  err : List ErrorPart := []
deriving DecidableEq

def Printed.append (a b : Printed) : Printed := ⟨a.out ++ b.out, a.err ++ b.err⟩

instance : Append Printed := ⟨Printed.append⟩

def printLine (line : String) : Printed := { out := line ++ "\n" }

def printError (line : String) : Printed := { err := [.text (line ++ "\n")] }

/-- What is printed for one reason only. -/
def onlyIf (condition : Bool) (printed : Printed) : Printed := if condition then printed else {}

/-- The printed parts of an evaluation before its outcome, the log of its run, and its outcome. -/
structure Trial where
  /-- What the options ask to be shown before the run, and the calls of the library during it. -/
  shown : Printed := {}
  /-- The log of the run, empty if there was none. -/
  log : List LogEntry := []
  /-- The value, or what came in between. -/
  outcome : Except Interruption Value

/-- The tree of an expression if the options ask for it and the host has room to write it. -/
def showTree (host : Host) (options : Options) (expr : Expr) : Except Interruption Printed :=
  if options.ast then
    match expr.prefixTextWithin host.room with
    | some text => .ok (printLine text)
    | none => .error .recursion
  else .ok {}

/-- Evaluates a source text and shows on the way what the options ask for. -/
def trial (host : Host) (options : Options) (source : String) : Trial :=
  match parseSource source with
  | .error e => { outcome := .error (.error e) }
  | .ok expr =>
    match showTree host options expr with
    | .error interruption => { outcome := .error interruption }
    | .ok tree =>
      match expr.compile with
      | .error failure =>
        { shown := tree, outcome := .error (.error (.ofCompileFailure failure)) }
      | .ok program =>
        let run := program.run (options.verbose || options.trace)
        let listing := onlyIf options.disassemble (printLine program.listing)
        { shown := tree ++ listing ++ { err := program.libraryCalls.map .call }
          log := run.log
          outcome := run.result.mapError fun failure => .error (.ofRunFailure failure) }

/-- What is printed for a source text, and the exit code or what ends the program.  The table is
printed in every case. -/
def runSource (host : Host) (options : Options) (source : String) :
    Printed × Except Interruption Nat :=
  let t := trial host options source
  let table := onlyIf options.trace (printLine (stepTable t.log))
  match t.outcome with
  | .ok value => (t.shown ++ table ++ printLine value.text, .ok 0)
  | .error (.error e) =>
    if (Interruption.error e).isReported then
      (t.shown ++ table ++ printError (e.report source t.log options.verbose) ++
        onlyIf options.tracebackJson (printError e.json), .ok 1)
    else (t.shown ++ table, .error (.error e))
  | .error .recursion => (t.shown ++ table, .error .recursion)

/-! ## Lines -/

/-- The text with which the answering of lines begins. -/
def banner : String := "Bytecode calculator REPL. ':dis EXPR' shows bytecode, Ctrl-D exits."

/-- The text that asks for a line. -/
def prompt : String := ">>> "

/-- The start of a line that asks for a listing. -/
def listingCommand : List Char := ":dis ".toList

/-- A source text to be answered, with its listing or without. -/
structure Query where
  source : String
  listed : Bool
deriving DecidableEq

/-- What a line asks for; a blank line asks for nothing. -/
def query? (line : String) : Option Query :=
  let trimmed := trimBlanks line.toList
  if trimmed.isEmpty then none
  else if listingCommand.isPrefixOf trimmed then
    some ⟨String.ofList (trimmed.drop listingCommand.length), true⟩
  else some ⟨line, false⟩

/-- What is printed for one line, and whether it ends the program. -/
def answerLine (host : Host) (verbose : Bool) (line : String) :
    Printed × Except Interruption Nat :=
  match query? line with
  | none => ({}, .ok 0)
  | some query => runSource host { verbose, disassemble := query.listed } query.source

/-- What is printed for the lines of an input, with a prompt before each line and before the end
of the input, and the exit code or what ends the program. -/
def answerLines (host : Host) (verbose : Bool) : List String → Printed × Except Interruption Nat
  | [] => ({ out := prompt ++ "\n" }, .ok 0)
  | line :: lines =>
    let (answer, ending) := answerLine host verbose line
    let asked : Printed := { out := prompt }
    match ending with
    | .error interruption => (asked ++ answer, .error interruption)
    | .ok _ =>
      let (answers, ending) := answerLines host verbose lines
      (asked ++ answer ++ answers, ending)

/-! ## The program -/

def usage : String :=
  "usage: bytecalc [-h] [-verbose] [--trace] [--disassemble] [--ast]\n" ++
  "                [--traceback-json] [--functions]\n" ++
  "                [expression]\n"

def helpText : String :=
  usage ++ "\n" ++
  "Compile an arithmetic expression to bytecode and run it\n\n" ++
  "positional arguments:\n" ++
  "  expression           Expression to evaluate; starts a REPL when omitted\n\n" ++
  "options:\n" ++
  "  -h, --help           show this help message and exit\n" ++
  "  -verbose, --verbose  Include stack snapshots in traces and errors\n" ++
  "  --trace              Print the VM step log\n" ++
  "  --disassemble        Print the compiled bytecode before running it\n" ++
  "  --ast                Print the parsed expression tree\n" ++
  "  --traceback-json     Also emit errors as JSON\n" ++
  "  --functions          List the known function names and exit\n"

/-- What the program does with its arguments: it prints something and ends, evaluates an expression,
or answers lines. -/
inductive Plan where
  | finish (printed : Printed) (code : Nat)
  | evaluate (options : Options) (source : String)
  | answer (verbose : Bool)

def plan (arguments : List String) : Plan :=
  match parseArguments arguments with
  | .error e => .finish { err := [.text (usage ++ "bytecalc: error: " ++ e.message ++ "\n")] } 2
  | .ok .help => .finish { out := helpText } 0
  | .ok (.run options) =>
    if options.functions then
      .finish { out := String.join (Functions.standard.names.map (· ++ "\n")) } 0
    else
      match options.expression with
      | none => .answer options.verbose
      | some source => .evaluate options source

/-- What the program prints for given arguments and lines of input, and its exit code or what ends
it. -/
def perform (host : Host) (arguments lines : List String) : Printed × Except Interruption Nat :=
  match plan arguments with
  | .finish printed code => (printed, .ok code)
  | .evaluate options source => runSource host options source
  | .answer verbose =>
    let (answers, ending) := answerLines host verbose lines
    (printLine banner ++ answers, ending)

/-- The texts of the two streams. -/
structure Streams where
  out : String
  err : String
deriving DecidableEq

/-- The streams and the exit code of the program on a host. -/
def run (arguments lines : List String) (host : Host := .quiet) : Streams × Nat :=
  let (printed, ending) := perform host arguments lines
  let err := host.errorText [] printed.err
  match ending with
  | .ok code => (⟨printed.out, err⟩, code)
  | .error interruption => (⟨printed.out, err ++ host.farewell interruption⟩, 1)

end CommandLine

end StackCalc
