import StackCalc.CommandLine.Run

/-!
# Running the program

The program on the real streams.  It prints what `StackCalc.CommandLine.perform` says, and when it
answers lines it does so as they come.  The library writes nothing here, and calls may be nested as
on a quiet host.
-/

namespace StackCalc

namespace CommandLine

/-- Prints on the real streams. -/
def Printed.show (printed : Printed) : IO Unit := do
  let out ← IO.getStdout
  let err ← IO.getStderr
  out.putStr printed.out
  out.flush
  err.putStr (Host.quiet.errorText [] printed.err)
  err.flush

/-- The exit code, after a farewell if the program has been ended. -/
def exitCode : Except Interruption Nat → IO UInt32
  | .ok code => return code.toUInt32
  | .error interruption => do
    (← IO.getStderr).putStr (Host.quiet.farewell interruption)
    return 1

/-- Answers the lines of a stream until it ends. -/
partial def serve (verbose : Bool) (input : IO.FS.Stream) : IO UInt32 := do
  Printed.show { out := prompt }
  let line ← input.getLine
  if line.isEmpty then
    Printed.show { out := "\n" }
    return 0
  let text := if line.endsWith "\n" then String.ofList line.toList.dropLast else line
  let (answer, ending) := answerLine .quiet verbose text
  answer.show
  match ending with
  | .ok _ => serve verbose input
  | .error _ => exitCode ending

end CommandLine

end StackCalc

open StackCalc.CommandLine in
/-- Runs the calculator on the arguments of the command line. -/
def main (arguments : List String) : IO UInt32 := do
  match plan arguments with
  | .finish printed code =>
    printed.show
    exitCode (.ok code)
  | .evaluate options source =>
    let (printed, ending) := runSource .quiet options source
    printed.show
    exitCode ending
  | .answer verbose =>
    (printLine banner).show
    serve verbose (← IO.getStdin)
