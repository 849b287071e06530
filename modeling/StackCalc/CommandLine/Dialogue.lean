import StackCalc.CommandLine.Run

/-!
# Dialogues

The answering of lines as a machine that is advanced step by step.  A step asks for a line, reads it
and answers it, or meets the end of the input and ends the dialogue with an exit code.

A line is answered by a program that reports the errors of source texts and nothing else, so any
other interruption would end the dialogue before the lines that follow are read.
-/

namespace StackCalc

variable [Library]

namespace CommandLine

structure Dialogue where
  verbose : Bool
  /-- The lines that are not read yet. -/
  lines : List String
  printed : Printed
  /-- The exit code of the dialogue or what ended it, if it has ended. -/
  ending : Option (Except Interruption Nat)

namespace Dialogue

def start (verbose : Bool) (lines : List String) : Dialogue :=
  ⟨verbose, lines, printLine banner, none⟩

/-- The dialogue after one more line, or after the end of the input. -/
def step (host : Host) (d : Dialogue) : Dialogue :=
  if d.ending.isSome then d
  else
    let asked : Dialogue := { d with printed := d.printed ++ ({ out := prompt } : Printed) }
    match d.lines with
    | [] => { asked with printed := asked.printed ++ printLine "", ending := some (.ok 0) }
    | line :: lines =>
      let (answer, result) := answerLine host d.verbose line
      { asked with
        lines := lines
        printed := asked.printed ++ answer
        ending :=
          match result with
          | .ok _ => none
          | .error interruption => some (.error interruption) }

end Dialogue

end CommandLine

end StackCalc
