import StackCalc.Evaluation

/-!
# Hosts

What reaches the streams depends not only on the program.  The host on which it runs bounds how deep
calls may be nested, and ends the program where they would be nested deeper.  The library that takes
cube roots and that adds up and compares the elements of arrays writes notices to the error stream
on its own, for instance when a sum overflows.  What it writes may depend on all the calls it has
been given, since a notice may be written only once.

The error stream is therefore a sequence of texts of the program and calls of the library, and only
a host makes a text of it.
-/

namespace StackCalc

variable [Library]

/-- A call of the library: the operation that makes it and the numbers it is about. -/
structure LibraryCall where
  opcode : Opcode
  numbers : List Binary64
deriving DecidableEq

/-- The call of the library that an instruction makes on a stack, unless it fails before. -/
def Instruction.libraryCall? (i : Instruction) (stack : Stack) : Option LibraryCall :=
  match i.opcode, stack with
  | .unary .cbrt, .number a :: _ => some ⟨i.opcode, [a]⟩
  | .reduce .len, _ => none
  | .reduce op, .array items :: _ =>
    if items.isEmpty && !op.allowsEmpty then none else some ⟨i.opcode, items⟩
  | _, _ => none

/-- The calls of the library that instructions make one after another, until one fails. -/
def libraryCallsFrom (constants : List Binary64) (stack : Stack) :
    List Instruction → List LibraryCall
  | [] => []
  | i :: is =>
    (i.libraryCall? stack).toList ++
      match i.step constants stack with
      | .ok next => libraryCallsFrom constants next is
      | .error _ => []

/-- The calls of the library in a run of a program. -/
def Program.libraryCalls (p : Program) : List LibraryCall :=
  libraryCallsFrom p.constants [] p.instructions

namespace CommandLine

/-- Why an evaluation ends without a value. -/
inductive Interruption where
  /-- An error of some stage. -/
  | error (e : CalcError)
  /-- Calls would have been nested deeper than the host allows. -/
  | recursion
deriving DecidableEq

namespace Interruption

/-- Whether the program reports an interruption; any other ends it.  It reports the errors of source
texts, but no faults. -/
def isReported : Interruption → Bool
  | .error (.compileFault _) | .error (.machineFault _) | .recursion => false
  | .error _ => true

def className : Interruption → String
  | .error e => e.className
  | .recursion => "RecursionError"

def message : Interruption → String
  | .error e => e.message
  | .recursion => "maximum recursion depth exceeded"

end Interruption

/-- A part of the error stream. -/
inductive ErrorPart where
  /-- A text of the program. -/
  | text (text : String)
  /-- What the library writes in a call, if anything. -/
  | call (call : LibraryCall)
deriving DecidableEq

structure Host where
  /-- How deep calls may be nested while a tree is written. -/
  room : Nat
  /-- What the library writes to the error stream in a call, after earlier calls. -/
  notice : (earlier : List LibraryCall) → LibraryCall → String
  /-- What is written to the error stream when an interruption ends the program. -/
  farewell : Interruption → String

namespace Host

/-- The text of the parts of an error stream, if the library has been called before. -/
def errorText (host : Host) (earlier : List LibraryCall) : List ErrorPart → String
  | [] => ""
  | .text text :: parts => text ++ host.errorText earlier parts
  | .call call :: parts => host.notice earlier call ++ host.errorText (earlier ++ [call]) parts

/-- A host that leaves room for a thousand nested calls and on which the library writes nothing. -/
def quiet : Host where
  room := 1000
  notice _ _ := ""
  farewell interruption := interruption.className ++ ": " ++ interruption.message ++ "\n"

end Host

end CommandLine

end StackCalc
