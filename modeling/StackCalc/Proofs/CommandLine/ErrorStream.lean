import Mathlib
import StackCalc.CommandLine.Run

/-!
# The error stream

The parts of an error stream are texts of the program and calls of the library.  The texts alone are
what the program writes.  On a host the library may write something between them, which depends on
the earlier calls but not on the texts, so that the stream of a whole consists of the streams of its
pieces, each after the calls of the pieces before it.

The calls of a run are made by the steps of its log.
-/

namespace StackCalc

namespace CommandLine

/-! ## Parts -/

namespace ErrorPart

def text? : ErrorPart → Option String
  | .text words => some words
  | .call _ => none

def call? : ErrorPart → Option LibraryCall
  | .text _ => none
  | .call made => some made

@[simp] theorem text?_text (words : String) : (ErrorPart.text words).text? = some words := rfl

@[simp] theorem text?_call (made : LibraryCall) : (ErrorPart.call made).text? = none := rfl

@[simp] theorem call?_text (words : String) : (ErrorPart.text words).call? = none := rfl

@[simp] theorem call?_call (made : LibraryCall) : (ErrorPart.call made).call? = some made := rfl

end ErrorPart

namespace Printed

/-- What the program itself writes to the error stream. -/
def written (printed : Printed) : String :=
  String.join (printed.err.filterMap ErrorPart.text?)

/-- The calls of the library while something is printed. -/
def calls (printed : Printed) : List LibraryCall :=
  printed.err.filterMap ErrorPart.call?

theorem append_eq (a b : Printed) : a ++ b = ⟨a.out ++ b.out, a.err ++ b.err⟩ := rfl

end Printed

theorem Printed.written_eq (out : String) (calls : List LibraryCall) (texts : List String) :
    Printed.written ⟨out, calls.map .call ++ texts.map .text⟩ = String.join texts := by
  simp [written, List.filterMap_map, Function.comp_def]

theorem Printed.calls_eq (out : String) (calls : List LibraryCall) (texts : List String) :
    Printed.calls ⟨out, calls.map .call ++ texts.map .text⟩ = calls := by
  simp [Printed.calls, List.filterMap_map, Function.comp_def]

namespace Host

variable {host : Host}

/-- If the library writes nothing, the stream holds what the program writes. -/
theorem errorText_of_silent {earlier : List LibraryCall} {parts : List ErrorPart}
    (h : ∀ before, ∀ call ∈ parts.filterMap ErrorPart.call?, host.notice before call = "") :
    host.errorText earlier parts = String.join (parts.filterMap ErrorPart.text?) := by
  induction parts generalizing earlier with
  | nil => rfl
  | cons part parts ih =>
      cases part with
      | text words =>
          rw [List.filterMap_cons_none (ErrorPart.call?_text words)] at h
          rw [List.filterMap_cons_some (ErrorPart.text?_text words), errorText, ih h,
            String.join_cons]
      | call made =>
          rw [List.filterMap_cons_some (ErrorPart.call?_call made)] at h
          have hmade : host.notice earlier made = "" := h earlier made List.mem_cons_self
          have hparts : ∀ before, ∀ call ∈ parts.filterMap ErrorPart.call?,
              host.notice before call = "" :=
            fun before call hcall => h before call (List.mem_cons_of_mem _ hcall)
          rw [List.filterMap_cons_none (ErrorPart.text?_call made), errorText, hmade, ih hparts,
            String.empty_append]

end Host

end CommandLine

/-! ## Calls -/

/-- The call that a step makes according to its log entry. -/
def LogEntry.libraryCall? (entry : LogEntry) : Option LibraryCall :=
  entry.before.bind entry.instruction.libraryCall?

variable [Library]

theorem libraryCallsFrom_eq (constants : List Binary64) (offsets : List Int) (index : Nat)
    (stack : Stack) (is : List Instruction) :
    libraryCallsFrom constants stack is =
      (runFrom true constants offsets index stack is).log.filterMap LogEntry.libraryCall? := by
  induction is generalizing index stack with
  | nil => rfl
  | cons i is ih =>
      rw [libraryCallsFrom, runFrom]
      cases i.step constants stack with
      | error failure =>
          cases hcall : i.libraryCall? stack <;> simp [LogEntry.libraryCall?, Stack.snapshot, hcall]
      | ok next =>
          cases hcall : i.libraryCall? stack <;>
            simp [LogEntry.libraryCall?, Stack.snapshot, hcall, ih (index + 1)]

theorem Program.libraryCalls_eq (p : Program) :
    p.libraryCalls = (p.run true).log.filterMap LogEntry.libraryCall? :=
  libraryCallsFrom_eq p.constants p.offsets 0 [] p.instructions

end StackCalc
