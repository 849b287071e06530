import StackCalc.Evaluation
import StackCalc.Text.Forms

/-!
# Error reports

A report in text shows the source with a caret under the place of the error, then the step that
failed if the log has it, and last the description of the error.  A report in JSON holds the same
facts as members of an object.
-/

namespace StackCalc

variable [Library]

/-- The source on one line: every blank shows as a space, so that columns are offsets. -/
def displayLine (source : String) : String :=
  String.ofList (source.toList.map fun c => if isBlank c then ' ' else c)

/-- The source and the caret under an offset. -/
def caretLines (source : String) (offset : Int) : List String :=
  ["  " ++ displayLine source,
    "  " ++ String.ofList (List.replicate offset.toNat ' ') ++ "^"]

/-- The lines on the failed step, from its entry in the log. -/
def stepLines (verbose : Bool) (step : Nat) (entry : LogEntry) : List String :=
  let stack :=
    match entry.before with
    | some stack => if verbose then ["  stack: " ++ Stack.line stack] else []
    | none => []
  ("  at step " ++ decimalText step ++ ": " ++ entry.instruction.opcode.mnemonic) :: stack

def CalcError.step? : CalcError → Option Nat
  | .runtime e => some e.step
  | _ => none

/-- The report of an error in a source text; it looks the failed step up in a log. -/
def CalcError.report (e : CalcError) (source : String) (log : List LogEntry)
    (verbose : Bool := false) : String :=
  let place :=
    match e.offset with
    | some offset => caretLines source offset
    | none => []
  let step :=
    match e.step? with
    | some step =>
      match log[step]? with
      | some entry => stepLines verbose step entry
      | none => []
    | none => []
  "\n".intercalate (place ++ step ++ [e.describe])

/-- The members that only errors of one stage have. -/
def CalcError.ownMembers : CalcError → List (String × String)
  | .runtime e =>
    [("kind", jsonString e.cause.kind.name), ("opcode", jsonString e.opcode.mnemonic),
      ("step_index", decimalText e.step)]
  | .parse e => [("expected", jsonList 2 (e.expectedNames.map jsonString))]
  | _ => []

def CalcError.json (e : CalcError) : String :=
  jsonObject 0
    [("error",
      jsonObject 1
        ([("type", jsonString e.className), ("stage", jsonString e.stage),
          ("message", jsonString e.message), ("offset", jsonInt? e.offset)] ++
          e.ownMembers))]

end StackCalc
