import Mathlib
import StackCalc.Machine

/-!
# Execution of straight-line code

`execute` is the part of a run that concerns the stack alone: it gives the stack after a list of
instructions, or the first step that fails.  Unlike a run it does not ask for exactly one value
at the end, so the code of a part of an expression can be executed on the stack that the parts
before it have left, and executions of consecutive code compose.

The result of a run is determined by the execution of its instructions.
-/

namespace StackCalc

theorem constantAt?_natCast (constants : List Binary64) (slot : Nat) :
    constantAt? constants (some slot) = constants[slot]? := by
  have hslot : ¬ (slot : Int) < 0 := by omega
  rw [constantAt?, if_neg hslot, Int.toNat_natCast]

/-- The first failing step of an execution. -/
structure FailedStep where
  /-- The number of steps before it. -/
  place : Nat
  /-- Its instruction. -/
  instruction : Instruction
  /-- Why it fails. -/
  reason : StepFailure
deriving DecidableEq

namespace FailedStep

/-- The same step of code that has `count` further instructions in front. -/
def after (count : Nat) (f : FailedStep) : FailedStep :=
  { f with place := count + f.place }

/-- The failure of a run whose first instruction has the place `index`. -/
def toRunFailure (index : Nat) (offsets : List Int) (f : FailedStep) : RunFailure :=
  f.reason.toRunFailure f.instruction.opcode (index + f.place) offsets

@[simp] theorem after_zero (f : FailedStep) : f.after 0 = f := by
  simp [after]

@[simp] theorem after_after (m n : Nat) (f : FailedStep) :
    (f.after n).after m = f.after (m + n) := by
  simp [after, Nat.add_assoc]

theorem toRunFailure_after (count index : Nat) (offsets : List Int) (f : FailedStep) :
    (f.after count).toRunFailure index offsets = f.toRunFailure (index + count) offsets := by
  simp [toRunFailure, after, Nat.add_assoc]

end FailedStep

variable [Library]

/-- The stack after instructions, or the first of them that fails. -/
def execute (constants : List Binary64) (stack : Stack) :
    List Instruction → Except FailedStep Stack
  | [] => .ok stack
  | i :: is =>
    match i.step constants stack with
    | .error reason => .error ⟨0, i, reason⟩
    | .ok next => (execute constants next is).mapError (FailedStep.after 1)

@[simp] theorem execute_nil (constants : List Binary64) (stack : Stack) :
    execute constants stack [] = .ok stack := rfl

theorem execute_cons_ok
    {constants : List Binary64} {stack next : Stack} {i : Instruction}
    (h : i.step constants stack = .ok next) (is : List Instruction) :
    execute constants stack (i :: is) =
      (execute constants next is).mapError (FailedStep.after 1) := by
  rw [execute, h]

theorem execute_cons_error
    {constants : List Binary64} {stack : Stack} {i : Instruction} {reason : StepFailure}
    (h : i.step constants stack = .error reason) (is : List Instruction) :
    execute constants stack (i :: is) = .error ⟨0, i, reason⟩ := by
  rw [execute, h]

theorem execute_cons_eq_ok_iff
    {constants : List Binary64} {stack final : Stack} {i : Instruction} {is : List Instruction} :
    execute constants stack (i :: is) = .ok final ↔
      ∃ next, i.step constants stack = .ok next ∧ execute constants next is = .ok final := by
  cases hstep : i.step constants stack with
  | error reason => simp [execute_cons_error hstep]
  | ok next =>
      rw [execute_cons_ok hstep]
      cases hrest : execute constants next is <;> simp [Except.mapError, hrest]

theorem execute_cons_eq_error_iff
    {constants : List Binary64} {stack : Stack} {i : Instruction} {is : List Instruction}
    {f : FailedStep} :
    execute constants stack (i :: is) = .error f ↔
      (∃ reason, i.step constants stack = .error reason ∧ f = ⟨0, i, reason⟩) ∨
        ∃ next g, i.step constants stack = .ok next ∧ execute constants next is = .error g ∧
          f = g.after 1 := by
  cases hstep : i.step constants stack with
  | error reason => simp [execute_cons_error hstep, eq_comm]
  | ok next =>
      rw [execute_cons_ok hstep]
      cases hrest : execute constants next is <;> simp [Except.mapError, hrest, eq_comm]

/-- After code that succeeds, the code that follows runs on the stack it leaves. -/
theorem execute_append_ok
    {constants : List Binary64} {stack final : Stack} {xs : List Instruction}
    (h : execute constants stack xs = .ok final) (ys : List Instruction) :
    execute constants stack (xs ++ ys) =
      (execute constants final ys).mapError (FailedStep.after xs.length) := by
  induction xs generalizing stack with
  | nil =>
      cases h
      cases hys : execute constants final ys <;> simp [Except.mapError, hys]
  | cons i is ih =>
      obtain ⟨next, hstep, hrest⟩ := execute_cons_eq_ok_iff.mp h
      rw [List.cons_append, execute_cons_ok hstep, ih hrest]
      cases execute constants final ys with
      | error f => simp [Except.mapError, Nat.add_comm]
      | ok s => rfl

theorem execute_append_error
    {constants : List Binary64} {stack : Stack} {xs : List Instruction} {f : FailedStep}
    (h : execute constants stack xs = .error f) (ys : List Instruction) :
    execute constants stack (xs ++ ys) = .error f := by
  induction xs generalizing stack f with
  | nil => cases h
  | cons i is ih =>
      obtain ⟨reason, hstep, rfl⟩ | ⟨next, g, hstep, hrest, rfl⟩ := execute_cons_eq_error_iff.mp h
      · exact execute_cons_error hstep (is ++ ys)
      · rw [List.cons_append, execute_cons_ok hstep, ih hrest]
        rfl

/-- The result of a run is read off the execution of its instructions. -/
theorem runFrom_result
    (verbose : Bool) (constants : List Binary64) (offsets : List Int) (index : Nat)
    (stack : Stack) (is : List Instruction) :
    (runFrom verbose constants offsets index stack is).result =
      match execute constants stack is with
      | .ok final => finalValue final
      | .error f => .error (f.toRunFailure index offsets) := by
  induction is generalizing index stack with
  | nil => rfl
  | cons i is ih =>
      cases hstep : i.step constants stack with
      | error reason =>
          rw [execute_cons_error hstep]
          simp [runFrom, hstep, FailedStep.toRunFailure]
      | ok next =>
          have hresult :
              (runFrom verbose constants offsets index stack (i :: is)).result =
                (runFrom verbose constants offsets (index + 1) next is).result := by
            simp [runFrom, hstep]
          rw [hresult, ih, execute_cons_ok hstep]
          cases execute constants next is with
          | ok final => rfl
          | error f => simp [Except.mapError, FailedStep.toRunFailure_after]

end StackCalc
