import Mathlib
import StackCalc.Proofs.Machine.Execution

/-!
# The stacks of a run

A verbose run records the stack before and after each of its steps.  These are the stacks that the
instructions up to the step leave, so a run can be looked into through the executions of its
beginnings, which compose.
-/

namespace StackCalc

variable [Library]

/-- The step at a place is recorded if the instructions before it succeed. -/
theorem getElem?_log_runFrom
    (constants : List Binary64) (offsets : List Int) (index : Nat) (stack : Stack)
    (is : List Instruction) (place : Nat) :
    (runFrom true constants offsets index stack is).log[place]? =
      match execute constants stack (is.take place), is[place]? with
      | .ok before, some i =>
        some ⟨index + place, i, some before, (i.step constants before).toOption⟩
      | _, _ => none := by
  induction is generalizing index stack place with
  | nil => simp [runFrom]
  | cons i is ih =>
      cases hstep : i.step constants stack with
      | error reason =>
          simp only [runFrom, hstep]
          cases place with
          | zero => simp [hstep, Stack.snapshot, Except.toOption]
          | succ place => simp [execute_cons_error hstep]
      | ok next =>
          simp only [runFrom, hstep]
          cases place with
          | zero => simp [hstep, Stack.snapshot, Except.toOption]
          | succ place =>
              rw [List.getElem?_cons_succ, ih, List.take_succ_cons, execute_cons_ok hstep,
                List.getElem?_cons_succ, Nat.add_right_comm, Nat.add_assoc]
              cases execute constants next (is.take place) with
              | error f => rfl
              | ok before => rfl

namespace Program

/-- The stack before the step at a place, if the run gets there. -/
def stackBefore (p : Program) (place : Nat) : Option Stack :=
  (p.run true).log[place]?.bind LogEntry.before

/-- The stack after the step at a place, if the run gets there and the step succeeds. -/
def stackAfter (p : Program) (place : Nat) : Option Stack :=
  (p.run true).log[place]?.bind LogEntry.after

variable {p : Program} {place : Nat} {stack : Stack}

theorem stackBefore_eq_some_iff :
    p.stackBefore place = some stack ↔
      place < p.instructions.length ∧
        execute p.constants [] (p.instructions.take place) = .ok stack := by
  rw [stackBefore, run, getElem?_log_runFrom]
  by_cases hplace : place < p.instructions.length
  · rw [List.getElem?_eq_getElem hplace]
    cases execute p.constants [] (p.instructions.take place) with
    | error f => simp
    | ok before => simp [hplace]
  · rw [List.getElem?_eq_none (Nat.le_of_not_lt hplace)]
    simp [hplace]

theorem stackAfter_eq_some_iff :
    p.stackAfter place = some stack ↔
      place < p.instructions.length ∧
        execute p.constants [] (p.instructions.take (place + 1)) = .ok stack := by
  rw [stackAfter, run, getElem?_log_runFrom]
  by_cases hplace : place < p.instructions.length
  · rw [List.getElem?_eq_getElem hplace, List.take_succ_eq_append_getElem hplace]
    cases hbefore : execute p.constants [] (p.instructions.take place) with
    | error f =>
        rw [execute_append_error hbefore]
        simp
    | ok before =>
        rw [execute_append_ok hbefore]
        cases hstep : p.instructions[place].step p.constants before with
        | error reason =>
            rw [execute_cons_error hstep]
            simp [hstep, Except.toOption, Except.mapError]
        | ok after =>
            rw [execute_cons_ok hstep]
            simp [hstep, hplace, Except.toOption, Except.mapError]
  · rw [List.getElem?_eq_none (Nat.le_of_not_lt hplace)]
    simp [hplace]

/-- The stack after a piece of code is what the code leaves of the stack before it. -/
theorem exists_stackBefore
    {front code back : List Instruction} {last : Nat} {after : Stack}
    (hcode : p.instructions = front ++ code ++ back)
    (hlast : front.length + code.length = last + 1) (hne : code ≠ [])
    (h : p.stackAfter last = some after) :
    ∃ before, p.stackBefore front.length = some before ∧
      execute p.constants before code = .ok after := by
  have hfront : p.instructions.take front.length = front := by
    rw [hcode, List.append_assoc, List.take_left]
  have hboth : p.instructions.take (last + 1) = front ++ code := by
    rw [hcode, ← hlast, ← List.length_append, List.take_left]
  obtain ⟨hplace, hexecute⟩ := stackAfter_eq_some_iff.mp h
  rw [hboth] at hexecute
  cases hbefore : execute p.constants [] front with
  | error f =>
      rw [execute_append_error hbefore] at hexecute
      cases hexecute
  | ok before =>
      have hpos := List.length_pos_of_ne_nil hne
      refine ⟨before, ?_, ?_⟩
      · rw [stackBefore_eq_some_iff, hfront]
        exact ⟨by omega, hbefore⟩
      · rw [execute_append_ok hbefore] at hexecute
        cases hafter : execute p.constants before code with
        | error f =>
            rw [hafter] at hexecute
            cases hexecute
        | ok final =>
            rw [hafter] at hexecute
            exact hexecute

end Program

end StackCalc
