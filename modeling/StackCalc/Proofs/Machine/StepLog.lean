import Mathlib
import StackCalc.Proofs.Machine.Trace

/-!
# The log of a run

The log of a verbose run is a trace of the run.  Its entries are about the instructions in their
order, each starts from the stack that the one before it left, and the last entry shows how the run
ended: with the value on a stack of its own, with a stack of another height, or at a step that
failed.  In the last case there is no entry after that step, and the entry of the step is the only
one without a stack after it.

Nothing is assumed of the program; it may fault at any instruction.
-/

namespace StackCalc

/-! ## Stacks -/

theorem bind_ne_error {ε α β : Type} {x : Except ε α} {f : α → Except ε β} {e : ε}
    (hx : x ≠ .error e) (hf : ∀ a, f a ≠ .error e) : x >>= f ≠ .error e := by
  cases x with
  | error e' =>
      rintro ⟨⟩
      exact hx rfl
  | ok a => exact hf a

namespace Stack

variable {height : Nat}

theorem popNumber_ne_leftover (stack : Stack) :
    popNumber stack ≠ .error (.fault (.leftover height)) := by
  rcases stack with _ | ⟨_ | _, stack⟩ <;> rintro ⟨⟩

theorem popArray_ne_leftover (stack : Stack) :
    popArray stack ≠ .error (.fault (.leftover height)) := by
  rcases stack with _ | ⟨_ | _, stack⟩ <;> rintro ⟨⟩

theorem popNumbers_ne_leftover (items : List Binary64) (count : Nat) (stack : Stack) :
    popNumbers items count stack ≠ .error (.fault (.leftover height)) := by
  induction count generalizing items stack with
  | zero => rintro ⟨⟩
  | succ count ih => exact bind_ne_error (popNumber_ne_leftover stack) fun top => ih _ top.2

theorem pushResult_ne_fault (stack : Stack) (outcome : Outcome Binary64) (f : MachineFault) :
    pushResult stack outcome ≠ .error (.fault f) := by
  cases outcome <;> rintro ⟨⟩

end Stack

/-! ## Executions -/

variable [Library] {constants : List Binary64} {stack final : Stack} {is : List Instruction}

theorem Instruction.step_ne_leftover (i : Instruction) (constants : List Binary64) (stack : Stack)
    (height : Nat) : i.step constants stack ≠ .error (.fault (.leftover height)) := by
  obtain ⟨opcode, operand⟩ := i
  cases opcode with
  | pushConst =>
      simp only [step]
      split <;> rintro ⟨⟩
  | buildArray =>
      simp only [step]
      split
      · rintro ⟨⟩
      · apply bind_ne_error (Stack.popNumbers_ne_leftover _ _ _)
        rintro top ⟨⟩
  | unary op =>
      apply bind_ne_error (Stack.popNumber_ne_leftover stack)
      exact fun top => Stack.pushResult_ne_fault _ _ _
  | binary op =>
      apply bind_ne_error (Stack.popNumber_ne_leftover stack)
      intro top
      apply bind_ne_error (Stack.popNumber_ne_leftover top.2)
      exact fun next => Stack.pushResult_ne_fault _ _ _
  | reduce op =>
      apply bind_ne_error (Stack.popArray_ne_leftover stack)
      exact fun top => Stack.pushResult_ne_fault _ _ _
  | unassigned number => rintro ⟨⟩

theorem exists_execute_take
    (h : execute constants stack is = .ok final) (place : Nat) :
    ∃ before, execute constants stack (is.take place) = .ok before := by
  cases htake : execute constants stack (is.take place) with
  | ok before => exact ⟨before, rfl⟩
  | error f =>
      have hwhole := execute_append_error htake (is.drop place)
      rw [List.take_append_drop, h] at hwhole
      cases hwhole

/-- A failed execution succeeds up to the failing step and fails there. -/
theorem exists_step_eq_error {f : FailedStep}
    (h : execute constants stack is = .error f) :
    ∃ before, execute constants stack (is.take f.place) = .ok before ∧
      is[f.place]? = some f.instruction ∧
      f.instruction.step constants before = .error f.reason := by
  induction is generalizing stack f with
  | nil => cases h
  | cons i is ih =>
      obtain ⟨reason, hstep, rfl⟩ | ⟨next, g, hstep, hrest, rfl⟩ := execute_cons_eq_error_iff.mp h
      · exact ⟨stack, rfl, rfl, hstep⟩
      · obtain ⟨before, hbefore, hinstruction, hreason⟩ := ih hrest
        refine ⟨before, ?_, ?_, hreason⟩
        · rw [FailedStep.after, Nat.add_comm, List.take_succ_cons, execute_cons_ok hstep, hbefore]
          rfl
        · rw [FailedStep.after, Nat.add_comm, List.getElem?_cons_succ]
          exact hinstruction

/-! ## Logs -/

/-- Every instruction has an entry with the stack after it, and the last of these is `final`. -/
structure Run.Complete (run : Run) (p : Program) (final : Stack) : Prop where
  length : run.log.length = p.instructions.length
  after : ∀ entry ∈ run.log, entry.after ≠ none
  last : ∀ entry ∈ run.log.getLast?, entry.after = some final
  empty : run.log = [] → final = []

/-- The last entry is about a step that failed, and it is the only one without a stack after it. -/
structure Run.BreaksOff (run : Run) (p : Program) (entry : LogEntry) (reason : StepFailure) :
    Prop where
  last : run.log.getLast? = some entry
  length : run.log.length = entry.index + 1
  after : ∀ other ∈ run.log, other.after = none ↔ other = entry
  fails : ∃ before, entry.before = some before ∧
    entry.instruction.step p.constants before = .error reason

/-- How the log ends, for every way in which the run can end. -/
def Run.LogEnds (run : Run) (p : Program) : Prop :=
  match run.result with
  | .ok v => run.Complete p [v] ∧
      ∃ last, run.log.getLast? = some last ∧ last.after.map Stack.texts = some [v.text]
  | .error (.error e) => ∃ last, run.BreaksOff p last (.error e.cause) ∧
      e.step = last.index ∧ e.opcode = last.instruction.opcode ∧ e.offset = p.offsets[e.step]?
  | .error (.fault (.leftover height)) => height ≠ 1 ∧
      ∃ final, final.length = height ∧ run.Complete p final
  | .error (.fault f) => ∃ last, run.BreaksOff p last (.fault f)

/-- The log is a trace of the run of a program. -/
structure Run.Traces (run : Run) (p : Program) : Prop where
  /-- The entry at a place is about the instruction at that place. -/
  entry : ∀ (place : Nat) (entry : LogEntry), run.log[place]? = some entry →
    entry.index = place ∧ p.instructions[place]? = some entry.instruction
  first : ∀ entry, run.log[0]? = some entry → entry.before = some []
  /-- Each step starts from the stack that the one before it left. -/
  next : ∀ (place : Nat) (entry following : LogEntry), run.log[place]? = some entry →
    run.log[place + 1]? = some following → following.before = entry.after
  ends : run.LogEnds p

theorem length_log_runFrom
    (verbose : Bool) (constants : List Binary64) (offsets : List Int) (index : Nat)
    (stack : Stack) (is : List Instruction) :
    (runFrom verbose constants offsets index stack is).log.length =
      match execute constants stack is with
      | .ok _ => is.length
      | .error f => f.place + 1 := by
  induction is generalizing index stack with
  | nil => rfl
  | cons i is ih =>
      cases hstep : i.step constants stack with
      | error reason =>
          rw [execute_cons_error hstep]
          simp [runFrom, hstep]
      | ok next =>
          rw [execute_cons_ok hstep]
          simp only [runFrom, hstep, List.length_cons, ih]
          cases execute constants next is with
          | ok final => rfl
          | error f => simp [Except.mapError, FailedStep.after, Nat.add_comm]

namespace Program

variable {p : Program} {place : Nat} {entry : LogEntry}

theorem getElem?_log_eq_some_iff :
    (p.run true).log[place]? = some entry ↔
      ∃ before i, execute p.constants [] (p.instructions.take place) = .ok before ∧
        p.instructions[place]? = some i ∧
        entry = ⟨place, i, some before, (i.step p.constants before).toOption⟩ := by
  rw [run, getElem?_log_runFrom]
  cases hbefore : execute p.constants [] (p.instructions.take place) with
  | error f => simp
  | ok before =>
      cases hi : p.instructions[place]? with
      | none => simp
      | some i => simp [eq_comm]

theorem after_eq (h : (p.run true).log[place]? = some entry) :
    entry.after = p.stackAfter place := by
  rw [stackAfter, h]
  rfl

theorem before_eq_after {following : LogEntry}
    (h : (p.run true).log[place]? = some entry)
    (hnext : (p.run true).log[place + 1]? = some following) :
    following.before = entry.after := by
  obtain ⟨before, i, hbefore, hi, rfl⟩ := getElem?_log_eq_some_iff.mp hnext
  have hlt := (List.getElem?_eq_some_iff.mp hi).1
  rw [after_eq h]
  exact (stackAfter_eq_some_iff.mpr ⟨by omega, hbefore⟩).symm

/-- The log of a program whose instructions all succeed is complete. -/
theorem complete_of_execute
    (h : execute p.constants [] p.instructions = .ok final) : (p.run true).Complete p final := by
  have hlength : (p.run true).log.length = p.instructions.length := by
    rw [run, length_log_runFrom, h]
  have hafter : ∀ place, place < p.instructions.length →
      ∃ stack, p.stackAfter place = some stack := by
    intro place hplace
    obtain ⟨stack, hstack⟩ := exists_execute_take h (place + 1)
    exact ⟨stack, stackAfter_eq_some_iff.mpr ⟨hplace, hstack⟩⟩
  refine ⟨hlength, ?_, ?_, ?_⟩
  · intro entry hentry
    obtain ⟨place, hplace⟩ := List.mem_iff_getElem?.mp hentry
    have hlt := (List.getElem?_eq_some_iff.mp hplace).1
    obtain ⟨stack, hstack⟩ := hafter place (hlength ▸ hlt)
    rw [after_eq hplace, hstack]
    exact Option.some_ne_none stack
  · intro entry hentry
    rw [List.getLast?_eq_getElem?, hlength] at hentry
    have hlt := (List.getElem?_eq_some_iff.mp hentry).1
    rw [after_eq hentry, stackAfter_eq_some_iff]
    refine ⟨by omega, ?_⟩
    rwa [Nat.sub_add_cancel (by omega), List.take_length]
  · intro hempty
    rw [hempty] at hlength
    rw [List.length_eq_zero_iff.mp hlength.symm] at h
    cases h
    rfl

theorem after_ne_none {following : LogEntry}
    (h : (p.run true).log[place]? = some entry)
    (hnext : (p.run true).log[place + 1]? = some following) : entry.after ≠ none := by
  rw [← before_eq_after h hnext]
  obtain ⟨before, i, -, -, rfl⟩ := getElem?_log_eq_some_iff.mp hnext
  exact Option.some_ne_none before

/-- The log of a program of which an instruction fails breaks off at the first that does. -/
theorem breaksOff_of_execute {f : FailedStep}
    (h : execute p.constants [] p.instructions = .error f) :
    ∃ entry, (p.run true).BreaksOff p entry f.reason ∧ entry.index = f.place ∧
      entry.instruction = f.instruction := by
  obtain ⟨before, hbefore, hinstruction, hreason⟩ := exists_step_eq_error h
  let entry : LogEntry := ⟨f.place, f.instruction, some before, none⟩
  have hlength : (p.run true).log.length = f.place + 1 := by
    rw [run, length_log_runFrom, h]
  have hlast : (p.run true).log[f.place]? = some entry := by
    rw [getElem?_log_eq_some_iff]
    exact ⟨before, f.instruction, hbefore, hinstruction, by rw [hreason]; rfl⟩
  refine ⟨entry, ⟨?_, hlength, ?_, before, rfl, hreason⟩, rfl, rfl⟩
  · rw [List.getLast?_eq_getElem?, hlength]
    exact hlast
  · intro other hother
    obtain ⟨place, hplace⟩ := List.mem_iff_getElem?.mp hother
    have hlt := (List.getElem?_eq_some_iff.mp hplace).1
    constructor
    · intro hnone
      by_cases hend : place = f.place
      · rw [hend, hlast] at hplace
        exact (Option.some.inj hplace).symm
      · have hnext : place + 1 < (p.run true).log.length := by omega
        exact absurd hnone (after_ne_none hplace (List.getElem?_eq_getElem hnext))
    · rintro rfl
      rfl

theorem logEnds_of_complete
    (hresult : (p.run true).result = finalValue final) (h : (p.run true).Complete p final) :
    (p.run true).LogEnds p := by
  rw [Run.LogEnds, hresult]
  rcases final with _ | ⟨v, _ | ⟨w, rest⟩⟩
  · exact ⟨Nat.zero_ne_one, [], rfl, h⟩
  · refine ⟨h, ?_⟩
    cases hlast : (p.run true).log.getLast? with
    | none => exact absurd (h.empty (List.getLast?_eq_none_iff.mp hlast)) (List.cons_ne_nil _ _)
    | some last =>
        refine ⟨last, rfl, ?_⟩
        rw [h.last last hlast]
        rfl
  · refine ⟨?_, _, rfl, h⟩
    simp

theorem logEnds_of_breaksOff {reason : StepFailure}
    (hresult : (p.run true).result =
      .error (reason.toRunFailure entry.instruction.opcode entry.index p.offsets))
    (h : (p.run true).BreaksOff p entry reason) :
    (p.run true).LogEnds p := by
  rw [Run.LogEnds, hresult]
  cases reason with
  | error cause => exact ⟨entry, h, rfl, rfl, rfl⟩
  | fault f =>
      cases f with
      | leftover height =>
          obtain ⟨before, -, hstep⟩ := h.fails
          exact absurd hstep (Instruction.step_ne_leftover _ _ _ _)
      | _ => exact ⟨entry, h⟩

theorem logEnds_run (p : Program) : (p.run true).LogEnds p := by
  have hresult : (p.run true).result = _ :=
    runFrom_result true p.constants p.offsets 0 [] p.instructions
  cases h : execute p.constants [] p.instructions with
  | ok final =>
      rw [h] at hresult
      exact logEnds_of_complete hresult (complete_of_execute h)
  | error f =>
      obtain ⟨entry, hbreaks, hindex, hinstruction⟩ := breaksOff_of_execute h
      rw [h] at hresult
      apply logEnds_of_breaksOff _ hbreaks
      rw [hresult, hindex, hinstruction]
      simp [FailedStep.toRunFailure]

/-- The log of a verbose run is a trace of the run, whatever the program is. -/
theorem run_traces (p : Program) : (p.run true).Traces p where
  entry place entry h := by
    obtain ⟨before, i, -, hi, rfl⟩ := getElem?_log_eq_some_iff.mp h
    exact ⟨rfl, hi⟩
  first entry h := by
    obtain ⟨before, i, hbefore, -, rfl⟩ := getElem?_log_eq_some_iff.mp h
    cases hbefore
    rfl
  next place entry following h hnext := before_eq_after h hnext
  ends := logEnds_run p

end Program

end StackCalc
