import Mathlib
import StackCalc.Proofs.Machine.Execution
import StackCalc.Proofs.Program.Canonical

/-!
# Programs that ask for the same actions

The effect of an instruction on the stack depends on its action alone.  Two programs that ask for
the same actions therefore go through the same stacks, whatever their pools look like, and end in
the same way: with the same value, at the same step with the same error, or with the same fault.

A program that can be encoded and the program that is read back ask for the same actions.
-/

namespace StackCalc

/-- The same failure without the source offset. -/
def RunFailure.withoutOffset : RunFailure → RunFailure
  | .error e => .error { e with offset := none }
  | .fault f => .fault f

/-- What a log entry shows of its step: the place, the opcode and the stacks. -/
def LogEntry.shown (entry : LogEntry) : Nat × Opcode × Option Stack × Option Stack :=
  (entry.index, entry.instruction.opcode, entry.before, entry.after)

/-- The second run ends and proceeds as the first does, but knows no source offset. -/
structure Run.SameButOffset (run run' : Run) : Prop where
  result : run'.result = run.result.mapError RunFailure.withoutOffset
  log : run'.log.map LogEntry.shown = run.log.map LogEntry.shown

/-! ## Steps -/

theorem StepFailure.toRunFailure_nil
    (failure : StepFailure) (opcode : Opcode) (index : Nat) (offsets : List Int) :
    failure.toRunFailure opcode index [] =
      (failure.toRunFailure opcode index offsets).withoutOffset := by
  cases failure with
  | error cause => simp [StepFailure.toRunFailure, RunFailure.withoutOffset]
  | fault fault => rfl

theorem finalValue_mapError (stack : Stack) :
    finalValue stack = (finalValue stack).mapError RunFailure.withoutOffset := by
  unfold finalValue
  split <;> rfl

variable {constants constants' : List Binary64} {i i' : Instruction} {a : Action}

theorem Instruction.Asks.opcode_eq (h : i.Asks constants a) : i.opcode = a.opcode := by
  cases h <;> rfl

section

variable [Library]

/-- The effect of an instruction depends on its action alone. -/
theorem Instruction.Asks.step_eq
    (h : i.Asks constants a) (h' : i'.Asks constants' a) (stack : Stack) :
    i'.step constants' stack = i.step constants stack := by
  cases h with
  | push hslot =>
      cases h' with
      | push hslot' => simp only [Instruction.step, constantAt?_natCast, hslot, hslot']
  | build count =>
      cases h' with
      | build => rfl
  | unary op operand =>
      cases h' with
      | unary => rfl
  | binary op operand =>
      cases h' with
      | binary => rfl
  | reduce op operand =>
      cases h' with
      | reduce => rfl

/-! ## Runs -/

/-- Instructions that ask for the same actions run alike from the same stack. -/
theorem sameButOffset_runFrom
    {is is' : List Instruction} {actions : List Action}
    (h : List.Forall₂ (Instruction.Asks constants) is actions)
    (h' : List.Forall₂ (Instruction.Asks constants') is' actions)
    (verbose : Bool) (offsets : List Int) (index : Nat) (stack : Stack) :
    (runFrom verbose constants offsets index stack is).SameButOffset
      (runFrom verbose constants' [] index stack is') := by
  induction h generalizing is' index stack with
  | nil =>
      cases h'
      exact ⟨finalValue_mapError stack, rfl⟩
  | @cons i a is actions hi _ ih =>
      obtain ⟨i', is', hi', his', rfl⟩ := List.forall₂_cons_right_iff.mp h'
      have hopcode : i'.opcode = i.opcode := hi'.opcode_eq.trans hi.opcode_eq.symm
      have hstep := hi.step_eq hi' stack
      cases hnext : i.step constants stack with
      | error failure =>
          rw [hnext] at hstep
          simp only [runFrom, hstep, hnext]
          constructor
          · rw [hopcode, failure.toRunFailure_nil i.opcode index offsets]
            rfl
          · simp [LogEntry.shown, hopcode]
      | ok next =>
          rw [hnext] at hstep
          simp only [runFrom, hstep, hnext]
          obtain ⟨hresult, hlog⟩ := ih his' (index + 1) next
          constructor
          · exact hresult
          · simp [LogEntry.shown, hopcode, hlog]

namespace Program

variable {p q : Program} {actions : List Action}

theorem Asks.sameButOffset_run
    (h : p.Asks actions) (h' : q.Asks actions) (hoffsets : q.offsets = []) (verbose : Bool) :
    (p.run verbose).SameButOffset (q.run verbose) := by
  unfold run
  rw [hoffsets]
  exact sameButOffset_runFrom h h' verbose p.offsets 0 []

/-- A program that can be encoded is read back as one that runs in the same way: with the same
value, the same fault, or the same error at the same step but without its source offset, and
through the same stacks. -/
theorem run_ofBytes_bytes {p : Program} (h : p.Encodable) :
    ∃ q, ofBytes p.bytes = .ok q ∧
      ∀ verbose, (p.run verbose).SameButOffset (q.run verbose) := by
  obtain ⟨actions, hasks⟩ := h.exists_asks
  exact ⟨ofActions actions, hasks.ofBytes_bytes,
    hasks.sameButOffset_run (asks_ofActions actions) rfl⟩

end Program

end

/-- One plus one over zero, from a pool with an unused constant, a constant in two slots and slots
out of order, and with an addition that carries an operand. -/
theorem Program.run_ofBytes_bytes_untidy :
    let p : Program :=
      ⟨[⟨.pushConst, some 3⟩, ⟨.pushConst, some 1⟩, ⟨.binary .add, some (-7)⟩,
        ⟨.pushConst, some 0⟩, ⟨.binary .div, none⟩],
        [.zero, .one, .infinity, .one], [4, 8, 6, 11, 10]⟩
    p.Encodable ∧
      (p.run true).result = .error (.error ⟨.divisionByZero, .binary .div, 4, some 10⟩) ∧
      ∃ q, Program.ofBytes p.bytes = .ok q ∧
        ∀ verbose, (p.run verbose).SameButOffset (q.run verbose) := by
  intro p
  have hasks : p.Asks [.push .one, .push .one, .binary .add, .push .zero, .binary .div] :=
    .cons (.push rfl) (.cons (.push rfl) (.cons (.binary _ _) (.cons (.push rfl)
      (.cons (.binary _ _) .nil))))
  exact ⟨hasks.encodable, by decide +kernel, Program.run_ofBytes_bytes hasks.encodable⟩

end StackCalc
