import Mathlib
import StackCalc.Proofs.Compiler.Emission
import StackCalc.Session

/-!
# Reuse of compilers and machines

A compiler and a machine can be used again and again, whatever the earlier uses came to.  A use
that breaks off leaves half a program, a level of nesting, the constants of another program or a
part of a log behind, and none of it reaches the next use: the outcome and the state that is left
are those of a new compiler or machine.

Nor does it matter to the result of a run whether the machine is verbose.
-/

namespace StackCalc

/-! ## Actions one after another -/

section Outcomes

variable {ε σ α ι : Type}

/-- The outcomes of actions one after another.  Each starts from the state that the one before it
left, whether or not that one failed. -/
def outcomes : List (ExceptT ε (StateM σ) α) → σ → List (Except ε α × σ)
  | [], _ => []
  | action :: actions, s =>
    let outcome := action.run.run s
    outcome :: outcomes actions outcome.2

/-- If every action forgets what the states of a set differ in, and ends within the set, then each
of a list of actions ends as if it had started from a fixed state of the set. -/
theorem outcomes_map_eq
    {action : ι → ExceptT ε (StateM σ) α} {fresh : σ} {P : σ → Prop}
    (hforgets : ∀ i s, P s → (action i).run.run s = (action i).run.run fresh)
    (hkeeps : ∀ i, P ((action i).run.run fresh).2)
    (is : List ι) {s : σ} (hs : P s) :
    outcomes (is.map action) s = is.map fun i => (action i).run.run fresh := by
  induction is generalizing s with
  | nil => rfl
  | cons i is ih =>
      rw [List.map_cons, List.map_cons, outcomes, hforgets i s hs, ih (hkeeps i)]

end Outcomes

/-! ## Compilers -/

/-- A compilation does not depend on what was emitted before. -/
theorem Expr.run_generate (functions : Functions) (e : Expr) (emitted : Emitted) :
    (e.generate functions).run.run emitted = e.compileWith functions := by
  have hreset : (e.generate functions).run.run emitted = (do
      let _ ← e.emit functions
      let emitted ← get
      if emitted.depth = 1 then
        return emitted.builder.build
      else
        throw (.fault (.leftover emitted.depth)) : Emission Program).run.run {} := rfl
  rw [hreset, run_run_bind, compileWith]
  obtain ⟨result, final⟩ := (e.emit functions).run.run {}
  cases result with
  | error failure => rfl
  | ok type =>
      change ((if final.depth = 1 then return final.builder.build
          else throw (.fault (.leftover final.depth))) : Emission Program).run.run final =
        if final.depth = 1 then (.ok final.builder.build, final)
        else (.error (.fault (.leftover final.depth)), final)
      split
      · rfl
      · rfl

-- `[1, []]` is refused with both of its elements on the stack; the leftovers are real.
example :
    ((Expr.array 0 [.number 1 .one, .array 4 []]).compileWith .standard).2.depth = 2 := by
  rfl

/-! ## Machines -/

namespace Machine

variable {machine : Machine}

/-- The machine with further entries in its log. -/
def logged (machine : Machine) (entries : List LogEntry) : Machine :=
  { machine with log := { machine.log with entries := machine.log.entries ++ entries } }

@[simp] theorem verbose_logged (entries : List LogEntry) :
    (machine.logged entries).verbose = machine.verbose := rfl

@[simp] theorem constants_logged (entries : List LogEntry) :
    (machine.logged entries).constants = machine.constants := rfl

@[simp] theorem entries_logged (entries : List LogEntry) :
    (machine.logged entries).log.entries = machine.log.entries ++ entries := rfl

theorem logged_nil : machine.logged [] = machine := by
  simp [logged]

theorem logged_logged (xs ys : List LogEntry) :
    (machine.logged xs).logged ys = machine.logged (xs ++ ys) := by
  simp [logged]

/-- What a run that goes on from the steps in the log gives and leaves. -/
def afterRun (machine : Machine) (run : Run) : Except RunFailure Value × Machine :=
  (run.result, machine.logged run.log)

variable [Library]

theorem run_step (machine : Machine) (hverbose : machine.log.verbose = machine.verbose)
    (offset : Option Int) (stack : Stack) (i : Instruction) :
    (step offset stack i).run.run machine =
      let entry : LogEntry :=
        ⟨machine.log.entries.length, i, Stack.snapshot machine.verbose stack, none⟩
      match i.step machine.constants stack with
      | .error failure => (.error (entry.failure offset failure), machine.logged [entry])
      | .ok next =>
        (.ok next,
          machine.logged [{ entry with after := Stack.snapshot machine.verbose next }]) := by
  rw [step, run_run_bind]
  change (match i.step machine.constants stack with
    | .error failure => _
    | .ok next => _ : Routine Stack).run.run _ = _
  cases i.step machine.constants stack with
  | error failure => rfl
  | ok next =>
      change (Except.ok next, { machine with log := StepLog.finish _ _ next }) = _
      cases hmode : machine.verbose <;>
        simp [StepLog.finish, logged, Stack.snapshot, hverbose, hmode]

/-- Instructions run on a machine that has logged the steps before them. -/
theorem run_steps (machine : Machine) (hverbose : machine.log.verbose = machine.verbose)
    (offsets : List Int) (stack : Stack) (is : List Instruction) :
    (do
      let final ← steps offsets machine.log.entries.length stack is
      ExceptT.mk (pure (finalValue final)) : Routine Value).run.run machine =
      machine.afterRun (runFrom machine.verbose machine.constants offsets
        machine.log.entries.length stack is) := by
  induction is generalizing machine stack with
  | nil =>
      rw [runFrom, afterRun, logged_nil]
      rfl
  | cons i is ih =>
      rw [steps, bind_assoc, run_run_bind, run_step machine hverbose, runFrom]
      cases i.step machine.constants stack with
      | error failure =>
          cases failure with
          | error cause => rfl
          | fault f => rfl
      | ok next =>
          -- The entry just made is what keeps the length of the log at the place of the next step.
          have hrest := ih (machine.logged [⟨machine.log.entries.length, i,
            Stack.snapshot machine.verbose stack, Stack.snapshot machine.verbose next⟩])
            hverbose next
          simp only [entries_logged, List.length_append, List.length_singleton, verbose_logged,
            constants_logged, afterRun, logged_logged] at hrest
          exact hrest

/-- The outcome of a run, and the machine after it, depend on nothing but the mode of the machine
before it. -/
theorem run_execute (p : Program) (machine : Machine) :
    (execute p).run.run machine =
      ((p.run machine.verbose).result,
        ⟨machine.verbose, ⟨machine.verbose, (p.run machine.verbose).log⟩, p.constants⟩) := by
  have hreset : (execute p).run.run machine = (do
      let final ← steps p.offsets 0 [] p.instructions
      ExceptT.mk (pure (finalValue final)) : Routine Value).run.run
        { machine with log := { verbose := machine.verbose }, constants := p.constants } := rfl
  rw [hreset]
  exact run_steps ⟨machine.verbose, ⟨machine.verbose, []⟩, p.constants⟩ rfl p.offsets []
    p.instructions

end Machine

/-! ## Verbosity -/

/-- The entry without what only a verbose run records. -/
def LogEntry.withoutSnapshots (entry : LogEntry) : LogEntry :=
  { entry with before := none, after := none }

/-- The run without what only a verbose run records. -/
def Run.withoutSnapshots (run : Run) : Run :=
  { run with log := run.log.map LogEntry.withoutSnapshots }

variable [Library]

theorem runFrom_false (constants : List Binary64) (offsets : List Int) (index : Nat)
    (stack : Stack) (is : List Instruction) :
    runFrom false constants offsets index stack is =
      (runFrom true constants offsets index stack is).withoutSnapshots := by
  induction is generalizing index stack with
  | nil => rfl
  | cons i is ih =>
      rw [runFrom, runFrom]
      cases i.step constants stack with
      | error failure => rfl
      | ok next =>
          simp only [ih (index + 1) next]
          rfl

theorem Program.run_false (p : Program) : p.run = (p.run true).withoutSnapshots :=
  runFrom_false p.constants p.offsets 0 [] p.instructions

theorem Program.result_run (p : Program) (verbose : Bool) :
    (p.run verbose).result = p.run.result := by
  cases verbose with
  | false => rfl
  | true => rw [run_false]; rfl

/-! ## Sessions -/

theorem Session.evaluate_fst (session : Session) (source : String) (verbose : Bool) :
    (session.evaluate source verbose).1 = StackCalc.evaluate source := by
  rw [evaluate, StackCalc.evaluate, compileSource]
  cases parseSource source with
  | error e => rfl
  | ok e =>
      simp only [Expr.run_generate]
      change _ = (e.compile.mapError CalcError.ofCompileFailure >>= Program.evaluate)
      rw [Expr.compile]
      obtain ⟨program, emitted⟩ := e.compileWith .standard
      cases program with
      | error failure => rfl
      | ok program =>
          simp only [Machine.run_execute, Program.result_run]
          rfl

/-- Neither what a compiler or a machine was used for before nor whether a machine is verbose can
be told from what they give: each of a sequence of compilations, and each of a sequence of runs,
ends with the outcome and the state of a new compiler or machine, however the others end, and the
two modes of a machine differ in nothing but the snapshots of the log.  So a session makes of a text
what the text evaluates to, whatever came before. -/
theorem reuse_and_mode_unobservable :
    (∀ (functions : Functions) (es : List Expr) (emitted : Emitted),
      outcomes (es.map (Expr.generate functions)) emitted =
        es.map fun e => (e.generate functions).run.run {}) ∧
    (∀ (ps : List Program) (machine : Machine),
      outcomes (ps.map Machine.execute) machine =
        ps.map fun p => (Machine.execute p).run.run { verbose := machine.verbose }) ∧
    (∀ (p : Program) (machine : Machine),
      let quiet := (Machine.execute p).run.run { machine with verbose := false }
      let verbose := (Machine.execute p).run.run { machine with verbose := true }
      quiet.1 = verbose.1 ∧
        quiet.2.log.entries = verbose.2.log.entries.map LogEntry.withoutSnapshots) ∧
    ∀ (session : Session) (source : String) (verbose : Bool),
      (session.evaluate source verbose).1 = evaluate source := by
  refine ⟨?_, ?_, ?_, fun session => session.evaluate_fst⟩
  · intro functions es emitted
    have hforgets (e : Expr) (s : Emitted) :
        (e.generate functions).run.run s = (e.generate functions).run.run {} := by
      rw [Expr.run_generate, Expr.run_generate]
    exact outcomes_map_eq (P := fun _ => True) (fun e s _ => hforgets e s) (fun _ => trivial) es
      trivial
  · intro ps machine
    apply outcomes_map_eq (P := fun other => other.verbose = machine.verbose)
    · intro p other hmode
      rw [Machine.run_execute, Machine.run_execute, hmode]
    · intro p
      rw [Machine.run_execute]
    · rfl
  · intro p machine
    simp only [Machine.run_execute]
    rw [Program.run_false]
    exact ⟨rfl, rfl⟩

end StackCalc
