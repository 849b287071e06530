import Mathlib
import StackCalc.Proofs.CommandLine.ErrorStream
import StackCalc.Proofs.Compiler.Acceptance
import StackCalc.Proofs.Evaluation.Encoding
import StackCalc.Proofs.Evaluation.RoundTrip
import StackCalc.Proofs.Expr.PrefixDepth
import StackCalc.Proofs.Machine.StepLog
import StackCalc.Proofs.Session.Reuse

/-!
# What is printed for a source text

The output for a source text consists of parts, each of which depends on the text and on at most one
option.  The standard output shows what the stages give, as far as they succeed and the options ask
for it, and at its end the value.  What the program writes to the error stream is nothing unless the
evaluation fails, and then the reports of the error.

The machine takes snapshots if the options ask for a table or for the failed stack.  This does not
show anywhere else, since neither the outcome of a run nor the steps in its log depend on the mode.

All this holds unless the tree is asked for and too high to be written.  Such a tree is too high
to be compiled as well, but the program is ended before the compiler can say so: nothing is
reported and there is no exit code.  A chain of operators that is long enough has such a tree on
any host.
-/

namespace StackCalc

namespace CommandLine

/-! ## Lines and trees -/

/-- The line that shows what a stage gives, if the stage is reached and succeeds. -/
def lineOf {α : Type} (text : α → String) : Except CalcError α → String
  | .ok a => text a ++ "\n"
  | .error _ => ""

/-- The options ask for a tree that the host has no room to write. -/
structure TreeTooHigh (host : Host) (options : Options) (source : String) : Prop where
  asked : options.ast = true
  exists_tree : ∃ e, parseSource source = .ok e ∧ host.room < e.prefixDepth

theorem onlyIf_printLine (condition : Bool) (line : String) :
    onlyIf condition (printLine line) = { out := if condition then line ++ "\n" else "" } := by
  cases condition <;> rfl

theorem onlyIf_printError (condition : Bool) (line : String) :
    onlyIf condition (printError line) =
      { err := if condition then [.text (line ++ "\n")] else [] } := by
  cases condition <;> rfl

theorem showTree_eq (host : Host) (options : Options) (e : Expr) :
    showTree host options e =
      if options.ast = true ∧ host.room < e.prefixDepth then .error .recursion
      else .ok { out := if options.ast then e.prefixText ++ "\n" else "" } := by
  rw [showTree, Expr.prefixTextWithin_eq]
  cases options.ast with
  | false => simp
  | true =>
      by_cases hroom : e.prefixDepth ≤ host.room
      · simp [hroom, Nat.not_lt.mpr hroom, printLine]
      · simp [hroom, Nat.lt_of_not_le hroom]

theorem isReported_of_located {error : CalcError} (h : error.Located) :
    (Interruption.error error).isReported = true := by
  cases error with
  | compileFault _ => exact h.elim
  | machineFault _ => exact h.elim
  | _ => rfl

end CommandLine

/-! ## Logs -/

section

variable [Library]

/-- The log of the verbose run of a source text, which is empty if the text is not compiled. -/
def sourceLog (source : String) : List LogEntry :=
  match compileSource source with
  | .ok p => (p.run true).log
  | .error _ => []

/-- The calls of the library for a source text. -/
def sourceCalls (source : String) : List LibraryCall :=
  (sourceLog source).filterMap LogEntry.libraryCall?

/-- The lines of a report about the instruction that failed.  There are none if the error is not one
of the machine, and the stack before the instruction is on a line for verbose users only. -/
def ReportsStep (verbose : Bool) (source : String) : CalcError → List String → Prop
  | .runtime e, lines =>
    ∃ entry stack, (sourceLog source)[e.step]? = some entry ∧
      entry.instruction.opcode = e.opcode ∧ entry.before = some stack ∧
      lines = ("  at step " ++ decimalText e.step ++ ": " ++ e.opcode.mnemonic) ::
        if verbose then ["  stack: " ++ Stack.line stack] else []
  | _, lines => lines = []

variable {source : String} {p : Program}

/-- At least one step of every compiled program is run. -/
theorem sourceLog_eq_nil_iff :
    sourceLog source = [] ↔ ∃ error, compileSource source = .error error := by
  rw [sourceLog]
  cases hcompile : compileSource source with
  | error error => simp
  | ok p =>
      obtain ⟨ts, e, -, -, he⟩ := Program.exists_of_compileSource hcompile
      obtain ⟨type, -, -, hinstructions, -⟩ :=
        Expr.compileWith_eq_ok Functions.standard_consistent he
      have hlength : 0 < p.instructions.length := by
        rw [hinstructions, List.length_map]
        exact List.length_pos_of_mem e.mem_postorder_self
      have hlog : 0 < (p.run true).log.length := by
        rw [Program.run, length_log_runFrom]
        cases execute p.constants [] p.instructions with
        | ok final => exact hlength
        | error f => exact Nat.succ_pos f.place
      simpa using List.ne_nil_of_length_pos hlog

theorem Program.exists_entry_of_evaluate {e : RuntimeError}
    (h : p.evaluate = .error (.runtime e)) :
    ∃ entry stack, (p.run true).log[e.step]? = some entry ∧
      entry.instruction.opcode = e.opcode ∧ entry.before = some stack := by
  have hresult : (p.run true).result = .error (.error e) := by
    rw [result_run]
    rw [evaluate] at h
    cases hrun : p.run.result with
    | ok v =>
        rw [hrun] at h
        cases h
    | error failure =>
        rw [hrun] at h
        cases failure <;> cases h
        rfl
  have hends := p.logEnds_run
  rw [Run.LogEnds, hresult] at hends
  obtain ⟨last, hbreaks, hstep, hopcode, -⟩ := hends
  obtain ⟨stack, hbefore, -⟩ := hbreaks.fails
  refine ⟨last, stack, ?_, hopcode.symm, hbefore⟩
  have hlast := hbreaks.last
  rwa [List.getLast?_eq_getElem?, hbreaks.length, Nat.add_sub_cancel, ← hstep] at hlast

/-- A report only shows a stack to verbose users, so the mode of the run need not show otherwise. -/
theorem stepLines_of_run {verbose mode : Bool} (hmode : verbose = true → mode = true) {step : Nat}
    {entry : LogEntry} {stack : Stack} (hentry : (p.run true).log[step]? = some entry)
    (hstack : entry.before = some stack) :
    ∃ logged, (p.run mode).log[step]? = some logged ∧
      stepLines verbose step logged =
        ("  at step " ++ decimalText step ++ ": " ++ entry.instruction.opcode.mnemonic) ::
          if verbose then ["  stack: " ++ Stack.line stack] else [] := by
  cases mode with
  | true =>
      refine ⟨entry, hentry, ?_⟩
      rw [stepLines, hstack]
  | false =>
      obtain rfl : verbose = false := by simpa using hmode
      refine ⟨entry.withoutSnapshots, ?_, rfl⟩
      rw [Program.run_false, Run.withoutSnapshots, List.getElem?_map, hentry, Option.map_some]

theorem exists_evaluate_eq {e : RuntimeError} (h : evaluate source = .error (.runtime e)) :
    ∃ p, compileSource source = .ok p ∧ p.evaluate = .error (.runtime e) := by
  have hends := ends_evaluate source
  rw [h] at hends
  generalize houtcome : (Except.error (.runtime e) : Except CalcError Value) = outcome at hends ⊢
  cases hends with
  | lexical _ => cases houtcome
  | parse _ _ => cases houtcome
  | @compile ts tree failure _ _ _ => cases failure <;> cases houtcome
  | @run ts tree p htokens hread hcompile =>
      have hsource : compileSource source = .ok p := by
        rw [compileSource_eq htokens hread, hcompile]
        rfl
      exact ⟨p, hsource, rfl⟩

theorem located_of_evaluate {error : CalcError} (h : evaluate source = .error error) :
    error.Located := by
  have hsafe := safe_evaluate source
  rw [h] at hsafe
  exact hsafe

/-- The report of an error, line by line. -/
theorem exists_report_eq
    {error : CalcError} (h : evaluate source = .error error) {verbose mode : Bool}
    (hmode : verbose = true → mode = true) {log : List LogEntry}
    (hlog : ∀ p, compileSource source = .ok p → log = (p.run mode).log) :
    ∃ offset steps, error.offset = some offset ∧ ReportsStep verbose source error steps ∧
      error.report source log verbose =
        "\n".intercalate (caretLines source offset ++ steps ++ [error.describe]) := by
  have hlocated := located_of_evaluate h
  cases error with
  | lexical e => exact ⟨_, [], rfl, rfl, rfl⟩
  | parse e => exact ⟨_, [], rfl, rfl, rfl⟩
  | compile e => exact ⟨_, [], rfl, rfl, rfl⟩
  | compileFault f => exact hlocated.elim
  | machineFault f => exact hlocated.elim
  | runtime e =>
      obtain ⟨offset, hoffset⟩ := hlocated
      obtain ⟨p, hcompile, heval⟩ := exists_evaluate_eq h
      obtain ⟨entry, stack, hentry, hopcode, hstack⟩ := p.exists_entry_of_evaluate heval
      obtain ⟨logged, hlogged, hlines⟩ := stepLines_of_run hmode hentry hstack
      refine ⟨offset, _, hoffset, ⟨entry, stack, ?_, hopcode, hstack, rfl⟩, ?_⟩
      · rw [sourceLog, hcompile]
        exact hentry
      · rw [CalcError.report, hoffset, hlog p hcompile]
        simp only [CalcError.step?, hlogged, hlines, hopcode]

namespace CommandLine

/-! ## Trials -/

/-- What the options ask to be shown of a source text. -/
def shownText (options : Options) (source : String) : String :=
  (if options.ast then lineOf Expr.prefixText (parseSource source) else "") ++
    (if options.disassemble then lineOf Program.listing (compileSource source) else "") ++
      if options.trace then stepTable (sourceLog source) ++ "\n" else ""

/-- The reports of an error, in text and if asked in JSON. -/
def reports (options : Options) (report : String) (error : CalcError) : List String :=
  (report ++ "\n") :: if options.tracebackJson then [error.json ++ "\n"] else []

variable {host : Host} {options : Options}

theorem trial_of_tooHigh (h : TreeTooHigh host options source) :
    trial host options source = { outcome := .error .recursion } := by
  obtain ⟨hasked, e, hparse, hroom⟩ := h
  simp only [trial, hparse, showTree_eq, if_pos (And.intro hasked hroom)]

theorem sourceCalls_of_compileSource (h : compileSource source = .ok p) :
    sourceCalls source = p.libraryCalls := by
  rw [sourceCalls, sourceLog, h, Program.libraryCalls_eq]

theorem sourceCalls_of_compileSource_error {error : CalcError}
    (h : compileSource source = .error error) : sourceCalls source = [] := by
  rw [sourceCalls, sourceLog, h]
  rfl

/-- What the stages show on the way, the log and the outcome, each by itself. -/
theorem trial_eq (h : ¬ TreeTooHigh host options source) :
    trial host options source =
      { shown :=
          { out :=
              (if options.ast then lineOf Expr.prefixText (parseSource source) else "") ++
                if options.disassemble then lineOf Program.listing (compileSource source) else ""
            err := (sourceCalls source).map .call }
        log :=
          match compileSource source with
          | .ok p => (p.run (options.verbose || options.trace)).log
          | .error _ => []
        outcome := (evaluate source).mapError .error } := by
  rw [trial]
  cases hparse : parseSource source with
  | error error =>
      have hcompile := compileSource_of_parseSource_error hparse
      rw [evaluate_of_compileSource_error hcompile, sourceCalls_of_compileSource_error hcompile,
        hcompile]
      simp [lineOf, Except.mapError]
  | ok e =>
      have hroom : ¬ (options.ast = true ∧ host.room < e.prefixDepth) :=
        fun htoo => h ⟨htoo.1, e, hparse, htoo.2⟩
      have hcompile := compileSource_of_parseSource hparse
      simp only [showTree_eq, if_neg hroom]
      cases he : e.compile with
      | error failure =>
          rw [he] at hcompile
          rw [evaluate_of_compileSource_error hcompile, sourceCalls_of_compileSource_error hcompile,
            hcompile]
          simp [lineOf, Except.mapError]
      | ok p =>
          rw [he] at hcompile
          rw [evaluate_of_compileSource hcompile, sourceCalls_of_compileSource hcompile, hcompile]
          cases hresult : p.run.result <;>
            simp [lineOf, onlyIf_printLine, Printed.append_eq, Program.evaluate,
              Program.result_run, Except.mapError, hresult]

theorem shown_trial (h : ¬ TreeTooHigh host options source) :
    (trial host options source).shown ++
        onlyIf options.trace (printLine (stepTable (trial host options source).log)) =
      { out := shownText options source, err := (sourceCalls source).map .call } := by
  have htable :
      onlyIf options.trace (printLine (stepTable (trial host options source).log)) =
        { out := if options.trace then stepTable (sourceLog source) ++ "\n" else "" } := by
    rw [onlyIf_printLine, trial_eq h]
    cases htrace : options.trace with
    | false => rfl
    | true =>
        -- The machine takes snapshots for a table, so its log is that of the verbose run.
        simp only [Bool.or_true]
        rfl
  rw [htable, trial_eq h]
  simp [Printed.append_eq, shownText]

/-! ## Outputs -/

theorem runSource_of_tooHigh (h : TreeTooHigh host options source) :
    runSource host options source =
      ({ out := if options.trace then stepTable [] ++ "\n" else "" }, .error .recursion) := by
  simp only [runSource, trial_of_tooHigh h, onlyIf_printLine]
  simp [Printed.append_eq]

theorem runSource_of_ok {value : Value} (h : ¬ TreeTooHigh host options source)
    (heval : evaluate source = .ok value) :
    runSource host options source =
      ({ out := shownText options source ++ (value.text ++ "\n")
         err := (sourceCalls source).map .call }, .ok 0) := by
  have houtcome : (trial host options source).outcome = .ok value := by
    rw [trial_eq h, heval]
    rfl
  simp only [runSource, houtcome, shown_trial h]
  simp [Printed.append_eq, printLine]

theorem runSource_of_error {error : CalcError} (h : ¬ TreeTooHigh host options source)
    (heval : evaluate source = .error error) :
    runSource host options source =
      ({ out := shownText options source
         err :=
          (sourceCalls source).map .call ++
            (reports options (error.report source (trial host options source).log options.verbose)
              error).map .text }, .ok 1) := by
  have houtcome : (trial host options source).outcome = .error (.error error) := by
    rw [trial_eq h, heval]
    rfl
  simp only [runSource, houtcome, shown_trial h, onlyIf_printError,
    isReported_of_located (located_of_evaluate heval), if_true]
  cases hjson : options.tracebackJson <;> simp [Printed.append_eq, printError, reports, hjson]

theorem exists_err_eq (h : ¬ TreeTooHigh host options source) :
    ∃ texts : List String, (runSource host options source).1.err =
      (sourceCalls source).map .call ++ texts.map .text := by
  cases heval : evaluate source with
  | ok value =>
      refine ⟨[], ?_⟩
      rw [runSource_of_ok h heval, List.map_nil, List.append_nil]
  | error error =>
      rw [runSource_of_error h heval]
      exact ⟨_, rfl⟩

/-- A tree that the host has no room to write is too high to be compiled, if the host has room for
the trees that are not. -/
theorem exists_compileError_of_tooHigh (hroom : 2 * maxTreeDepth ≤ host.room)
    (h : TreeTooHigh host options source) :
    ∃ error, evaluate source = .error (.compile error) := by
  obtain ⟨-, e, hparse, hdepth⟩ := h
  obtain ⟨ts, htokens, hread⟩ := exists_tokens_of_parseSource hparse
  have hcomplete := e.isComplete_of_wellBuilt (Expr.wellBuilt_of_ofTokens hread)
  have hcompile := compileSource_of_parseSource hparse
  cases he : e.compile with
  | ok p =>
      have hheight := Expr.height_le_of_compile hcomplete he
      have hbound := e.prefixDepth_bounds.2
      omega
  | error failure =>
      rw [he] at hcompile
      cases failure with
      | error error => exact ⟨error, evaluate_of_compileSource_error hcompile⟩
      | fault fault =>
          exact (Expr.compileWith_ne_fault Functions.standard_consistent hcomplete fault he).elim

theorem written_of_ok {value : Value} (h : ¬ TreeTooHigh host options source)
    (heval : evaluate source = .ok value) : (runSource host options source).1.written = "" := by
  have hwritten := Printed.written_eq (shownText options source ++ (value.text ++ "\n"))
    (sourceCalls source) []
  rw [List.map_nil, List.append_nil] at hwritten
  rw [runSource_of_ok h heval]
  exact hwritten

theorem exists_reports_of_error {error : CalcError} (h : ¬ TreeTooHigh host options source)
    (heval : evaluate source = .error error) :
    ∃ offset steps, error.offset = some offset ∧
      ReportsStep options.verbose source error steps ∧
      let report := "\n".intercalate (caretLines source offset ++ steps ++ [error.describe])
      (runSource host options source).1.err =
          (sourceCalls source).map .call ++ (reports options report error).map .text ∧
        (runSource host options source).1.written =
          report ++ "\n" ++ if options.tracebackJson then error.json ++ "\n" else "" := by
  have hmode : options.verbose = true → (options.verbose || options.trace) = true := by
    intro hverbose
    rw [hverbose, Bool.true_or]
  have hlog (p : Program) (hcompile : compileSource source = .ok p) :
      (trial host options source).log = (p.run (options.verbose || options.trace)).log := by
    rw [trial_eq h, hcompile]
  obtain ⟨offset, steps, hoffset, hsteps, hreport⟩ := exists_report_eq heval hmode hlog
  refine ⟨offset, steps, hoffset, hsteps, ?_⟩
  rw [runSource_of_error h heval, hreport]
  refine ⟨rfl, ?_⟩
  rw [Printed.written_eq, reports]
  cases options.tracebackJson <;> simp

theorem errorText_runSource_of_silent (h : ¬ TreeTooHigh host options source)
    (hsilent : ∀ earlier, ∀ call ∈ sourceCalls source, host.notice earlier call = "") :
    host.errorText [] (runSource host options source).1.err =
      (runSource host options source).1.written := by
  obtain ⟨texts, herr⟩ := exists_err_eq h
  apply Host.errorText_of_silent
  have hcalls : (runSource host options source).1.err.filterMap ErrorPart.call? =
      sourceCalls source := by
    rw [herr]
    exact Printed.calls_eq "" _ texts
  rwa [hcalls]

/-- The output for a source text, on any host and with any options.

A tree that is asked for and too high to be written ends the program before anything is printed but
the table without steps.  Any host that has room for the trees that are compiled has room for all
trees but those that the compiler refuses.

Otherwise the standard output shows what the options ask for and then the value, and the exit code
is 0 exactly if there is one.  The program writes nothing to the error stream if there is a value,
and else the report in text, in which the source with a caret comes first and the description last,
and if asked the report in JSON.  No option has an influence on the value, the description or the
report in JSON.  What the library writes in its calls stands before the reports; if it writes
nothing, the error stream is what the program writes. -/
theorem runSource_streams (host : Host) (options : Options) (source : String) :
    let printed := (runSource host options source).1
    let ending := (runSource host options source).2
    (sourceLog source = [] ↔ ∃ error, compileSource source = .error error) ∧
      (TreeTooHigh host options source →
        ending = .error .recursion ∧ printed.err = [] ∧
          printed.out = (if options.trace then stepTable [] ++ "\n" else "") ∧
          (2 * maxTreeDepth ≤ host.room → ∃ error, evaluate source = .error (.compile error))) ∧
      (¬ TreeTooHigh host options source →
        printed.out = shownText options source ++ lineOf Value.text (evaluate source) ∧
          ((∀ earlier, ∀ call ∈ sourceCalls source, host.notice earlier call = "") →
            host.errorText [] printed.err = printed.written) ∧
          match evaluate source with
          | .ok _ =>
            ending = .ok 0 ∧ printed.err = (sourceCalls source).map .call ∧ printed.written = ""
          | .error error =>
            ending = .ok 1 ∧ error.Located ∧
              ∃ offset steps, error.offset = some offset ∧
                ReportsStep options.verbose source error steps ∧
                let report :=
                  "\n".intercalate (caretLines source offset ++ steps ++ [error.describe])
                printed.err = (sourceCalls source).map .call ++
                  (reports options report error).map .text ∧
                printed.written = report ++ "\n" ++
                  if options.tracebackJson then error.json ++ "\n" else "") := by
  intro printed ending
  refine ⟨sourceLog_eq_nil_iff, ?_, ?_⟩
  · intro h
    have hsource : (printed, ending) = _ := runSource_of_tooHigh h
    obtain ⟨hprinted, hending⟩ := Prod.mk.inj hsource
    rw [hprinted, hending]
    exact ⟨rfl, rfl, rfl, fun hroom => exists_compileError_of_tooHigh hroom h⟩
  · intro h
    refine ⟨?_, errorText_runSource_of_silent h, ?_⟩
    · cases heval : evaluate source with
      | ok value => exact congrArg (·.1.out) (runSource_of_ok h heval)
      | error error =>
          rw [lineOf, String.append_empty]
          exact congrArg (·.1.out) (runSource_of_error h heval)
    · cases heval : evaluate source with
      | ok value =>
          have hsource := runSource_of_ok h heval
          exact ⟨congrArg Prod.snd hsource, congrArg (·.1.err) hsource, written_of_ok h heval⟩
      | error error =>
          exact ⟨congrArg Prod.snd (runSource_of_error h heval), located_of_evaluate heval,
            exists_reports_of_error h heval⟩

end CommandLine

end

namespace CommandLine

/-- A mean whose plain sum is the difference of two infinities, with all that can be asked for.  The
library is called, but the program writes nothing to the error stream. -/
theorem runSource_streams_of_mean :
    let source := "avg([2^1023, 2^1023, 2^1023, 2^1023, -2^1023, -2^1023, -2^1023, -2^1023])"
    let options : Options :=
      { verbose := true, trace := true, disassemble := true, ast := true, tracebackJson := true }
    let half := Binary64.ofCode false 0x7FE0000000000000
    evaluate source = .ok (.number .zero) ∧ ¬ TreeTooHigh .quiet options source ∧
      (runSource .quiet options source).2 = .ok 0 ∧
      (runSource .quiet options source).1.err =
        [.call ⟨.reduce .avg, List.replicate 4 half ++ List.replicate 4 half.neg⟩] ∧
      (runSource .quiet options source).1.written = "" := by
  intro source options half
  have heval : evaluate source = .ok (.number .zero) := by
    decide +kernel
  have hcalls : (sourceCalls source).map ErrorPart.call =
      [.call ⟨.reduce .avg, List.replicate 4 half ++ List.replicate 4 half.neg⟩] := by
    decide +kernel
  have hroom : ¬ TreeTooHigh .quiet options source := by
    intro h
    obtain ⟨error, herror⟩ := exists_compileError_of_tooHigh (by decide) h
    rw [heval] at herror
    cases herror
  obtain ⟨-, -, hstreams⟩ := (runSource_streams .quiet options source).2.2 hroom
  rw [heval, hcalls] at hstreams
  exact ⟨heval, hroom, hstreams⟩

end CommandLine

end StackCalc
