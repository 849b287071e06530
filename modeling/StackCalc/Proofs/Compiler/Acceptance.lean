import Mathlib
import StackCalc.Proofs.Compiler.Emission
import StackCalc.Proofs.Expr.Violations

/-!
# What the compiler accepts

The compiler accepts the typed expressions within the limit of depth, and refuses any other
expression for its first violation.

`Emission.Reports` relates a part of a compilation to the violations that it looks for: the part
succeeds only if there are none, and an error that it fails with is the first of them.  There is
one rule for each step of the compiler.  The rules say nothing about faults, which are excluded
for whole compilations already.
-/

namespace StackCalc

namespace Emission

variable {α β : Type}

/-- Inside of `nesting` nodes, a part that succeeds has met none of the violations and gives the
result `a`, and a part that fails with an error has met the first of them.  After success as many
nodes are open as before. -/
def Reports (part : Emission α) (nesting : Nat) (found : List CompileError) (a : α) : Prop :=
  ∀ s : Emitted, s.nesting = nesting →
    Ends part s
      (fun result final => result = a ∧ found = [] ∧ final.nesting = nesting)
      (fun failure _ => ∀ error, failure = .error error → found.head? = some error)

variable {part : Emission α} {nesting : Nat} {found : List CompileError} {a : α}

theorem reports_pure (a : α) (nesting : Nat) : Reports (pure a) nesting [] a :=
  fun _ hs => ends_pure ⟨rfl, rfl, hs⟩

theorem reports_reject (cause : CompileCause) (offset : Int) (nesting : Nat) (a : α) :
    Reports (reject cause offset) nesting [⟨cause, offset⟩] a := by
  intro s _
  apply ends_reject
  rintro error ⟨⟩
  rfl

theorem reports_fault (fault : CompileFault) (nesting : Nat) (found : List CompileError) (a : α) :
    Reports (throw (.fault fault)) nesting found a := by
  intro s _
  apply ends_throw
  rintro error ⟨⟩

/-- The violations of a part come before those of the part that goes on from its result. -/
theorem Reports.bind
    {rest : α → Emission β} {later : List CompileError} {b : β}
    (h : Reports part nesting found a) (hrest : Reports (rest a) nesting later b) :
    Reports (part >>= rest) nesting (found ++ later) b := by
  intro s hs
  apply ends_bind
  refine (h s hs).mono ?_ ?_
  · rintro result middle ⟨rfl, rfl, hmiddle⟩
    exact hrest middle hmiddle
  · intro failure _ hfailure error herror
    rw [List.head?_append, hfailure error herror]
    rfl

theorem Reports.andThen
    {rest : α → Emission β} {b : β}
    (h : Reports part nesting found a) (hrest : Reports (rest a) nesting [] b) :
    Reports (part >>= rest) nesting found b := by
  rw [← List.append_nil found]
  exact h.bind hrest

theorem reports_intern_bind
    {rest : Nat → Emission β} {value : Binary64} {b : β}
    (hrest : ∀ slot, Reports (rest slot) nesting found b) :
    Reports (intern value >>= rest) nesting found b := by
  intro s hs
  apply ends_bind
  apply ends_intern
  exact hrest _ _ hs

theorem reports_emit (opcode : Opcode) (operand : Option Int) (offset : Int) (nesting : Nat) :
    Reports (emit opcode operand offset) nesting [] () := by
  intro s hs
  unfold emit
  apply ends_bind
  apply ends_get
  by_cases hdepth : s.depth < (opcode.stackEffect operand).1
  · simp only [if_pos hdepth]
    apply ends_bind
    apply ends_throw
    rintro error ⟨⟩
  · simp only [if_neg hdepth]
    cases s.builder.emit ⟨opcode, operand⟩ offset with
    | error problem =>
        apply ends_throw
        rintro error ⟨⟩
    | ok builder => exact ends_set ⟨trivial, trivial, hs⟩

theorem reports_last
    (opcode : Opcode) (operand : Option Int) (offset : Int) (type : StaticType) (nesting : Nat) :
    Reports (do emit opcode operand offset; return type) nesting [] type :=
  (reports_emit opcode operand offset nesting).andThen (reports_pure type nesting)

theorem Reports.nested
    (h : Reports part (nesting + 1) found a) (offset : Int) :
    Reports (nested offset part) nesting
      (Expr.levelViolations (nesting + 1) offset ++ found) a := by
  rintro s rfl
  unfold Expr.levelViolations
  apply ends_nested
  · intro hdeep
    rintro error ⟨⟩
    rw [if_pos hdeep]
    rfl
  · intro hlevel
    rw [if_neg (Nat.not_lt.mpr hlevel), List.nil_append]
    refine (h { s with nesting := s.nesting + 1 } rfl).mono ?_ fun _ _ hfailure => hfailure
    rintro result final ⟨hresult, hfound, hfinal⟩
    refine ⟨hresult, hfound, ?_⟩
    simp only [hfinal, Nat.add_sub_cancel]

end Emission

namespace Expr

open Emission

variable {functions : Functions} {e : Expr} {nesting : Nat}

/-- The compilation of an expression gives its type or reports its violations. -/
def EmitReports (functions : Functions) (e : Expr) : Prop :=
  ∀ nesting, Reports (e.emit functions) nesting (e.violations functions (nesting + 1)) e.staticType

theorem EmitReports.expect
    (h : EmitReports functions e) (demand : Demand) (nesting : Nat) :
    Reports (expect demand.type demand.cause e.offset (e.emit functions)) nesting
      (e.violations functions (nesting + 1) ++ typeViolations demand e) () := by
  unfold Emission.expect typeViolations
  apply (h nesting).bind
  by_cases htype : e.staticType = demand.type
  · simpa [htype] using reports_pure () nesting
  · simpa [htype] using reports_reject demand.cause e.offset nesting ()

theorem emitNumbers_reports
    {es : List Expr} (hes : ∀ a ∈ es, EmitReports functions a) (cause : CompileCause)
    (nesting : Nat) :
    Reports (emitNumbers functions cause es) nesting
      (operandViolations functions (nesting + 1) ⟨.number, cause⟩ es) () := by
  induction es with
  | nil =>
      rw [emitNumbers, operandViolations]
      exact reports_pure () nesting
  | cons e es ih =>
      rw [emitNumbers, operandViolations]
      apply ((hes e List.mem_cons_self).expect ⟨.number, cause⟩ nesting).bind
      exact ih fun a ha => hes a (List.mem_cons_of_mem _ ha)

theorem emit_args_reports
    {f : NamedFunction} (hf : f.Consistent) {args : List Expr} {op : Opcode}
    (hop : f.opcode? args.length = some op) (hargs : ∀ a ∈ args, EmitReports functions a)
    (nesting : Nat) :
    Reports
      (if f.reducer then emitArray functions f.name args
        else emitNumbers functions (.arrayOperand f.name) args) nesting
      (operandViolations functions (nesting + 1) (.ofFunction f) args) () := by
  unfold Demand.ofFunction
  cases hreducer : f.reducer with
  | false => exact emitNumbers_reports hargs (.arrayOperand f.name) nesting
  | true =>
      obtain ⟨arg, rfl⟩ := List.length_eq_one_iff.mp (hf.reducing hreducer _ _ hop).1
      simp only [if_true, emitArray, operandViolations, List.append_nil]
      exact (hargs arg List.mem_cons_self).expect ⟨.array, .arrayExpected f.name⟩ nesting

theorem emit_call_reports
    (hfunctions : functions.Consistent) (offset : Int) (name : String) {args : List Expr}
    (hargs : ∀ a ∈ args, EmitReports functions a) :
    EmitReports functions (.call offset name args) := by
  intro nesting
  rw [Expr.emit, violations]
  apply Reports.nested
  unfold Demand.ofCall
  cases hname : functions.find? name with
  | none => exact reports_reject (.unknownFunction name) offset (nesting + 1) StaticType.number
  | some f =>
      cases hop : f.opcode? args.length with
      | none =>
          simp only [NamedFunction.opcodeFor, hop]
          exact reports_reject (.wrongArity f.name f.arities args.length) offset (nesting + 1)
            StaticType.number
      | some op =>
          simp only [NamedFunction.opcodeFor, hop]
          rw [← apply_ite fun part : Emission Unit => part >>= fun _ => do
            Emission.emit op none offset
            return StaticType.number]
          apply (emit_args_reports (hfunctions.of_find? hname) hop hargs (nesting + 1)).andThen
          exact reports_last op none offset .number (nesting + 1)

/-- With consistent functions the compilation of an expression gives its type if it has no
violations, and otherwise fails with the first of them, unless it faults. -/
theorem emit_reports (hfunctions : functions.Consistent) (e : Expr) : EmitReports functions e := by
  induction e using operandInduction with
  | node e ih =>
      cases e with
      | number offset value =>
          intro nesting
          rw [Expr.emit, violations, ← List.append_nil (levelViolations _ _)]
          apply Reports.nested
          apply reports_intern_bind
          intro slot
          exact reports_last .pushConst (some slot) offset .number (nesting + 1)
      | array offset items =>
          intro nesting
          rw [Expr.emit, violations]
          apply Reports.nested
          apply (emitNumbers_reports ih .arrayElement (nesting + 1)).andThen
          exact reports_last .buildArray _ offset .array (nesting + 1)
      | unary offset op operand =>
          intro nesting
          rw [Expr.emit, violations]
          apply Reports.nested
          have hoperand := ih operand (by simp [operands])
          apply (hoperand.expect (.ofOperator op.sign) (nesting + 1)).andThen
          exact reports_last op.opcode none offset .number (nesting + 1)
      | binary offset op left right =>
          intro nesting
          rw [Expr.emit, violations]
          apply Reports.nested
          have hleft := ih left (by simp [operands])
          have hright := ih right (by simp [operands])
          apply (hleft.expect (.ofOperator op.sign) (nesting + 1)).bind
          apply (hright.expect (.ofOperator op.sign) (nesting + 1)).andThen
          exact reports_last op.opcode none offset .number (nesting + 1)
      | call offset name args => exact emit_call_reports hfunctions offset name ih
      | hole offset =>
          intro nesting
          rw [Expr.emit, violations, ← List.append_nil (levelViolations _ _)]
          exact (reports_fault .hole (nesting + 1) [] StaticType.number).nested offset

/-- The outcome of a compilation shows the first violation, if there is one. -/
theorem compileWith_reports
    (hfunctions : functions.Consistent) (hcomplete : e.isComplete = true) :
    ((∃ p, (e.compileWith functions).1 = .ok p) ∧ e.violations functions 1 = []) ∨
      ∃ error, (e.compileWith functions).1 = .error (.error error) ∧
        (e.violations functions 1).head? = some error := by
  have hreports := emit_reports hfunctions e 0 {} rfl
  have hfault := compileWith_ne_fault hfunctions hcomplete
  rw [compileWith_fst hfunctions] at hfault ⊢
  unfold Ends at hreports
  generalize (e.emit functions).run.run {} = outcome at hreports hfault ⊢
  obtain ⟨result, final⟩ := outcome
  rcases result with (error | fault) | type
  · exact Or.inr ⟨error, rfl, hreports error rfl⟩
  · exact absurd rfl (hfault fault)
  · exact Or.inl ⟨⟨_, rfl⟩, hreports.2.1⟩

theorem height_le_of_compile (hcomplete : e.isComplete = true) {p : Program}
    (h : e.compile = .ok p) : e.height ≤ maxTreeDepth := by
  rw [compile] at h
  rcases compileWith_reports Functions.standard_consistent hcomplete with
    ⟨-, hnil⟩ | ⟨error, herror, -⟩
  · have hheight :=
      ((violations_eq_nil_iff Functions.standard_consistent hcomplete).mp hnil).2
    rwa [Nat.zero_add] at hheight
  · rw [herror] at h
    cases h

/-- The compiler accepts exactly the typed expressions that are at most 150 nodes high, and refuses
every other one for its first violation.  No expression without holes makes it fault. -/
theorem compile_accepts
    (e : Expr) (hcomplete : e.isComplete = true) :
    ((∃ p, e.compile = .ok p) ↔ (∃ type, e.HasType .standard type) ∧ e.height ≤ 150) ∧
      ∀ failure, e.compile = .error failure →
        ∃ error, failure = .error error ∧ (e.violations .standard 1).head? = some error := by
  have houtcome := compileWith_reports Functions.standard_consistent hcomplete
  rw [← Expr.compile] at houtcome
  have hnone : e.violations .standard 1 = [] ↔
      (∃ type, e.HasType .standard type) ∧ e.height ≤ 150 := by
    rw [violations_eq_nil_iff Functions.standard_consistent hcomplete, Nat.zero_add]
    apply and_congr_left'
    constructor
    · exact fun htype => ⟨_, htype⟩
    · rintro ⟨type, htype⟩
      rwa [htype.staticType_eq]
  rcases houtcome with ⟨⟨p, hp⟩, hnil⟩ | ⟨error, herror, hfirst⟩
  · rw [← hnone, hp]
    refine ⟨iff_of_true ⟨p, rfl⟩ hnil, ?_⟩
    rintro failure ⟨⟩
  · rw [← hnone, herror]
    constructor
    · apply iff_of_false
      · rintro ⟨p, ⟨⟩⟩
      · intro hnil
        rw [hnil] at hfirst
        cases hfirst
    · rintro failure ⟨⟩
      exact ⟨error, rfl, hfirst⟩

/-- The expression `sum(1) + absent([[1]] * 1)`: an argument of the left operand is at fault before
the name of the call on the right. -/
theorem compile_accepts_sum_of_number :
    let e : Expr :=
      .binary 7 .plus (.call 0 "sum" [.number 4 .one])
        (.call 9 "absent"
          [.binary 22 .times (.array 16 [.array 17 [.number 18 .one]])
            (.number 24 .one)])
    let failure : CompileFailure := .error ⟨.arrayExpected "sum", 4⟩
    e.isComplete = true ∧ e.compile = .error failure ∧
      ∃ error, failure = .error error ∧ (e.violations .standard 1).head? = some error := by
  intro e failure
  have hcomplete : e.isComplete = true := by
    decide +kernel
  have h : e.compile = .error failure := by
    decide +kernel
  exact ⟨hcomplete, h, (compile_accepts e hcomplete).2 failure h⟩

end Expr

end StackCalc
