import Mathlib
import StackCalc.Proofs.Expr.Typing

/-!
# What the compiler emits

A part of a compilation either succeeds or fails, and leaves a state behind in both cases.
`Emission.Ends` states a property of the result and the state for each of the two endings, and
there is one rule for each step of the compiler.

The main result is `Expr.emit_ends`: a compilation that succeeds has found a type for the
expression and emitted one instruction for each of its nodes, in post-order, so that the stack
grows by one value; with consistent functions and without holes it never ends in a fault, and it
never refuses a typed expression that is within the limit of depth.
-/

namespace StackCalc

theorem run_run_bind {ε σ α β : Type}
    (first : ExceptT ε (StateM σ) α) (rest : α → ExceptT ε (StateM σ) β) (s : σ) :
    (first >>= rest).run.run s =
      match first.run.run s with
      | (.ok a, middle) => (rest a).run.run middle
      | (.error failure, final) => (.error failure, final) := by
  rw [ExceptT.run_bind, StateT.run_bind]
  obtain ⟨result, middle⟩ := first.run.run s
  cases result <;> rfl

namespace Emission

variable {α β : Type}

/-- From the state `s`, a part either gives a result with `Q` or a failure with `R`; both are
about the state that is left as well. -/
def Ends (part : Emission α) (s : Emitted)
    (Q : α → Emitted → Prop) (R : CompileFailure → Emitted → Prop) : Prop :=
  match part.run.run s with
  | (.ok a, final) => Q a final
  | (.error failure, final) => R failure final

variable {part : Emission α} {s : Emitted}
  {Q : α → Emitted → Prop} {R : CompileFailure → Emitted → Prop}

theorem ends_pure {a : α} (h : Q a s) : Ends (pure a) s Q R := h

theorem ends_throw {failure : CompileFailure} (h : R failure s) :
    Ends (throw failure : Emission α) s Q R := h

theorem ends_reject {cause : CompileCause} {offset : Int} (h : R (.error ⟨cause, offset⟩) s) :
    Ends (reject cause offset : Emission α) s Q R := h

theorem Ends.mono
    {Q' : α → Emitted → Prop} {R' : CompileFailure → Emitted → Prop}
    (h : Ends part s Q R)
    (hQ : ∀ a final, Q a final → Q' a final)
    (hR : ∀ failure final, R failure final → R' failure final) :
    Ends part s Q' R' := by
  unfold Ends at h ⊢
  split at h
  · exact hQ _ _ h
  · exact hR _ _ h

theorem ends_bind
    {rest : α → Emission β} {Q' : β → Emitted → Prop}
    (h : Ends part s (fun a middle => Ends (rest a) middle Q' R) R) :
    Ends (part >>= rest) s Q' R := by
  unfold Ends at h ⊢
  rw [run_run_bind]
  generalize part.run.run s = outcome at h ⊢
  obtain ⟨result, middle⟩ := outcome
  cases result with
  | ok a => exact h
  | error failure => exact h

theorem ends_get {Q : Emitted → Emitted → Prop} (h : Q s s) :
    Ends (get : Emission Emitted) s Q R := h

theorem ends_set {Q : PUnit → Emitted → Prop} {next : Emitted} (h : Q () next) :
    Ends (set next : Emission PUnit) s Q R := h

theorem ends_modify {Q : PUnit → Emitted → Prop} {f : Emitted → Emitted} (h : Q () (f s)) :
    Ends (modify f : Emission PUnit) s Q R := h

/-- A part that runs one level deeper, if the level is not too deep. -/
theorem ends_nested
    {offset : Int}
    (hdeep : maxTreeDepth < s.nesting + 1 →
      R (.error ⟨.tooDeep, offset⟩) { s with nesting := s.nesting + 1 })
    (hpart : s.nesting + 1 ≤ maxTreeDepth →
      Ends part { s with nesting := s.nesting + 1 }
        (fun a final => Q a { final with nesting := final.nesting - 1 })
        (fun failure final => R failure { final with nesting := final.nesting - 1 })) :
    Ends (nested offset part) s Q R := by
  unfold nested
  apply ends_bind
  apply ends_modify
  apply ends_bind
  apply ends_get
  by_cases h : maxTreeDepth < s.nesting + 1
  · rw [if_pos h]
    apply ends_bind
    apply ends_reject
    exact hdeep h
  · rw [if_neg h]
    have hrun := hpart (Nat.le_of_not_lt h)
    unfold Ends at hrun ⊢
    change match (fun outcome : Except CompileFailure α × Emitted =>
        (outcome.1, { outcome.2 with nesting := outcome.2.nesting - 1 }))
      (part.run.run { s with nesting := s.nesting + 1 }) with
      | (.ok a, final) => Q a final
      | (.error failure, final) => R failure final
    generalize part.run.run { s with nesting := s.nesting + 1 } = outcome at hrun ⊢
    obtain ⟨result, final⟩ := outcome
    cases result with
    | ok a => exact hrun
    | error failure => exact hrun

theorem ends_expect
    {type : StaticType} {cause : CompileCause} {offset : Int} {operand : Emission StaticType}
    {Q : Unit → Emitted → Prop}
    (h : Ends operand s
      (fun found final =>
        if found = type then Q () final else R (.error ⟨cause, offset⟩) final) R) :
    Ends (expect type cause offset operand) s Q R := by
  apply ends_bind
  refine h.mono ?_ fun _ _ hR => hR
  intro found final hfound
  by_cases heq : found = type
  · rw [if_pos heq] at hfound
    simpa [heq] using ends_pure (R := R) hfound
  · rw [if_neg heq] at hfound
    simpa [heq] using ends_reject (Q := Q) hfound

theorem ends_intern
    {s : Emitted} {Q : Nat → Emitted → Prop} {value : Binary64}
    (h : Q ((pooled s.builder.constants value).idxOf value)
      { s with builder := { s.builder with constants := pooled s.builder.constants value } }) :
    Ends (intern value) s Q R := by
  unfold intern
  apply ends_bind
  apply ends_get
  rw [Builder.addConstant_eq]
  apply ends_bind
  apply ends_set
  exact ends_pure h

theorem ends_emit
    {s : Emitted} {Q : Unit → Emitted → Prop}
    {opcode : Opcode} {operand : Option Int} {offset : Int}
    (hdepth : (opcode.stackEffect operand).1 ≤ s.depth)
    (hfits : (⟨opcode, operand⟩ : Instruction).problem? s.builder.constants.length = none)
    (h : Q () { s with
      builder := { s.builder with
        instructions := s.builder.instructions ++ [⟨opcode, operand⟩]
        offsets := s.builder.offsets ++ [offset] }
      depth := s.depth + (opcode.stackEffect operand).2 - (opcode.stackEffect operand).1 }) :
    Ends (emit opcode operand offset) s Q R := by
  unfold emit
  apply ends_bind
  apply ends_get
  have hbuilder : s.builder.emit ⟨opcode, operand⟩ offset =
      .ok { s.builder with
        instructions := s.builder.instructions ++ [⟨opcode, operand⟩]
        offsets := s.builder.offsets ++ [offset] } := by
    rw [Builder.emit, hfits]
  simp only [if_neg (Int.not_lt.mpr hdepth), hbuilder]
  exact ends_set h

end Emission

/-! ## The code of nodes -/

/-- From `s` to `final` the code of some nodes has been emitted, which leaves `height` further
values on the stack. -/
structure Emitted.Extends (functions : Functions) (s : Emitted) (nodes : List Expr)
    (height : Nat) (final : Emitted) : Prop where
  constants : final.builder.constants = poolAll s.builder.constants nodes
  instructions : final.builder.instructions =
    s.builder.instructions ++ nodes.map (Expr.instruction functions final.builder.constants)
  offsets : final.builder.offsets = s.builder.offsets ++ nodes.map Expr.offset
  depth : final.depth = s.depth + height
  nesting : final.nesting = s.nesting

namespace Emitted.Extends

variable {functions : Functions} {s middle final : Emitted} {xs ys : List Expr} {m n : Nat}

theorem refl (functions : Functions) (s : Emitted) : Extends functions s [] 0 s where
  constants := rfl
  instructions := by simp
  offsets := by simp
  depth := by simp
  nesting := rfl

/-- Code of further nodes keeps the instructions before it, since it only adds to the pool. -/
theorem trans
    (h : Extends functions s xs m middle) (h' : Extends functions middle ys n final) :
    Extends functions s (xs ++ ys) (m + n) final where
  constants := by rw [h'.constants, h.constants, poolAll_append]
  instructions := by
    have hfront : middle.builder.constants <+: final.builder.constants := by
      rw [h'.constants]
      exact prefix_poolAll _ ys
    have hslots : ∀ e ∈ xs, ∀ value, e.literal? = some value →
        value ∈ middle.builder.constants := by
      intro e he value hvalue
      rw [h.constants]
      exact literal_mem_poolAll he hvalue _
    rw [h'.instructions, h.instructions, List.map_append,
      map_instruction_eq_of_prefix functions hfront hslots, List.append_assoc]
  offsets := by rw [h'.offsets, h.offsets, List.map_append, List.append_assoc]
  depth := by
    rw [h'.depth, h.depth]
    push_cast
    ring
  nesting := h'.nesting.trans h.nesting

theorem leave
    (h : Extends functions { s with nesting := s.nesting + 1 } xs m final) :
    Extends functions s xs m { final with nesting := final.nesting - 1 } where
  constants := h.constants
  instructions := h.instructions
  offsets := h.offsets
  depth := h.depth
  nesting := by
    have hnesting := h.nesting
    simp only at hnesting ⊢
    omega

end Emitted.Extends

namespace Expr

variable {functions : Functions}

theorem poolAll_singleton_of_literal?_eq_none {e : Expr} (h : e.literal? = none)
    (pool : List Binary64) : poolAll pool [e] = pool := by
  simp [poolAll, h]

/-- The instruction of a node completes its code, if the code of its operands has been
emitted. -/
theorem ends_emit_instruction
    {e : Expr} {s middle : Emitted} {R : CompileFailure → Emitted → Prop}
    (hoperands : Emitted.Extends functions s (postorders e.operands) e.operands.length middle)
    (hliteral : e.literal? = none) (hdepth : 0 ≤ s.depth)
    (heffect : (e.opcode functions).stackEffect (e.operand? middle.builder.constants) =
      ((e.operands.length : Int), 1))
    (hfits : (e.instruction functions middle.builder.constants).problem?
      middle.builder.constants.length = none) :
    Emission.Ends
      (Emission.emit (e.opcode functions) (e.operand? middle.builder.constants) e.offset) middle
      (fun _ final => Emitted.Extends functions s e.postorder 1 final) R := by
  have hmiddle := hoperands.depth
  apply Emission.ends_emit
  · rw [heffect]
    simp only
    omega
  · exact hfits
  · rw [heffect]
    constructor
    · rw [postorder_eq, poolAll_append, poolAll_singleton_of_literal?_eq_none hliteral]
      exact hoperands.constants
    · rw [postorder_eq, List.map_append, ← List.append_assoc, ← hoperands.instructions]
      rfl
    · rw [postorder_eq, List.map_append, ← List.append_assoc, ← hoperands.offsets]
      rfl
    · simp only
      omega
    · exact hoperands.nesting

theorem problem?_pushConst {index poolSize : Nat} (h : index < poolSize) :
    (⟨.pushConst, some index⟩ : Instruction).problem? poolSize = none := by
  have hindex : ¬ (index : Int) < 0 := by omega
  have hinside : ¬ (poolSize : Int) ≤ index := by omega
  simp only [Instruction.problem?, if_neg hindex, if_neg hinside]

theorem problem?_buildArray (count poolSize : Nat) :
    (⟨.buildArray, some count⟩ : Instruction).problem? poolSize = none := by
  have hcount : ¬ (count : Int) < 0 := by omega
  simp only [Instruction.problem?, if_neg hcount]

theorem problem?_operation {opcode : Opcode} (h : opcode.hasOperand = false) (poolSize : Nat) :
    (⟨opcode, none⟩ : Instruction).problem? poolSize = none := by
  cases opcode <;> simp [Instruction.problem?, Opcode.hasOperand] at h ⊢

/-- The expression has a type and fits into what the limit leaves below some nodes. -/
def Acceptable (functions : Functions) (e : Expr) (type : StaticType) (nesting : Nat) : Prop :=
  e.HasType functions type ∧ nesting + e.height ≤ maxTreeDepth

theorem Acceptable.operand
    {e a : Expr} {type operandType : StaticType} {nesting : Nat}
    (h : Acceptable functions e type nesting) (ha : a ∈ e.operands)
    (htype : a.HasType functions operandType) :
    Acceptable functions a operandType (nesting + 1) := by
  have hheight := height_lt_of_operand ha
  have hlimit := h.2
  exact ⟨htype, by omega⟩

/-- A failure is an error of the expression, provided that there is no hole in it, and there is
a reason for it. -/
def Refuses (complete accepted : Prop) (failure : CompileFailure) (_ : Emitted) : Prop :=
  (complete → ∃ e, failure = .error e) ∧ ¬ accepted

theorem Refuses.mono
    {complete complete' accepted accepted' : Prop} {failure : CompileFailure} {s s' : Emitted}
    (h : Refuses complete accepted failure s)
    (hcomplete : complete' → complete) (haccepted : accepted' → accepted) :
    Refuses complete' accepted' failure s' :=
  ⟨fun hwhole => h.1 (hcomplete hwhole), fun hwhole => h.2 (haccepted hwhole)⟩

theorem refuses_error
    {complete accepted : Prop} (h : ¬ accepted) (e : CompileError) (s : Emitted) :
    Refuses complete accepted (.error e) s :=
  ⟨fun _ => ⟨e, rfl⟩, h⟩

/-- How the compilation of an expression ends. -/
def EmitEnds (functions : Functions) (e : Expr) : Prop :=
  ∀ s : Emitted, 0 ≤ s.depth →
    Emission.Ends (e.emit functions) s
      (fun type final => e.HasType functions type ∧ s.Extends functions e.postorder 1 final)
      (Refuses (e.isComplete = true) (∃ type, Acceptable functions e type s.nesting))

theorem refuses_tooDeep
    {e : Expr} {complete : Prop} {nesting : Nat} (h : maxTreeDepth < nesting + 1)
    (offset : Int) (s : Emitted) :
    Refuses complete (∃ type, Acceptable functions e type nesting) (.error ⟨.tooDeep, offset⟩)
      s := by
  apply refuses_error
  rintro ⟨type, -, hlimit⟩
  have hheight := height_pos e
  omega

theorem emit_number_ends (offset : Int) (value : Binary64) :
    EmitEnds functions (.number offset value) := by
  intro s hdepth
  rw [Expr.emit]
  apply Emission.ends_nested
  · intro hdeep
    exact refuses_tooDeep hdeep _ _
  · intro _
    apply Emission.ends_bind
    apply Emission.ends_intern
    apply Emission.ends_bind
    apply Emission.ends_emit
    · simpa [Opcode.stackEffect] using hdepth
    · have hslot : (pooled s.builder.constants value).idxOf value <
          (pooled s.builder.constants value).length :=
        List.idxOf_lt_length_of_mem (mem_pooled_self _ value)
      exact problem?_pushConst hslot
    · apply Emission.ends_pure
      refine ⟨.number, ?_⟩
      apply Emitted.Extends.leave
      constructor
      · simp [poolAll, postorder, literal?]
      · simp [postorder, instruction, opcode, operand?]
      · simp [postorder, Expr.offset]
      · simp [Opcode.stackEffect]
      · rfl

theorem EmitEnds.expect
    {e : Expr} (h : EmitEnds functions e) {type : StaticType} {cause : CompileCause}
    {s : Emitted} (hdepth : 0 ≤ s.depth) {complete accepted : Prop}
    (hcomplete : complete → e.isComplete = true)
    (haccepted : accepted → Acceptable functions e type s.nesting) :
    Emission.Ends (Emission.expect type cause e.offset (e.emit functions)) s
      (fun _ final => e.HasType functions type ∧ s.Extends functions e.postorder 1 final)
      (Refuses complete accepted) := by
  apply Emission.ends_expect
  refine (h s hdepth).mono ?_ fun _ _ hfailure =>
    hfailure.mono hcomplete fun h => ⟨type, haccepted h⟩
  rintro found final ⟨htype, hextends⟩
  by_cases heq : found = type
  · rw [if_pos heq]
    exact ⟨heq ▸ htype, hextends⟩
  · rw [if_neg heq]
    apply refuses_error
    intro h
    exact heq (htype.unique (haccepted h).1)

theorem emitNumbers_ends
    {es : List Expr} (hes : ∀ e ∈ es, EmitEnds functions e) (cause : CompileCause)
    {s : Emitted} (hdepth : 0 ≤ s.depth) :
    Emission.Ends (emitNumbers functions cause es) s
      (fun _ final => (∀ e ∈ es, e.HasType functions .number) ∧
        s.Extends functions (postorders es) es.length final)
      (Refuses (areComplete es = true)
        (∀ e ∈ es, Acceptable functions e .number s.nesting)) := by
  induction es generalizing s with
  | nil =>
      rw [emitNumbers]
      apply Emission.ends_pure
      constructor
      · intro e he
        cases he
      · rw [postorders_nil]
        exact Emitted.Extends.refl functions s
  | cons e es ih =>
      rw [emitNumbers]
      have hcomplete : areComplete (e :: es) = true →
          e.isComplete = true ∧ areComplete es = true := by
        rw [areComplete, Bool.and_eq_true]
        exact id
      apply Emission.ends_bind
      refine ((hes e List.mem_cons_self).expect hdepth (fun h => (hcomplete h).1)
        fun h => h e List.mem_cons_self).mono ?_ fun _ _ hfailure => hfailure
      rintro _ middle ⟨htype, hfirst⟩
      have hmiddle : 0 ≤ middle.depth := by
        rw [hfirst.depth]
        omega
      refine (ih (fun a ha => hes a (List.mem_cons_of_mem _ ha)) hmiddle).mono ?_
        fun _ _ hfailure => hfailure.mono (fun h => (hcomplete h).2) ?_
      · rintro _ final ⟨htypes, hrest⟩
        constructor
        · intro a ha
          rcases List.mem_cons.mp ha with rfl | hrest
          · exact htype
          · exact htypes a hrest
        · have hboth := hfirst.trans hrest
          rwa [Nat.add_comm, ← postorders_cons] at hboth
      · intro h a ha
        rw [hfirst.nesting]
        exact h a (List.mem_cons_of_mem _ ha)

theorem emit_array_ends
    (offset : Int) {items : List Expr} (hitems : ∀ e ∈ items, EmitEnds functions e) :
    EmitEnds functions (.array offset items) := by
  intro s hdepth
  rw [Expr.emit]
  apply Emission.ends_nested
  · intro hdeep
    exact refuses_tooDeep hdeep _ _
  · intro _
    apply Emission.ends_bind
    refine (emitNumbers_ends hitems .arrayElement (by exact hdepth)).mono ?_
      fun _ _ hfailure => hfailure.mono ?_ ?_
    · rintro _ middle ⟨htypes, hextends⟩
      apply Emission.ends_bind
      refine (ends_emit_instruction (e := .array offset items) hextends rfl hdepth rfl
        (problem?_buildArray _ _)).mono ?_ fun _ _ hfailure => hfailure
      intro _ final hfinal
      exact Emission.ends_pure ⟨.array htypes, hfinal.leave⟩
    · rw [isComplete]
      exact id
    · rintro ⟨type, h⟩ a ha
      have htype := h.1
      cases htype with
      | array htypes => exact h.operand ha (htypes a ha)

theorem emit_unary_ends
    (offset : Int) (op : UnaryOperator) {operand : Expr} (hoperand : EmitEnds functions operand) :
    EmitEnds functions (.unary offset op operand) := by
  intro s hdepth
  rw [Expr.emit]
  have hcomplete : isComplete (.unary offset op operand) = true → operand.isComplete = true := by
    rw [isComplete]
    exact id
  have haccepted : (∃ type, Acceptable functions (.unary offset op operand) type s.nesting) →
      Acceptable functions operand .number (s.nesting + 1) := by
    rintro ⟨type, h⟩
    have htype := h.1
    cases htype with
    | unary htype => exact h.operand (List.mem_singleton_self _) htype
  apply Emission.ends_nested
  · intro hdeep
    exact refuses_tooDeep hdeep _ _
  · intro _
    apply Emission.ends_bind
    refine (hoperand.expect (by exact hdepth) hcomplete haccepted).mono ?_
      fun _ _ hfailure => hfailure
    rintro _ middle ⟨htype, hextends⟩
    apply Emission.ends_bind
    have hoperands := hextends
    rw [← List.append_nil operand.postorder, ← postorders_nil, ← postorders_cons] at hoperands
    refine (ends_emit_instruction (e := .unary offset op operand) hoperands rfl hdepth
      ?_ ?_).mono ?_ fun _ _ hfailure => hfailure
    · cases op <;> rfl
    · apply problem?_operation
      cases op <;> rfl
    · intro _ final hfinal
      exact Emission.ends_pure ⟨.unary htype, hfinal.leave⟩

theorem emit_binary_ends
    (offset : Int) (op : BinaryOperator) {left right : Expr}
    (hleft : EmitEnds functions left) (hright : EmitEnds functions right) :
    EmitEnds functions (.binary offset op left right) := by
  intro s hdepth
  rw [Expr.emit]
  have hcomplete : isComplete (.binary offset op left right) = true →
      left.isComplete = true ∧ right.isComplete = true := by
    rw [isComplete, Bool.and_eq_true]
    exact id
  have haccepted : (∃ type, Acceptable functions (.binary offset op left right) type s.nesting) →
      Acceptable functions left .number (s.nesting + 1) ∧
        Acceptable functions right .number (s.nesting + 1) := by
    rintro ⟨type, h⟩
    have htype := h.1
    cases htype with
    | binary htypeLeft htypeRight =>
        exact ⟨h.operand (by simp [operands]) htypeLeft, h.operand (by simp [operands]) htypeRight⟩
  apply Emission.ends_nested
  · intro hdeep
    exact refuses_tooDeep hdeep _ _
  · intro _
    apply Emission.ends_bind
    refine (hleft.expect (by exact hdepth) (fun h => (hcomplete h).1)
      fun h => (haccepted h).1).mono ?_ fun _ _ hfailure => hfailure
    rintro _ first ⟨htypeLeft, hfirst⟩
    have hfirstDepth : 0 ≤ first.depth := by
      have hheight := hfirst.depth
      simp only at hheight
      omega
    apply Emission.ends_bind
    refine (hright.expect hfirstDepth (fun h => (hcomplete h).2)
      fun h => hfirst.nesting ▸ (haccepted h).2).mono ?_ fun _ _ hfailure => hfailure
    rintro _ second ⟨htypeRight, hsecond⟩
    apply Emission.ends_bind
    have hoperands := hfirst.trans hsecond
    rw [← List.append_nil right.postorder, ← postorders_nil, ← postorders_cons,
      ← postorders_cons] at hoperands
    refine (ends_emit_instruction (e := .binary offset op left right) hoperands rfl hdepth
      ?_ ?_).mono ?_ fun _ _ hfailure => hfailure
    · cases op <;> rfl
    · apply problem?_operation
      cases op <;> rfl
    · intro _ final hfinal
      exact Emission.ends_pure ⟨.binary htypeLeft htypeRight, hfinal.leave⟩

theorem stackEffect_of_consistent
    {f : NamedFunction} (hf : f.Consistent) {supplied : Nat} {op : Opcode}
    (hop : f.opcode? supplied = some op) :
    op.stackEffect none = ((supplied : Int), 1) ∧ op.hasOperand = false := by
  cases hreducer : f.reducer with
  | false =>
      rcases hf.scalar hreducer supplied op hop with ⟨rfl, u, rfl⟩ | ⟨rfl, b, rfl⟩
      · exact ⟨rfl, rfl⟩
      · exact ⟨rfl, rfl⟩
  | true =>
      obtain ⟨rfl, r, rfl⟩ := hf.reducing hreducer supplied op hop
      exact ⟨rfl, rfl⟩

theorem emit_args_ends
    (offset : Int) {f : NamedFunction} (hf : f.Consistent) {op : Opcode} {name : String}
    {args : List Expr} (hname : functions.find? name = some f)
    (hop : f.opcode? args.length = some op)
    (hargs : ∀ e ∈ args, EmitEnds functions e) {s : Emitted} (hdepth : 0 ≤ s.depth)
    {nesting : Nat} (hnesting : s.nesting = nesting + 1) :
    Emission.Ends
      (if f.reducer then emitArray functions f.name args
        else emitNumbers functions (.arrayOperand f.name) args) s
      (fun _ final => (Expr.call offset name args).HasType functions .number ∧
        s.Extends functions (postorders args) args.length final)
      (Refuses (areComplete args = true)
        (∃ type, Acceptable functions (.call offset name args) type nesting)) := by
  cases hreducer : f.reducer with
  | false =>
      refine (emitNumbers_ends hargs (.arrayOperand f.name) hdepth).mono ?_
        fun _ _ hfailure => hfailure.mono id ?_
      · rintro _ final ⟨htypes, hextends⟩
        exact ⟨.scalarCall hname hreducer hop htypes, hextends⟩
      · rintro ⟨type, h⟩ a ha
        have htype := h.1
        rw [hnesting]
        cases htype with
        | scalarCall hname' _ _ htypes => exact h.operand ha (htypes a ha)
        | reducerCall hname' hreducer' _ _ =>
            rw [hname] at hname'
            cases hname'
            rw [hreducer] at hreducer'
            cases hreducer'
  | true =>
      obtain ⟨hlength, -⟩ := hf.reducing hreducer _ _ hop
      obtain ⟨arg, rfl⟩ := List.length_eq_one_iff.mp hlength
      rw [if_pos rfl, emitArray]
      refine ((hargs arg List.mem_cons_self).expect hdepth ?_ ?_).mono ?_
        fun _ _ hfailure => hfailure
      · rw [areComplete, areComplete, Bool.and_true]
        exact id
      · rintro ⟨type, h⟩
        have htype := h.1
        rw [hnesting]
        cases htype with
        | scalarCall hname' hreducer' _ _ =>
            rw [hname] at hname'
            cases hname'
            rw [hreducer] at hreducer'
            cases hreducer'
        | reducerCall _ _ _ htype => exact h.operand (List.mem_singleton_self _) htype
      · rintro _ final ⟨htype, hextends⟩
        refine ⟨.reducerCall hname hreducer hop htype, ?_⟩
        rw [postorders_cons, postorders_nil, List.append_nil]
        exact hextends

theorem HasType.opcode?_of_call
    {offset : Int} {name : String} {args : List Expr} {type : StaticType}
    (h : (Expr.call offset name args).HasType functions type) :
    ∃ f op, functions.find? name = some f ∧ f.opcode? args.length = some op := by
  cases h with
  | scalarCall hname _ hop _ => exact ⟨_, _, hname, hop⟩
  | reducerCall hname _ hop _ => exact ⟨_, _, hname, hop⟩

theorem emit_call_ends
    (hfunctions : functions.Consistent) (offset : Int) (name : String) {args : List Expr}
    (hargs : ∀ e ∈ args, EmitEnds functions e) :
    EmitEnds functions (.call offset name args) := by
  intro s hdepth
  rw [Expr.emit]
  apply Emission.ends_nested
  · intro hdeep
    exact refuses_tooDeep hdeep _ _
  · intro _
    cases hname : functions.find? name with
    | none =>
        apply Emission.ends_reject
        apply refuses_error
        rintro ⟨type, htype, -⟩
        obtain ⟨f, op, hname', -⟩ := htype.opcode?_of_call
        rw [hname] at hname'
        cases hname'
    | some f =>
        have hf := hfunctions.of_find? hname
        cases hop : f.opcode? args.length with
        | none =>
            simp only [NamedFunction.opcodeFor, hop]
            apply Emission.ends_throw
            apply refuses_error
            rintro ⟨type, htype, -⟩
            obtain ⟨f', op, hname', hop'⟩ := htype.opcode?_of_call
            rw [hname] at hname'
            cases hname'
            rw [hop] at hop'
            cases hop'
        | some op =>
            simp only [NamedFunction.opcodeFor, hop]
            have hopcode := opcode_call offset hname hop
            obtain ⟨heffect, hplain⟩ := stackEffect_of_consistent hf hop
            -- Both kinds of arguments are followed by the same instruction.
            rw [← apply_ite fun part : Emission Unit => part >>= fun _ => do
              Emission.emit op none offset
              return StaticType.number]
            apply Emission.ends_bind
            refine (emit_args_ends offset hf hname hop hargs (by exact hdepth) rfl).mono
              ?_ fun _ _ hfailure => hfailure.mono ?_ id
            · rintro _ middle ⟨htype, hextends⟩
              apply Emission.ends_bind
              have hlast := ends_emit_instruction (e := .call offset name args)
                (R := fun failure final => Refuses (isComplete (.call offset name args) = true)
                  (∃ type, Acceptable functions (.call offset name args) type s.nesting) failure
                  { final with nesting := final.nesting - 1 })
                hextends rfl hdepth (by rw [hopcode]; exact heffect)
                (by rw [instruction, hopcode]; exact problem?_operation hplain _)
              rw [hopcode] at hlast
              refine hlast.mono ?_ fun _ _ hfailure => hfailure
              intro _ final hfinal
              exact Emission.ends_pure ⟨htype, hfinal.leave⟩
            · rw [isComplete]
              exact id

/-- A compilation that succeeds has emitted the instructions of the nodes of a typed expression.
With consistent functions it succeeds with every typed expression within the limit of depth, and
only a hole causes a fault. -/
theorem emit_ends (hfunctions : functions.Consistent) (e : Expr) : EmitEnds functions e := by
  induction e using operandInduction with
  | node e ih =>
      cases e with
      | number offset value => exact emit_number_ends offset value
      | array offset items => exact emit_array_ends offset ih
      | unary offset op operand => exact emit_unary_ends offset op (ih operand (by simp [operands]))
      | binary offset op left right =>
          exact emit_binary_ends offset op (ih left (by simp [operands]))
            (ih right (by simp [operands]))
      | call offset name args => exact emit_call_ends hfunctions offset name ih
      | hole offset =>
          intro s hdepth
          rw [Expr.emit]
          apply Emission.ends_nested
          · intro hdeep
            exact refuses_tooDeep hdeep _ _
          · intro _
            apply Emission.ends_throw
            constructor
            · intro hcomplete
              rw [isComplete] at hcomplete
              cases hcomplete
            · rintro ⟨type, htype, -⟩
              cases htype

/-! ## Whole compilations -/

/-- The outcome of a compilation is that of emitting the expression from nothing, since the code
of an expression leaves one value. -/
theorem compileWith_fst
    (hfunctions : functions.Consistent) (e : Expr) :
    (e.compileWith functions).1 =
      match ((e.emit functions).run.run {}).1 with
      | .error failure => .error failure
      | .ok _ => .ok ((e.emit functions).run.run {}).2.builder.build := by
  have hends := emit_ends hfunctions e {} (Int.le_refl 0)
  unfold Emission.Ends at hends
  unfold compileWith
  generalize (e.emit functions).run.run {} = outcome at hends ⊢
  obtain ⟨result, final⟩ := outcome
  cases result with
  | error failure => rfl
  | ok type =>
      have hdepth : final.depth = 1 := by simpa using hends.2.depth
      simp [hdepth]

/-- A compiled program has one instruction for each node of a typed expression, in post-order, and
the offset of that node. -/
theorem compileWith_eq_ok
    (hfunctions : functions.Consistent) {e : Expr} {p : Program}
    (h : (e.compileWith functions).1 = .ok p) :
    ∃ type, e.HasType functions type ∧
      p.constants = poolAll [] e.postorder ∧
      p.instructions = e.postorder.map (instruction functions p.constants) ∧
      p.offsets = e.postorder.map Expr.offset := by
  rw [compileWith_fst hfunctions] at h
  have hends := emit_ends hfunctions e {} (Int.le_refl 0)
  unfold Emission.Ends at hends
  generalize (e.emit functions).run.run {} = outcome at hends h
  obtain ⟨result, final⟩ := outcome
  cases result with
  | error failure => cases h
  | ok type =>
      cases h
      obtain ⟨htype, hextends⟩ := hends
      refine ⟨type, htype, hextends.constants, ?_, ?_⟩
      · simpa [Builder.build] using hextends.instructions
      · simpa [Builder.build] using hextends.offsets

/-- With consistent functions the compilation of an expression without holes never faults. -/
theorem compileWith_ne_fault
    (hfunctions : functions.Consistent) {e : Expr} (hcomplete : e.isComplete = true)
    (fault : CompileFault) :
    (e.compileWith functions).1 ≠ .error (.fault fault) := by
  intro h
  rw [compileWith_fst hfunctions] at h
  have hends := emit_ends hfunctions e {} (Int.le_refl 0)
  unfold Emission.Ends at hends
  generalize (e.emit functions).run.run {} = outcome at hends h
  obtain ⟨result, final⟩ := outcome
  cases result with
  | ok type => cases h
  | error failure =>
      obtain ⟨error, rfl⟩ := hends.1 hcomplete
      cases h

theorem exists_compileWith_eq_ok
    (hfunctions : functions.Consistent) {e : Expr} {type : StaticType}
    (htype : e.HasType functions type) (hheight : e.height ≤ maxTreeDepth) :
    ∃ p, (e.compileWith functions).1 = .ok p := by
  rw [compileWith_fst hfunctions]
  have hends := emit_ends hfunctions e {} (Int.le_refl 0)
  unfold Emission.Ends at hends
  generalize (e.emit functions).run.run {} = outcome at hends ⊢
  obtain ⟨result, final⟩ := outcome
  cases result with
  | ok type => exact ⟨_, rfl⟩
  | error failure => exact absurd ⟨type, htype, by simpa using hheight⟩ hends.2

end Expr

end StackCalc
