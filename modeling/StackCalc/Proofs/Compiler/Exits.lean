import Mathlib
import StackCalc.Proofs.Expr.Course
import StackCalc.Proofs.Machine.Heights
import StackCalc.Proofs.Program.Histories
import StackCalc.Proofs.Session.Reuse

/-!
# Where the compiler stops

The compiler may stop at any node, for many reasons, and it keeps what it has emitted until then.
Wherever it stops, and whatever its functions are, the emitted part of the program is in order: it
has as many offsets as instructions, its operands fit, and its stack effects never take more than
there is and add up to the recorded depth.  All nodes have been left again, unless a node was too
deep: the level of that node is entered before it is checked, and it is not left.

With the standard functions the emitted instructions are those of the nodes that the traversal has
completed before the violation at which the compiler stops.
-/

namespace StackCalc

/-- The emitted part of a program is in order. -/
structure Emitted.Accounted (s : Emitted) : Prop where
  wellFormed : s.builder.WellFormed
  /-- The stack effects of all instructions add up to the depth. -/
  depth_eq : s.depth = s.builder.build.heightAfter s.builder.instructions.length
  /-- No instruction pops more values than the instructions before it leave. -/
  supplied : ∀ place i, s.builder.instructions[place]? = some i →
    i.stackEffect.1 ≤ s.builder.build.heightAfter place

/-- The levels that a failure does not leave: that of a node that is too deep. -/
def CompileFailure.entered : CompileFailure → Nat
  | .error ⟨.tooDeep, _⟩ => 1
  | _ => 0

theorem CompileFailure.entered_le_one (failure : CompileFailure) : failure.entered ≤ 1 := by
  rcases failure with ⟨_ | _ | _ | _ | _ | _, offset⟩ | fault <;> simp [entered]

theorem CompileFailure.entered_eq_one_iff {failure : CompileFailure} :
    failure.entered = 1 ↔ ∃ offset, failure = .error ⟨.tooDeep, offset⟩ := by
  rcases failure with ⟨_ | _ | _ | _ | _ | _, offset⟩ | fault <;> simp [entered]

/-! ## Instructions -/

namespace Emitted.Accounted

variable {s : Emitted}

theorem empty : Accounted {} where
  wellFormed := ⟨List.nodup_nil, by simp, rfl⟩
  depth_eq := rfl
  supplied place i h := by simp at h

theorem intern (h : s.Accounted) (value : Binary64) :
    Accounted { s with
      builder := { s.builder with constants := pooled s.builder.constants value } } where
  wellFormed := by
    have hwell := h.wellFormed.call (.addConstant value)
    rwa [Builder.call, Builder.addConstant_eq] at hwell
  depth_eq := h.depth_eq
  supplied := h.supplied

theorem emit (h : s.Accounted) {i : Instruction} (offset : Int)
    (hdepth : i.stackEffect.1 ≤ s.depth)
    (hfits : i.problem? s.builder.constants.length = none) :
    Accounted { s with
      builder := { s.builder with
        instructions := s.builder.instructions ++ [i]
        offsets := s.builder.offsets ++ [offset] }
      depth := s.depth + i.stackEffect.2 - i.stackEffect.1 } where
  wellFormed := by
    have hwell := h.wellFormed.call (.emit i offset)
    rwa [Builder.call, Builder.emit, hfits] at hwell
  depth_eq := by
    have hsum := h.depth_eq
    simp only [Program.heightAfter, Builder.build, List.take_length] at hsum ⊢
    rw [List.map_append, List.sum_append, ← hsum, List.map_singleton, List.sum_singleton,
      Instruction.growth]
    omega
  supplied place j hj := by
    rcases getElem?_concat_eq_some_iff.mp hj with hold | ⟨rfl, rfl⟩
    · have hlt := (List.getElem?_eq_some_iff.mp hold).1
      have hle := h.supplied place j hold
      simp only [Program.heightAfter, Builder.build] at hle ⊢
      rwa [List.take_append_of_le_length hlt.le]
    · have hsum := h.depth_eq
      simp only [Program.heightAfter, Builder.build] at hsum ⊢
      rwa [List.take_append_of_le_length le_rfl, ← hsum]

end Emitted.Accounted

/-! ## Parts of a compilation -/

namespace Emission

variable {α β : Type}

/-- An instruction is emitted if it finds its operands on the stack and is accepted, and otherwise
causes a fault that leaves everything as it was. -/
theorem ends_emit_or_fault
    {s : Emitted} {Q : Unit → Emitted → Prop} {R : CompileFailure → Emitted → Prop}
    {opcode : Opcode} {operand : Option Int} {offset : Int}
    (hfault : ∀ fault, R (.fault fault) s)
    (h : (opcode.stackEffect operand).1 ≤ s.depth →
      (⟨opcode, operand⟩ : Instruction).problem? s.builder.constants.length = none →
      Q () { s with
        builder := { s.builder with
          instructions := s.builder.instructions ++ [⟨opcode, operand⟩]
          offsets := s.builder.offsets ++ [offset] }
        depth := s.depth + (opcode.stackEffect operand).2 - (opcode.stackEffect operand).1 }) :
    Ends (emit opcode operand offset) s Q R := by
  by_cases hdepth : s.depth < (opcode.stackEffect operand).1
  · unfold emit
    apply ends_bind
    apply ends_get
    simp only [if_pos hdepth]
    apply ends_bind
    exact ends_throw (hfault _)
  · cases hproblem : (⟨opcode, operand⟩ : Instruction).problem? s.builder.constants.length with
    | some problem =>
        unfold emit
        apply ends_bind
        apply ends_get
        simp only [if_neg hdepth, Builder.emit, hproblem]
        exact ends_throw (hfault _)
    | none =>
        have hle := Int.not_lt.mp hdepth
        exact ends_emit hle hproblem (h hle hproblem)

/-- However a part ends, the emitted part of the program stays in order and all levels are left
again, but for that of a node that is too deep. -/
def Keeps (part : Emission α) : Prop :=
  ∀ s : Emitted, s.Accounted →
    Ends part s
      (fun _ final => final.Accounted ∧ final.nesting = s.nesting)
      (fun failure final => final.Accounted ∧ final.nesting = s.nesting + failure.entered)

theorem keeps_pure (a : α) : Keeps (pure a) :=
  fun _ hs => ends_pure ⟨hs, rfl⟩

theorem keeps_throw {failure : CompileFailure} (h : failure.entered = 0) :
    Keeps (throw failure : Emission α) := by
  intro s hs
  apply ends_throw
  rw [h]
  exact ⟨hs, rfl⟩

theorem Keeps.bind {part : Emission α} {rest : α → Emission β}
    (h : Keeps part) (hrest : ∀ a, Keeps (rest a)) : Keeps (part >>= rest) := by
  intro s hs
  apply ends_bind
  refine (h s hs).mono ?_ fun _ _ hfailure => hfailure
  rintro a middle ⟨hmiddle, hnesting⟩
  rw [← hnesting]
  exact hrest a middle hmiddle

theorem keeps_intern (value : Binary64) : Keeps (intern value) :=
  fun _ hs => ends_intern ⟨hs.intern value, rfl⟩

theorem keeps_emit (opcode : Opcode) (operand : Option Int) (offset : Int) :
    Keeps (emit opcode operand offset) := by
  intro s hs
  apply ends_emit_or_fault
  · exact fun fault => ⟨hs, rfl⟩
  · intro hdepth hfits
    exact ⟨hs.emit offset hdepth hfits, rfl⟩

theorem Keeps.nested {part : Emission α} (h : Keeps part) (offset : Int) :
    Keeps (nested offset part) := by
  intro s hs
  have hinside : Emitted.Accounted { s with nesting := s.nesting + 1 } :=
    ⟨hs.wellFormed, hs.depth_eq, hs.supplied⟩
  apply ends_nested
  · exact fun _ => ⟨hinside, rfl⟩
  · intro _
    refine (h _ hinside).mono ?_ ?_
    · rintro a final ⟨hfinal, hnesting⟩
      refine ⟨⟨hfinal.wellFormed, hfinal.depth_eq, hfinal.supplied⟩, ?_⟩
      simp only [hnesting, Nat.add_sub_cancel]
    · rintro failure final ⟨hfinal, hnesting⟩
      refine ⟨⟨hfinal.wellFormed, hfinal.depth_eq, hfinal.supplied⟩, ?_⟩
      simp only [hnesting]
      omega

theorem Keeps.expect {part : Emission StaticType} (h : Keeps part) (type : StaticType)
    {cause : CompileCause} (hcause : cause ≠ .tooDeep) (offset : Int) :
    Keeps (expect type cause offset part) := by
  apply h.bind
  intro found
  split
  · apply keeps_throw
    cases cause <;> first | rfl | exact absurd rfl hcause
  · exact keeps_pure ()

end Emission

namespace Expr

open Emission

variable {functions : Functions}

theorem emitNumbers_keeps
    {es : List Expr} (hes : ∀ a ∈ es, Keeps (a.emit functions)) {cause : CompileCause}
    (hcause : cause ≠ .tooDeep) : Keeps (emitNumbers functions cause es) := by
  induction es with
  | nil =>
      rw [emitNumbers]
      exact keeps_pure ()
  | cons e es ih =>
      rw [emitNumbers]
      apply ((hes e List.mem_cons_self).expect .number hcause e.offset).bind
      exact fun _ => ih fun a ha => hes a (List.mem_cons_of_mem e ha)

theorem emitArray_keeps
    {es : List Expr} (hes : ∀ a ∈ es, Keeps (a.emit functions)) (name : String) :
    Keeps (emitArray functions name es) := by
  cases es with
  | nil =>
      rw [emitArray]
      exact keeps_throw rfl
  | cons e es =>
      rw [emitArray]
      exact (hes e List.mem_cons_self).expect .array (by rintro ⟨⟩) e.offset

theorem keeps_last (opcode : Opcode) (operand : Option Int) (offset : Int) (type : StaticType) :
    Keeps (do Emission.emit opcode operand offset; return type) :=
  (keeps_emit opcode operand offset).bind fun _ => keeps_pure type

/-- The emitted part of a program is in order wherever the compilation of an expression ends,
whatever the functions are. -/
theorem emit_keeps (functions : Functions) (e : Expr) : Keeps (e.emit functions) := by
  induction e using operandInduction with
  | node e ih =>
      have hcontext (context : String) : CompileCause.arrayOperand context ≠ .tooDeep := by
        rintro ⟨⟩
      cases e with
      | number offset value =>
          rw [Expr.emit]
          apply Keeps.nested
          apply (keeps_intern value).bind
          exact fun slot => keeps_last .pushConst (some slot) offset .number
      | array offset items =>
          rw [Expr.emit]
          apply Keeps.nested
          apply (emitNumbers_keeps ih (by rintro ⟨⟩)).bind
          exact fun _ => keeps_last .buildArray (some items.length) offset .array
      | unary offset op operand =>
          rw [Expr.emit]
          apply Keeps.nested
          apply ((ih operand (by simp [operands])).expect .number (hcontext _) operand.offset).bind
          exact fun _ => keeps_last op.opcode none offset .number
      | binary offset op left right =>
          rw [Expr.emit]
          apply Keeps.nested
          apply ((ih left (by simp [operands])).expect .number (hcontext _) left.offset).bind
          intro _
          apply ((ih right (by simp [operands])).expect .number (hcontext _) right.offset).bind
          exact fun _ => keeps_last op.opcode none offset .number
      | call offset name args =>
          rw [Expr.emit]
          apply Keeps.nested
          split
          · exact keeps_throw rfl
          · rename_i f _
            rw [NamedFunction.opcodeFor]
            cases f.opcode? args.length with
            | none => exact keeps_throw rfl
            | some op =>
                simp only
                split
                · apply (emitArray_keeps ih f.name).bind
                  exact fun _ => keeps_last op none offset .number
                · apply (emitNumbers_keeps ih (hcontext _)).bind
                  exact fun _ => keeps_last op none offset .number
      | hole offset =>
          rw [Expr.emit]
          apply Keeps.nested
          exact keeps_throw rfl

end Expr

/-! ## Completed nodes -/

/-- From `s` to `final` the instructions of some nodes have been emitted. -/
structure Emitted.Adds (functions : Functions) (s : Emitted) (nodes : List Expr)
    (final : Emitted) : Prop where
  opcodes : final.builder.instructions.map Instruction.opcode =
    s.builder.instructions.map Instruction.opcode ++ nodes.map (Expr.opcode functions)
  offsets : final.builder.offsets = s.builder.offsets ++ nodes.map Expr.offset

namespace Emitted.Adds

variable {functions : Functions} {s middle final : Emitted} {xs ys : List Expr}

theorem refl (functions : Functions) (s : Emitted) : Adds functions s [] s where
  opcodes := by simp
  offsets := by simp

theorem trans (h : Adds functions s xs middle) (h' : Adds functions middle ys final) :
    Adds functions s (xs ++ ys) final where
  opcodes := by rw [h'.opcodes, h.opcodes, List.map_append, List.append_assoc]
  offsets := by rw [h'.offsets, h.offsets, List.map_append, List.append_assoc]

end Emitted.Adds

namespace Emission

variable {α β : Type} {functions : Functions} {nesting : Nat}

/-- Inside of `nesting` nodes, a part that succeeds has met no violation and gives the result `a`,
and a part that fails with an error has met it as the first violation.  In both cases the emitted
instructions are those of the nodes completed until then.  Nothing is said about faults. -/
def Follows (functions : Functions) (part : Emission α) (nesting : Nat) (events : List Event)
    (a : α) : Prop :=
  ∀ s : Emitted, s.nesting = nesting →
    Ends part s
      (fun result final => result = a ∧ final.nesting = nesting ∧
        ∃ done, events = done.map .completed ∧ s.Adds functions done final)
      (fun failure final => ∀ error, failure = .error error →
        ∃ done rest, events = done.map .completed ++ .violation error :: rest ∧
          s.Adds functions done final)

variable {part : Emission α} {events : List Event} {a : α}

theorem follows_pure (a : α) : Follows functions (pure a) nesting [] a :=
  fun s hs => ends_pure ⟨rfl, hs, [], rfl, .refl functions s⟩

theorem follows_reject (cause : CompileCause) (offset : Int) (a : α) :
    Follows functions (reject cause offset) nesting [.violation ⟨cause, offset⟩] a := by
  intro s _
  apply ends_reject
  rintro error ⟨⟩
  exact ⟨[], [], rfl, .refl functions s⟩

theorem follows_fault (fault : CompileFault) (events : List Event) (a : α) :
    Follows functions (throw (.fault fault)) nesting events a := by
  intro s _
  apply ends_throw
  rintro error ⟨⟩

/-- The events of a part come before those of the part that goes on from its result. -/
theorem Follows.bind {rest : α → Emission β} {later : List Event} {b : β}
    (h : Follows functions part nesting events a)
    (hrest : Follows functions (rest a) nesting later b) :
    Follows functions (part >>= rest) nesting (events ++ later) b := by
  intro s hs
  apply ends_bind
  refine (h s hs).mono ?_ ?_
  · rintro _ middle ⟨rfl, hmiddle, first, rfl, hfirst⟩
    refine (hrest middle hmiddle).mono ?_ ?_
    · rintro result final ⟨hresult, hfinal, second, rfl, hsecond⟩
      exact ⟨hresult, hfinal, first ++ second, List.map_append.symm, hfirst.trans hsecond⟩
    · intro failure final hfailure error herror
      obtain ⟨second, after, rfl, hsecond⟩ := hfailure error herror
      refine ⟨first ++ second, after, ?_, hfirst.trans hsecond⟩
      rw [List.map_append, List.append_assoc]
  · intro failure final hfailure error herror
    obtain ⟨done, after, rfl, hdone⟩ := hfailure error herror
    refine ⟨done, after ++ later, ?_, hdone⟩
    rw [List.append_assoc, List.cons_append]

theorem follows_intern_bind {rest : Nat → Emission β} {value : Binary64} {b : β}
    (hrest : ∀ slot, Follows functions (rest slot) nesting events b) :
    Follows functions (intern value >>= rest) nesting events b := by
  intro s hs
  apply ends_bind
  apply ends_intern
  let interned : Emitted := { s with
    builder := { s.builder with constants := pooled s.builder.constants value } }
  refine (hrest _ interned hs).mono ?_ ?_
  · rintro result final ⟨hresult, hfinal, done, hevents, hdone⟩
    exact ⟨hresult, hfinal, done, hevents, hdone.opcodes, hdone.offsets⟩
  · intro failure final hfailure error herror
    obtain ⟨done, rest, hevents, hdone⟩ := hfailure error herror
    exact ⟨done, rest, hevents, hdone.opcodes, hdone.offsets⟩

theorem follows_last (node : Expr) {opcode : Opcode} (h : node.opcode functions = opcode)
    (operand : Option Int) (type : StaticType) :
    Follows functions (do emit opcode operand node.offset; return type) nesting
      [.completed node] type := by
  intro s hs
  apply ends_bind
  apply ends_emit_or_fault
  · rintro fault error ⟨⟩
  · intro _ _
    refine ends_pure ⟨rfl, hs, [node], rfl, ?_, ?_⟩
    · simp [h]
    · simp

theorem Follows.nested (h : Follows functions part (nesting + 1) events a) (offset : Int) :
    Follows functions (nested offset part) nesting
      ((Expr.levelViolations (nesting + 1) offset).map .violation ++ events) a := by
  rintro s rfl
  unfold Expr.levelViolations
  apply ends_nested
  · rintro hdeep error ⟨⟩
    rw [if_pos hdeep]
    exact ⟨[], events, rfl, by simp, by simp⟩
  · intro hlevel
    rw [if_neg (Nat.not_lt.mpr hlevel), List.map_nil, List.nil_append]
    refine (h { s with nesting := s.nesting + 1 } rfl).mono ?_ ?_
    · rintro result final ⟨hresult, hnesting, done, hevents, hdone⟩
      refine ⟨hresult, ?_, done, hevents, hdone.opcodes, hdone.offsets⟩
      simp only [hnesting, Nat.add_sub_cancel]
    · intro failure final hfailure error herror
      obtain ⟨done, rest, hevents, hdone⟩ := hfailure error herror
      exact ⟨done, rest, hevents, hdone.opcodes, hdone.offsets⟩

end Emission

namespace Expr

open Emission

variable {functions : Functions} {e : Expr}

/-- The compilation of an expression follows the course of its traversal. -/
def EmitFollows (functions : Functions) (e : Expr) : Prop :=
  ∀ nesting, Follows functions (e.emit functions) nesting (e.course functions (nesting + 1))
    e.staticType

theorem EmitFollows.expect (h : EmitFollows functions e) (demand : Demand) (nesting : Nat) :
    Follows functions (expect demand.type demand.cause e.offset (e.emit functions)) nesting
      (e.course functions (nesting + 1) ++ (typeViolations demand e).map .violation) () := by
  unfold Emission.expect typeViolations
  apply (h nesting).bind
  by_cases htype : e.staticType = demand.type
  · simpa [htype] using follows_pure ()
  · simpa [htype] using follows_reject demand.cause e.offset ()

theorem emitNumbers_follows
    {es : List Expr} (hes : ∀ a ∈ es, EmitFollows functions a) (cause : CompileCause)
    (nesting : Nat) :
    Follows functions (emitNumbers functions cause es) nesting
      (operandsCourse functions (nesting + 1) ⟨.number, cause⟩ es) () := by
  induction es with
  | nil =>
      rw [emitNumbers, operandsCourse]
      exact follows_pure ()
  | cons e es ih =>
      rw [emitNumbers, operandsCourse]
      apply ((hes e List.mem_cons_self).expect ⟨.number, cause⟩ nesting).bind
      exact ih fun a ha => hes a (List.mem_cons_of_mem e ha)

theorem emit_args_follows
    {f : NamedFunction} (hf : f.Consistent) {args : List Expr} {op : Opcode}
    (hop : f.opcode? args.length = some op) (hargs : ∀ a ∈ args, EmitFollows functions a)
    (nesting : Nat) :
    Follows functions
      (if f.reducer then emitArray functions f.name args
        else emitNumbers functions (.arrayOperand f.name) args) nesting
      (operandsCourse functions (nesting + 1) (.ofFunction f) args) () := by
  unfold Demand.ofFunction
  cases hreducer : f.reducer with
  | false => exact emitNumbers_follows hargs (.arrayOperand f.name) nesting
  | true =>
      obtain ⟨arg, rfl⟩ := List.length_eq_one_iff.mp (hf.reducing hreducer _ _ hop).1
      simp only [if_true, emitArray, operandsCourse, List.append_nil]
      exact (hargs arg List.mem_cons_self).expect ⟨.array, .arrayExpected f.name⟩ nesting

theorem emit_call_follows
    (hfunctions : functions.Consistent) (offset : Int) (name : String) {args : List Expr}
    (hargs : ∀ a ∈ args, EmitFollows functions a) :
    EmitFollows functions (.call offset name args) := by
  intro nesting
  rw [Expr.emit, course]
  apply Follows.nested
  unfold Demand.ofCall
  cases hname : functions.find? name with
  | none => exact follows_reject (.unknownFunction name) offset StaticType.number
  | some f =>
      cases hop : f.opcode? args.length with
      | none =>
          simp only [NamedFunction.opcodeFor, hop]
          exact follows_reject (.wrongArity f.name f.arities args.length) offset
            StaticType.number
      | some op =>
          simp only [NamedFunction.opcodeFor, hop]
          rw [← apply_ite fun part : Emission Unit => part >>= fun _ => do
            Emission.emit op none offset
            return StaticType.number]
          apply (emit_args_follows (hfunctions.of_find? hname) hop hargs (nesting + 1)).bind
          exact follows_last (.call offset name args) (opcode_call offset hname hop) none
            .number

/-- With consistent functions the compilation of an expression emits the instructions of the nodes
that the traversal completes, and fails with the first violation that the traversal meets, unless it
faults. -/
theorem emit_follows (hfunctions : functions.Consistent) (e : Expr) : EmitFollows functions e := by
  induction e using operandInduction with
  | node e ih =>
      cases e with
      | number offset value =>
          intro nesting
          rw [Expr.emit, course]
          apply Follows.nested
          apply follows_intern_bind
          intro slot
          exact follows_last (.number offset value) rfl (some slot) .number
      | array offset items =>
          intro nesting
          rw [Expr.emit, course, List.append_assoc]
          apply Follows.nested
          apply (emitNumbers_follows ih .arrayElement (nesting + 1)).bind
          exact follows_last (.array offset items) rfl (some items.length) .array
      | unary offset op operand =>
          intro nesting
          rw [Expr.emit, course, List.append_assoc]
          apply Follows.nested
          have hoperand := ih operand (by simp [operands])
          apply (hoperand.expect (.ofOperator op.sign) (nesting + 1)).bind
          exact follows_last (.unary offset op operand) rfl none .number
      | binary offset op left right =>
          intro nesting
          rw [Expr.emit, course, List.append_assoc, List.append_assoc _ _ [_]]
          apply Follows.nested
          have hleft := ih left (by simp [operands])
          have hright := ih right (by simp [operands])
          apply (hleft.expect (.ofOperator op.sign) (nesting + 1)).bind
          apply (hright.expect (.ofOperator op.sign) (nesting + 1)).bind
          exact follows_last (.binary offset op left right) rfl none .number
      | call offset name args => exact emit_call_follows hfunctions offset name ih
      | hole offset =>
          intro nesting
          rw [Expr.emit, course]
          apply Follows.nested
          exact follows_fault .hole [.completed (.hole offset)] StaticType.number

/-! ## Whole compilations -/

/-- Wherever a compilation ends, the emitted part of the program is in order and no node is open,
or one if a node was too deep. -/
theorem compileWith_keeps (functions : Functions) (e : Expr) :
    (e.compileWith functions).2.Accounted ∧
      match (e.compileWith functions).1 with
      | .ok _ => (e.compileWith functions).2.nesting = 0
      | .error failure => (e.compileWith functions).2.nesting = failure.entered := by
  have hends := emit_keeps functions e {} .empty
  unfold Emission.Ends at hends
  unfold compileWith
  generalize (e.emit functions).run.run {} = outcome at hends ⊢
  obtain ⟨failure | type, final⟩ := outcome
  · simpa using hends
  · simp only
    split
    · exact hends
    · exact hends

/-- A compilation that is refused has emitted the instructions of the nodes that the traversal
completes before the violation. -/
theorem compileWith_follows
    (hfunctions : functions.Consistent) {error : CompileError} {final : Emitted}
    (h : e.compileWith functions = (.error (.error error), final)) :
    ∃ (done : List Expr) (rest : List Event),
      e.course functions 1 = done.map .completed ++ .violation error :: rest ∧
      final.builder.instructions.map Instruction.opcode = done.map (opcode functions) ∧
      final.builder.offsets = done.map Expr.offset := by
  have hends := emit_follows hfunctions e 0 {} rfl
  unfold Emission.Ends at hends
  unfold compileWith at h
  generalize (e.emit functions).run.run {} = outcome at hends h
  obtain ⟨failure | type, emitted⟩ := outcome
  · cases h
    obtain ⟨done, rest, hcourse, hdone⟩ := hends error rfl
    exact ⟨done, rest, hcourse, hdone.opcodes, hdone.offsets⟩
  · simp only at h
    split at h <;> cases h

/-- The state of a compiler whenever it stops, whatever it was used for before.  The emitted part
of the program is in order with any functions, and no node is open, except for one exactly if a
node was too deep.  With the standard functions, if an expression is refused, it is refused for
the first of its violations, and the emitted instructions are those of the nodes that the
traversal completes before it, in post-order. -/
theorem state_after_generate :
    (∀ (functions : Functions) (e : Expr) (before : Emitted),
      let outcome := (e.generate functions).run.run before
      outcome.2.Accounted ∧ outcome.2.nesting ≤ 1 ∧
        (outcome.2.nesting = 1 ↔
          ∃ offset, outcome.1 = .error (.error ⟨.tooDeep, offset⟩))) ∧
    ∀ (e : Expr) (before : Emitted) (error : CompileError) (final : Emitted),
      (e.generate .standard).run.run before = (.error (.error error), final) →
      (e.violations .standard 1).head? = some error ∧
      ∃ (done : List Expr) (rest : List Event),
        e.course .standard 1 = done.map .completed ++ .violation error :: rest ∧
        done <+: e.postorder ∧
        final.builder.instructions.map Instruction.opcode = done.map (opcode .standard) ∧
        final.builder.offsets = done.map Expr.offset := by
  constructor
  · intro functions e before
    rw [run_generate]
    obtain ⟨haccounted, hnesting⟩ := compileWith_keeps functions e
    refine ⟨haccounted, ?_⟩
    cases hresult : (e.compileWith functions).1 with
    | ok p =>
        rw [hresult] at hnesting
        simp [hnesting]
    | error failure =>
        rw [hresult] at hnesting
        rw [hnesting]
        refine ⟨failure.entered_le_one, ?_⟩
        simp only [Except.error.injEq, CompileFailure.entered_eq_one_iff]
  · intro e before error final h
    rw [run_generate] at h
    obtain ⟨done, rest, hcourse, hdone⟩ := compileWith_follows Functions.standard_consistent h
    exact ⟨head?_violations_of_course_eq hcourse, done, rest, hcourse,
      prefix_postorder_of_course_eq hcourse, hdone⟩

/-- `len([1, 2]) + sum(3)` is refused at its `3`, after a compilation that was stopped in the middle
of an array.  By then `3` itself and everything in `len([1, 2])` have been completed. -/
theorem state_after_generate_left_operand :
    let e : Expr := .binary 12 .plus (.call 0 "len" [.array 4 [.number 5 (.ofNat 1),
      .number 8 (.ofNat 2)]]) (.call 14 "sum" [.number 18 (.ofNat 3)])
    let before := ((Expr.array 0 [.number 1 .one, .array 4 []]).compileWith .standard).2
    let final : Emitted :=
      { builder :=
          { instructions := [⟨.pushConst, some 0⟩, ⟨.pushConst, some 1⟩, ⟨.buildArray, some 2⟩,
              ⟨.reduce .len, none⟩, ⟨.pushConst, some 2⟩]
            constants := [.ofNat 1, .ofNat 2, .ofNat 3]
            offsets := [5, 8, 4, 0, 18] }
        depth := 2 }
    (e.generate .standard).run.run before = (.error (.error ⟨.arrayExpected "sum", 18⟩), final) ∧
      ∃ (done : List Expr) (rest : List Event),
        e.course .standard 1 =
          done.map .completed ++ .violation ⟨.arrayExpected "sum", 18⟩ :: rest ∧
        done <+: e.postorder ∧
        final.builder.instructions.map Instruction.opcode = done.map (opcode .standard) ∧
        final.builder.offsets = done.map Expr.offset := by
  intro e before final
  have hcompile : e.compileWith .standard =
      (.error (.error ⟨.arrayExpected "sum", 18⟩), final) := by
    decide +kernel
  have hgenerate : (e.generate .standard).run.run before =
      (.error (.error ⟨.arrayExpected "sum", 18⟩), final) :=
    (run_generate .standard e before).trans hcompile
  exact ⟨hgenerate, (state_after_generate.2 e before _ final hgenerate).2⟩

end Expr

end StackCalc
