import Mathlib
import StackCalc.Proofs.Expr.Typing

/-!
# Violations

What is wrong with an expression, as a list in the order in which a traversal from left to right
meets it.  The level of a node is checked when the node is entered; of a call the name is checked
next, and then the number of its arguments.  The type of an operand is checked after everything
inside the operand and before the next one is entered.

The list is empty for the typed expressions within the limit of depth, and among the expressions
without holes for no others.
-/

namespace StackCalc

/-- What a node demands of each of its operands: the type, and the cause to report if it is
another one. -/
structure Demand where
  type : StaticType
  cause : CompileCause

namespace Demand

def ofOperator (sign : String) : Demand := ⟨.number, .arrayOperand (operatorContext sign)⟩

def ofFunction (f : NamedFunction) : Demand :=
  if f.reducer then ⟨.array, .arrayExpected f.name⟩ else ⟨.number, .arrayOperand f.name⟩

/-- What a call demands of its arguments, unless it is itself refused. -/
def ofCall (functions : Functions) (offset : Int) (name : String) (supplied : Nat) :
    Except CompileError Demand :=
  match functions.find? name with
  | none => .error ⟨.unknownFunction name, offset⟩
  | some f =>
    match f.opcode? supplied with
    | none => .error ⟨.wrongArity f.name f.arities supplied, offset⟩
    | some _ => .ok (ofFunction f)

end Demand

namespace Expr

/-- The type that a node gives to its value, whatever its operands are. -/
def staticType : Expr → StaticType
  | .array _ _ => .array
  | _ => .number

def levelViolations (level : Nat) (offset : Int) : List CompileError :=
  if maxTreeDepth < level then [⟨.tooDeep, offset⟩] else []

def typeViolations (demand : Demand) (operand : Expr) : List CompileError :=
  if operand.staticType = demand.type then [] else [⟨demand.cause, operand.offset⟩]

mutual

/-- What is wrong with an expression at a level; one that is not part of another is at the level
one. -/
def violations (functions : Functions) (level : Nat) : Expr → List CompileError
  | .number offset _ => levelViolations level offset
  | .array offset items =>
    levelViolations level offset ++
      operandViolations functions (level + 1) ⟨.number, .arrayElement⟩ items
  | .unary offset op operand =>
    levelViolations level offset ++
      (operand.violations functions (level + 1) ++ typeViolations (.ofOperator op.sign) operand)
  | .binary offset op left right =>
    levelViolations level offset ++
      (left.violations functions (level + 1) ++ typeViolations (.ofOperator op.sign) left ++
        (right.violations functions (level + 1) ++ typeViolations (.ofOperator op.sign) right))
  | .call offset name args =>
    levelViolations level offset ++
      match Demand.ofCall functions offset name args.length with
      | .error violation => [violation]
      | .ok demand => operandViolations functions (level + 1) demand args
  | .hole offset => levelViolations level offset

/-- What is wrong with operands that have to meet a demand. -/
def operandViolations (functions : Functions) (level : Nat) (demand : Demand) :
    List Expr → List CompileError
  | [] => []
  | e :: es =>
    e.violations functions level ++ typeViolations demand e ++
      operandViolations functions level demand es

end

variable {functions : Functions} {level : Nat} {demand : Demand} {e : Expr}

/-! ## No violations -/

theorem levelViolations_eq_nil_iff {offset : Int} :
    levelViolations level offset = [] ↔ level ≤ maxTreeDepth := by
  unfold levelViolations
  split <;> simp <;> omega

theorem operandViolations_eq_nil_iff {es : List Expr} :
    operandViolations functions level demand es = [] ↔
      ∀ a ∈ es, a.violations functions level = [] ∧ a.staticType = demand.type := by
  induction es with
  | nil => simp [operandViolations]
  | cons e es ih =>
      rw [operandViolations, List.append_eq_nil_iff, List.append_eq_nil_iff, ih,
        List.forall_mem_cons]
      simp [typeViolations]

theorem HasType.staticType_eq {type : StaticType} (h : e.HasType functions type) :
    e.staticType = type := by
  cases h <;> rfl

theorem height_le_iff :
    level + e.height ≤ maxTreeDepth ↔
      level + 1 ≤ maxTreeDepth ∧ ∀ a ∈ e.operands, level + 1 + a.height ≤ maxTreeDepth := by
  constructor
  · intro h
    have hpos := height_pos e
    refine ⟨by omega, fun a ha => ?_⟩
    have hlt := height_lt_of_operand ha
    omega
  · rintro ⟨hlevel, hoperands⟩
    have hheight : e.height ≤ heights e.operands + 1 := by
      cases e <;> simp [height, heights, operands]
    have hbound : heights e.operands ≤ maxTreeDepth - (level + 1) :=
      heights_le fun a ha => Nat.le_sub_of_add_le' (hoperands a ha)
    omega

/-- A node that makes the same demand of all its operands, when the operands are as they should
be. -/
theorem violations_eq_nil_iff_of_operands
    (demand : Demand)
    (hviolations : e.violations functions (level + 1) = levelViolations (level + 1) e.offset ++
      operandViolations functions (level + 2) demand e.operands)
    (htype : e.HasType functions e.staticType ↔ ∀ a ∈ e.operands, a.HasType functions demand.type)
    (hoperands : ∀ a ∈ e.operands, a.violations functions (level + 2) = [] ↔
      a.HasType functions a.staticType ∧ level + 1 + a.height ≤ maxTreeDepth) :
    e.violations functions (level + 1) = [] ↔
      e.HasType functions e.staticType ∧ level + e.height ≤ maxTreeDepth := by
  rw [hviolations, List.append_eq_nil_iff, levelViolations_eq_nil_iff,
    operandViolations_eq_nil_iff, htype, height_le_iff]
  constructor
  · rintro ⟨hlevel, hall⟩
    refine ⟨fun a ha => ?_, hlevel, fun a ha => ((hoperands a ha).mp (hall a ha).1).2⟩
    rw [← (hall a ha).2]
    exact ((hoperands a ha).mp (hall a ha).1).1
  · rintro ⟨htypes, hlevel, hheights⟩
    refine ⟨hlevel, fun a ha => ?_⟩
    have hstatic := (htypes a ha).staticType_eq
    exact ⟨(hoperands a ha).mpr ⟨hstatic ▸ htypes a ha, hheights a ha⟩, hstatic⟩

theorem hasType_array_iff {offset : Int} {items : List Expr} :
    (Expr.array offset items).HasType functions .array ↔
      ∀ a ∈ items, a.HasType functions .number := by
  constructor
  · rintro (_ | h)
    exact h
  · exact .array

theorem hasType_unary_iff {offset : Int} {op : UnaryOperator} {operand : Expr} :
    (Expr.unary offset op operand).HasType functions .number ↔
      operand.HasType functions .number := by
  constructor
  · rintro (_ | _ | h)
    exact h
  · exact .unary

theorem hasType_binary_iff {offset : Int} {op : BinaryOperator} {left right : Expr} :
    (Expr.binary offset op left right).HasType functions .number ↔
      left.HasType functions .number ∧ right.HasType functions .number := by
  constructor
  · rintro (_ | _ | _ | ⟨hleft, hright⟩)
    exact ⟨hleft, hright⟩
  · rintro ⟨hleft, hright⟩
    exact .binary hleft hright

/-- A call is typed if it is one of a known function for that number of arguments, and if its
arguments have the type that the function demands. -/
theorem hasType_call_iff
    (hfunctions : functions.Consistent) (offset : Int) (name : String) (args : List Expr) :
    (Expr.call offset name args).HasType functions .number ↔
      ∃ demand, Demand.ofCall functions offset name args.length = .ok demand ∧
        ∀ a ∈ args, a.HasType functions demand.type := by
  unfold Demand.ofCall
  constructor
  · intro h
    cases h with
    | scalarCall hname hscalar hop hargs =>
        refine ⟨_, by simp only [hname, hop]; rfl, ?_⟩
        simpa [Demand.ofFunction, hscalar] using hargs
    | @reducerCall _ _ arg f op hname hreducer hop harg =>
        have hop' : f.opcode? [arg].length = some op := hop
        refine ⟨_, by simp only [hname, hop']; rfl, ?_⟩
        simpa [Demand.ofFunction, hreducer] using harg
  · rintro ⟨demand, hdemand, hargs⟩
    cases hname : functions.find? name with
    | none => simp [hname] at hdemand
    | some f =>
        cases hop : f.opcode? args.length with
        | none => simp [hname, hop] at hdemand
        | some op =>
            simp only [hname, hop, Except.ok.injEq] at hdemand
            subst hdemand
            cases hreducer : f.reducer with
            | false =>
                rw [Demand.ofFunction, hreducer] at hargs
                exact .scalarCall hname hreducer hop hargs
            | true =>
                rw [Demand.ofFunction, hreducer] at hargs
                have hlength := ((hfunctions.of_find? hname).reducing hreducer _ _ hop).1
                obtain ⟨arg, rfl⟩ := List.length_eq_one_iff.mp hlength
                exact .reducerCall hname hreducer hop (hargs arg List.mem_cons_self)

/-- An expression without holes has no violations if it is typed and within the limit of depth, and
only then. -/
theorem violations_eq_nil_iff
    (hfunctions : functions.Consistent) (hcomplete : e.isComplete = true) :
    e.violations functions (level + 1) = [] ↔
      e.HasType functions e.staticType ∧ level + e.height ≤ maxTreeDepth := by
  induction e using operandInduction generalizing level with
  | node e ih =>
      have hoperands := fun a ha =>
        @ih a ha (level + 1) ((isComplete_iff.mp hcomplete).2 a ha)
      cases e with
      | number offset value =>
          rw [violations, levelViolations_eq_nil_iff, height]
          simp [staticType, HasType.number]
      | array offset items =>
          refine violations_eq_nil_iff_of_operands ⟨.number, .arrayElement⟩ ?_ hasType_array_iff
            hoperands
          rw [violations]
          rfl
      | unary offset op operand =>
          refine violations_eq_nil_iff_of_operands (.ofOperator op.sign) ?_ ?_ hoperands
          · simp [violations, operands, operandViolations, Expr.offset]
          · rw [operands, List.forall_mem_singleton]
            exact hasType_unary_iff
      | binary offset op left right =>
          refine violations_eq_nil_iff_of_operands (.ofOperator op.sign) ?_ ?_ hoperands
          · simp [violations, operands, operandViolations, Expr.offset]
          · rw [operands, List.forall_mem_cons, List.forall_mem_singleton]
            exact hasType_binary_iff
      | call offset name args =>
          have htype := hasType_call_iff hfunctions offset name args
          cases hdemand : Demand.ofCall functions offset name args.length with
          | error violation =>
              simp only [hdemand] at htype
              rw [violations, hdemand]
              simp [staticType, htype]
          | ok demand =>
              simp only [hdemand, Except.ok.injEq, exists_eq_left'] at htype
              refine violations_eq_nil_iff_of_operands demand ?_ htype hoperands
              rw [violations, hdemand]
              rfl
      | hole offset =>
          rw [isComplete] at hcomplete
          cases hcomplete

/-! ## Places -/

theorem offset_of_ofCall {offset : Int} {name : String} {supplied : Nat} {violation : CompileError}
    (h : Demand.ofCall functions offset name supplied = .error violation) :
    violation.offset = offset := by
  unfold Demand.ofCall at h
  split at h
  · cases h
    rfl
  · split at h
    · cases h
      rfl
    · cases h

theorem violations_cases (functions : Functions) (level : Nat) (e : Expr) :
    (∃ demand, e.violations functions level = levelViolations level e.offset ++
      operandViolations functions (level + 1) demand e.operands) ∨
    ∃ violation, violation.offset = e.offset ∧
      e.violations functions level = levelViolations level e.offset ++ [violation] := by
  cases e with
  | number offset value =>
      refine Or.inl ⟨⟨.number, .arrayElement⟩, ?_⟩
      simp [violations, operands, operandViolations, Expr.offset]
  | array offset items =>
      refine Or.inl ⟨⟨.number, .arrayElement⟩, ?_⟩
      simp [violations, operands, Expr.offset]
  | unary offset op operand =>
      refine Or.inl ⟨.ofOperator op.sign, ?_⟩
      simp [violations, operands, operandViolations, Expr.offset]
  | binary offset op left right =>
      refine Or.inl ⟨.ofOperator op.sign, ?_⟩
      simp [violations, operands, operandViolations, Expr.offset]
  | call offset name args =>
      rw [violations]
      cases hdemand : Demand.ofCall functions offset name args.length with
      | error violation => exact Or.inr ⟨violation, offset_of_ofCall hdemand, rfl⟩
      | ok demand => exact Or.inl ⟨demand, rfl⟩
  | hole offset =>
      refine Or.inl ⟨⟨.number, .arrayElement⟩, ?_⟩
      simp [violations, operands, operandViolations, Expr.offset]

theorem exists_of_mem_operandViolations {violation : CompileError} {es : List Expr}
    (h : violation ∈ operandViolations functions level demand es) :
    ∃ a ∈ es, violation ∈ a.violations functions level ∨ violation.offset = a.offset := by
  induction es with
  | nil => cases h
  | cons e es ih =>
      rw [operandViolations, List.mem_append, List.mem_append] at h
      rcases h with (hinside | htype) | hrest
      · exact ⟨e, List.mem_cons_self, Or.inl hinside⟩
      · refine ⟨e, List.mem_cons_self, Or.inr ?_⟩
        unfold typeViolations at htype
        split at htype
        · cases htype
        · rw [List.mem_singleton.mp htype]
      · obtain ⟨a, ha, hviolation⟩ := ih hrest
        exact ⟨a, List.mem_cons_of_mem e ha, hviolation⟩

theorem exists_node_of_mem_violations {violation : CompileError}
    (h : violation ∈ e.violations functions level) :
    ∃ node ∈ e.postorder, node.offset = violation.offset := by
  induction e using operandInduction generalizing level with
  | node e ih =>
      have hlevel : ∀ violation ∈ levelViolations level e.offset, violation.offset = e.offset := by
        intro violation hmem
        unfold levelViolations at hmem
        split at hmem
        · rw [List.mem_singleton.mp hmem]
        · cases hmem
      rcases violations_cases functions level e with ⟨demand, heq⟩ | ⟨own, hown, heq⟩
      · rw [heq, List.mem_append] at h
        rcases h with hself | hoperand
        · exact ⟨e, mem_postorder_self e, (hlevel _ hself).symm⟩
        · obtain ⟨a, ha, hinside | htype⟩ := exists_of_mem_operandViolations hoperand
          · obtain ⟨node, hnode, hoffset⟩ := ih a ha hinside
            exact ⟨node, mem_postorder_of_operand ha hnode, hoffset⟩
          · exact ⟨a, mem_postorder_of_operand ha (mem_postorder_self a), htype.symm⟩
      · rw [heq, List.mem_append, List.mem_singleton] at h
        rcases h with hself | rfl
        · exact ⟨e, mem_postorder_self e, (hlevel _ hself).symm⟩
        · exact ⟨e, mem_postorder_self e, hown.symm⟩

end Expr

end StackCalc
