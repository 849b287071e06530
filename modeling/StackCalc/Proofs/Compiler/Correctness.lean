import Mathlib
import StackCalc.Proofs.Compiler.Emission
import StackCalc.Proofs.Expr.Evaluation
import StackCalc.Proofs.Machine.Execution

/-!
# Correctness of the compiler

The code of an expression, executed on any stack, pushes the value of the expression.  If the
expression has no value, the code fails at the instruction of the first node in post-order whose
operation has no result, and for the same reason.

The main result, `Expr.run_compile`, is this statement for the program of a whole expression.
-/

namespace StackCalc

namespace Expr

/-! ## Results on the stack -/

theorem popNumbers_reverse (xs items : List Binary64) (stack : Stack) :
    Stack.popNumbers items xs.length ((xs.map Value.number).reverse ++ stack) =
      .ok (xs ++ items, stack) := by
  induction xs using List.reverseRecOn generalizing items with
  | nil => rfl
  | append_singleton xs x ih =>
      rw [List.length_append, List.length_singleton, List.map_append, List.reverse_append,
        List.append_assoc]
      simp only [List.map_cons, List.map_nil, List.reverse_singleton, List.singleton_append]
      rw [Stack.popNumbers]
      change Stack.popNumbers (x :: items) xs.length _ = _
      rw [ih, List.append_assoc, List.singleton_append]

/-- The stack after an operation whose result is known. -/
def Pushes (stack : Stack) (outcome : Evaluated Value) (after : StepOutcome Stack) : Prop :=
  (∃ v, outcome = .ok v ∧ after = .ok (v :: stack)) ∨
    ∃ cause, outcome = .error (.noResult cause) ∧ after = .error (.error cause)

theorem pushes_pushResult (stack : Stack) (outcome : Outcome Binary64) :
    Pushes stack (Outcome.value outcome) (stack.pushResult outcome) := by
  cases outcome with
  | ok x => exact Or.inl ⟨.number x, rfl, rfl⟩
  | error cause => exact Or.inr ⟨cause, rfl, rfl⟩

/-! ## The first failure -/

variable [Library]

/-- The first of some nodes that has no value: the operation of this node has no result for the
values of its operands, and all nodes before it have values. -/
structure FirstFailure (functions : Functions) (nodes : List Expr) (place : Nat) (node : Expr)
    (cause : OperationError) : Prop where
  node_at : nodes[place]? = some node
  operands_ok : ∃ vs, values functions node.operands = .ok vs
  node_error : node.value functions = .error (.noResult cause)
  earlier_ok : ∀ e ∈ nodes.take place, ∃ v, e.value functions = .ok v

variable {functions : Functions}

namespace FirstFailure

variable {xs : List Expr} {place : Nat} {node : Expr} {cause : OperationError}

theorem append_right
    (h : FirstFailure functions xs place node cause) (ys : List Expr) :
    FirstFailure functions (xs ++ ys) place node cause where
  node_at := by
    rw [List.getElem?_append_left (List.getElem?_eq_some_iff.mp h.node_at).1]
    exact h.node_at
  operands_ok := h.operands_ok
  node_error := h.node_error
  earlier_ok := by
    have hlt := (List.getElem?_eq_some_iff.mp h.node_at).1
    rw [List.take_append_of_le_length (Nat.le_of_lt hlt)]
    exact h.earlier_ok

theorem append_left
    {ys : List Expr} (hys : ∀ e ∈ ys, ∃ v, e.value functions = .ok v)
    (h : FirstFailure functions xs place node cause) :
    FirstFailure functions (ys ++ xs) (ys.length + place) node cause where
  node_at := by
    rw [List.getElem?_append_right (Nat.le_add_right _ _), Nat.add_sub_cancel_left]
    exact h.node_at
  operands_ok := h.operands_ok
  node_error := h.node_error
  earlier_ok := by
    rw [List.take_length_add_append]
    intro e he
    rcases List.mem_append.mp he with hfirst | hrest
    · exact hys e hfirst
    · exact h.earlier_ok e hrest

end FirstFailure

theorem value_of_mem_postorders
    {es : List Expr}
    (hes : ∀ e ∈ es, ∀ v, e.value functions = .ok v →
      ∀ node ∈ e.postorder, ∃ w, node.value functions = .ok w)
    {vs : List Value} (h : values functions es = .ok vs) :
    ∀ node ∈ postorders es, ∃ w, node.value functions = .ok w := by
  have hpairs := values_eq_ok_iff.mp h
  clear h
  induction hpairs with
  | nil =>
      intro node hnode
      rw [postorders_nil] at hnode
      cases hnode
  | @cons e v es vs hev _ ih =>
      intro node hnode
      rw [postorders_cons, List.mem_append] at hnode
      rcases hnode with hfirst | hrest
      · exact hes e List.mem_cons_self v hev node hfirst
      · exact ih (fun a ha => hes a (List.mem_cons_of_mem _ ha)) node hrest

theorem value_of_mem_postorder
    (e : Expr) (v : Value) (h : e.value functions = .ok v) :
    ∀ node ∈ e.postorder, ∃ w, node.value functions = .ok w := by
  induction e using operandInduction generalizing v with
  | node e ih =>
      intro node hnode
      rw [postorder_eq, List.mem_append, List.mem_singleton] at hnode
      rcases hnode with hnode | rfl
      · cases hvs : values functions e.operands with
        | ok vs => exact value_of_mem_postorders ih hvs node hnode
        | error failure =>
            rw [value_of_values_error hvs] at h
            cases h
      · exact ⟨v, h⟩

/-! ## One instruction -/

/-- The instruction of a node replaces the values of its operands, of which the last is on top, by
the result of the node. -/
theorem Fits.step
    {e : Expr} {vs : List Value} (h : Fits functions e vs) {pool : List Binary64}
    (hpool : ∀ value, e.literal? = some value → value ∈ pool) (stack : Stack) :
    Pushes stack (e.result functions vs)
      ((e.instruction functions pool).step pool (vs.reverse ++ stack)) := by
  cases h with
  | number offset x =>
      have hslot : pool.idxOf x < pool.length := List.idxOf_lt_length_of_mem (hpool x rfl)
      have hfound : constantAt? pool (some (pool.idxOf x : Int)) = some x := by
        rw [constantAt?_natCast, List.getElem?_eq_getElem hslot, List.getElem_idxOf hslot]
      refine Or.inl ⟨.number x, rfl, ?_⟩
      simp [instruction, opcode, operand?, Instruction.step, hfound]
  | array offset es items hlength =>
      refine Or.inl ⟨.array items, ?_, ?_⟩
      · simp [result, opcode, Opcode.result, numbers?_map_number]
      · have hcount : ¬ ((((items.map Value.number).reverse ++ stack).length : Int) <
            (es.length : Int)) := by
          simp [hlength]
        have hpop := popNumbers_reverse items [] stack
        rw [List.append_nil, ← hlength] at hpop
        simp only [instruction, opcode, operand?, Instruction.step, Option.getD_some,
          if_neg hcount, Int.toNat_natCast, hpop]
        rfl
  | @unary _ op a hop =>
      have hresult : e.result functions [.number a] = Outcome.value (op.apply a) := by
        cases e <;> simp_all [result, opcode, Opcode.result]
      rw [hresult]
      simp only [instruction, hop]
      exact pushes_pushResult stack (op.apply a)
  | @binary _ op a b hop =>
      have hresult : e.result functions [.number a, .number b] =
          Outcome.value (op.apply a b) := by
        cases e <;> simp_all [result, opcode, Opcode.result]
      rw [hresult]
      simp only [instruction, hop]
      exact pushes_pushResult stack (op.apply a b)
  | @reduce _ op items hop =>
      have hresult : e.result functions [.array items] = Outcome.value (op.apply items) := by
        cases e <;> simp_all [result, opcode, Opcode.result]
      rw [hresult]
      simp only [instruction, hop]
      exact pushes_pushResult stack (op.apply items)

/-! ## The code of expressions -/

/-- The code of some nodes, executed on any stack with a given pool, pushes the values of an
outcome in their order, or fails where the first of the nodes fails. -/
def Executes (functions : Functions) (pool : List Binary64) (nodes : List Expr) :
    Evaluated (List Value) → Prop
  | .ok vs => ∀ stack,
    execute pool stack (nodes.map (instruction functions pool)) = .ok (vs.reverse ++ stack)
  | .error failure => ∃ place node cause,
    FirstFailure functions nodes place node cause ∧ failure = .noResult cause ∧
      ∀ stack, execute pool stack (nodes.map (instruction functions pool)) =
        .error ⟨place, node.instruction functions pool, .error cause⟩

variable {pool : List Binary64}

theorem executes_append
    {xs ys : List Expr} {vs ws : List Value}
    (hxs : Executes functions pool xs (.ok vs)) (hys : Executes functions pool ys (.ok ws)) :
    Executes functions pool (xs ++ ys) (.ok (vs ++ ws)) := by
  intro stack
  rw [List.map_append, execute_append_ok (hxs stack), hys, List.reverse_append, List.append_assoc]
  rfl

theorem executes_append_error
    {xs ys : List Expr} {vs : List Value} {failure : NodeFailure}
    (hxs : Executes functions pool xs (.ok vs))
    (hvalues : ∀ e ∈ xs, ∃ v, e.value functions = .ok v)
    (hys : Executes functions pool ys (.error failure)) :
    Executes functions pool (xs ++ ys) (.error failure) := by
  obtain ⟨place, node, cause, hfirst, hfailure, hexecute⟩ := hys
  refine ⟨xs.length + place, node, cause, hfirst.append_left hvalues, hfailure, ?_⟩
  intro stack
  rw [List.map_append, execute_append_ok (hxs stack), hexecute, List.length_map]
  rfl

theorem executes_error_append
    {xs : List Expr} {failure : NodeFailure} (hxs : Executes functions pool xs (.error failure))
    (ys : List Expr) :
    Executes functions pool (xs ++ ys) (.error failure) := by
  obtain ⟨place, node, cause, hfirst, hfailure, hexecute⟩ := hxs
  refine ⟨place, node, cause, hfirst.append_right ys, hfailure, ?_⟩
  intro stack
  rw [List.map_append, execute_append_error (hexecute stack)]

theorem executes_postorders
    {es : List Expr}
    (hes : ∀ e ∈ es, Executes functions pool e.postorder ((e.value functions).map ([·]))) :
    Executes functions pool (postorders es) (values functions es) := by
  induction es with
  | nil =>
      rw [values_nil, postorders_nil]
      intro stack
      rfl
  | cons e es ih =>
      have hfirst := hes e List.mem_cons_self
      have hrest := ih fun a ha => hes a (List.mem_cons_of_mem _ ha)
      rw [postorders_cons]
      cases hv : e.value functions with
      | error failure =>
          rw [hv] at hfirst
          rw [values_cons_error hv]
          exact executes_error_append hfirst _
      | ok v =>
          rw [hv] at hfirst
          rw [values_cons_ok hv]
          cases hvs : values functions es with
          | error failure =>
              rw [hvs] at hrest
              exact executes_append_error hfirst (value_of_mem_postorder e v hv) hrest
          | ok vs =>
              rw [hvs] at hrest
              exact executes_append hfirst hrest

/-- The code of a typed expression pushes its value, or fails where the expression fails. -/
theorem executes_postorder
    (hfunctions : functions.Consistent) (e : Expr)
    {type : StaticType} (htype : e.HasType functions type)
    (hpool : ∀ node ∈ e.postorder, ∀ value, node.literal? = some value → value ∈ pool) :
    Executes functions pool e.postorder ((e.value functions).map ([·])) := by
  induction e using operandInduction generalizing type with
  | node e ih =>
      have hoperands : Executes functions pool (postorders e.operands)
          (values functions e.operands) := by
        apply executes_postorders
        intro a ha
        obtain ⟨operandType, hoperand⟩ := htype.operand ha
        apply ih a ha hoperand
        intro node hnode
        exact hpool node (mem_postorder_of_operand ha hnode)
      have hself : ∀ value, e.literal? = some value → value ∈ pool :=
        hpool e (mem_postorder_self e)
      rw [postorder_eq]
      cases hvs : values functions e.operands with
      | error failure =>
          rw [hvs] at hoperands
          rw [value_of_values_error hvs]
          exact executes_error_append hoperands [e]
      | ok vs =>
          rw [hvs] at hoperands
          have hearlier := value_of_mem_postorders
            (fun a _ v hv => value_of_mem_postorder a v hv) hvs
          have hstep := (htype.fits hfunctions hvs).step hself
          rw [value_of_values_ok hvs]
          cases hresult : e.result functions vs with
          | ok v =>
              intro stack
              have hlast := hstep stack
              rw [hresult] at hlast
              obtain ⟨w, hw, hafter⟩ | ⟨cause, hcause, -⟩ := hlast
              · cases hw
                rw [List.map_append, execute_append_ok (hoperands stack), List.map_singleton,
                  execute_cons_ok hafter]
                rfl
              · cases hcause
          | error failure =>
              obtain ⟨w, hw, -⟩ | ⟨cause, hcause, -⟩ := hresult ▸ hstep []
              · cases hw
              · cases hcause
                have hfirst : FirstFailure functions [e] 0 e cause :=
                  { node_at := rfl
                    operands_ok := ⟨vs, hvs⟩
                    node_error := by rw [value_of_values_ok hvs, hresult]
                    earlier_ok := by
                      intro a ha
                      cases ha }
                refine ⟨(postorders e.operands).length + 0, e, cause,
                  hfirst.append_left hearlier, rfl, ?_⟩
                intro stack
                have hlast := hstep stack
                rw [hresult] at hlast
                obtain ⟨w, hw, -⟩ | ⟨cause', hcause', hafter⟩ := hlast
                · cases hw
                · cases hcause'
                  rw [List.map_append, execute_append_ok (hoperands stack), List.map_singleton,
                    execute_cons_error hafter, List.length_map]
                  rfl

/-! ## Compiled programs -/

/-- The run of a compiled program gives the value of the expression.  If there is none, it fails
with the reason of the first failing node, at the place of this node in the post-order. -/
theorem run_compileWith
    {functions : Functions} (hfunctions : functions.Consistent) {e : Expr} {p : Program}
    (h : (e.compileWith functions).1 = .ok p) (verbose : Bool) :
    match e.value functions with
    | .ok v => (p.run verbose).result = .ok v
    | .error _ => ∃ place node cause, FirstFailure functions e.postorder place node cause ∧
      (p.run verbose).result =
        .error (.error ⟨cause, node.opcode functions, place, some node.offset⟩) := by
  obtain ⟨type, htype, hconstants, hinstructions, hoffsets⟩ := compileWith_eq_ok hfunctions h
  have hpool : ∀ node ∈ e.postorder, ∀ value, node.literal? = some value →
      value ∈ p.constants := by
    intro node hnode value hvalue
    rw [hconstants]
    exact literal_mem_poolAll hnode hvalue []
  have hexecutes := executes_postorder hfunctions e htype hpool
  have hresult : (p.run verbose).result = _ :=
    runFrom_result verbose p.constants p.offsets 0 [] p.instructions
  rw [hinstructions] at hresult
  cases hvalue : e.value functions with
  | ok v =>
      rw [hvalue] at hexecutes
      rw [hexecutes []] at hresult
      exact hresult
  | error failure =>
      rw [hvalue] at hexecutes
      obtain ⟨place, node, cause, hfirst, -, hexecute⟩ := hexecutes
      refine ⟨place, node, cause, hfirst, ?_⟩
      rw [hexecute []] at hresult
      have hoffset : p.offsets[place]? = some node.offset := by
        rw [hoffsets, List.getElem?_map, hfirst.node_at]
        rfl
      rw [hresult]
      simp [FailedStep.toRunFailure, StepFailure.toRunFailure, instruction, hoffset]

/-- The compiler is correct: a program compiled with the standard functions runs as the direct
evaluation of its expression does. -/
theorem run_compile
    {e : Expr} {p : Program} (h : e.compile = .ok p) (verbose : Bool) :
    match e.value .standard with
    | .ok v => (p.run verbose).result = .ok v
    | .error _ => ∃ place node cause, FirstFailure .standard e.postorder place node cause ∧
      (p.run verbose).result =
        .error (.error ⟨cause, node.opcode .standard, place, some node.offset⟩) :=
  run_compileWith Functions.standard_consistent h verbose

end Expr

/-- In `(1 - 1) / avg([])` the mean fails, while the difference waits on the stack. -/
theorem Expr.run_compile_mean_of_nothing :
    let e : Expr := .binary 8 .over
      (.binary 3 .minus (.number 1 .one) (.number 5 .one)) (.call 10 "avg" [.array 14 []])
    let p : Program :=
      ⟨[⟨.pushConst, some 0⟩, ⟨.pushConst, some 0⟩, ⟨.binary .sub, none⟩, ⟨.buildArray, some 0⟩,
        ⟨.reduce .avg, none⟩, ⟨.binary .div, none⟩], [.one], [1, 5, 3, 14, 10, 8]⟩
    e.compile = .ok p ∧
      ∃ place node cause, Expr.FirstFailure .standard e.postorder place node cause ∧
        p.run.result =
          .error (.error ⟨cause, node.opcode .standard, place, some node.offset⟩) := by
  intro e p
  have hcompile : e.compile = .ok p := by decide +kernel
  have hvalue : e.value .standard = .error (.noResult (.emptyArray "avg")) := by decide +kernel
  have hrun := Expr.run_compile hcompile false
  rw [hvalue] at hrun
  exact ⟨hcompile, hrun⟩

end StackCalc
