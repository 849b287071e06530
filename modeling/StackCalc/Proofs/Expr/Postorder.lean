import Mathlib
import StackCalc.Compiler
import StackCalc.Proofs.Program.Pool

/-!
# The nodes of an expression in post-order

The post-order of an expression lists its nodes, each after its operands and the operands from
left to right.  It is the order in which the operations of the expression are carried out, and a
compiled program has one instruction for each node of the list.

The literals of the nodes, in the same order, make up the pool of the program: each word has one
slot, taken where the literal is first met.
-/

namespace StackCalc

namespace Expr

/-- The operands of a node in source order. -/
def operands : Expr → List Expr
  | .number _ _ => []
  | .array _ items => items
  | .unary _ _ operand => [operand]
  | .binary _ _ left right => [left, right]
  | .call _ _ args => args
  | .hole _ => []

theorem sizeOf_lt_of_mem_operands {a e : Expr} (h : a ∈ e.operands) : sizeOf a < sizeOf e := by
  cases e with
  | number offset value => simp [operands] at h
  | hole offset => simp [operands] at h
  | array offset items =>
      have hitems : sizeOf a < sizeOf items := List.sizeOf_lt_of_mem h
      simp only [array.sizeOf_spec]
      omega
  | unary offset op operand =>
      simp only [operands, List.mem_singleton] at h
      subst h
      simp only [unary.sizeOf_spec]
      omega
  | binary offset op left right =>
      simp only [operands, List.mem_cons, List.not_mem_nil, or_false] at h
      rcases h with rfl | rfl
      · simp only [binary.sizeOf_spec]
        omega
      · simp only [binary.sizeOf_spec]
        omega
  | call offset name args =>
      have hargs : sizeOf a < sizeOf args := List.sizeOf_lt_of_mem h
      simp only [call.sizeOf_spec]
      omega

/-- Induction over an expression that passes from the operands of a node to the node. -/
@[elab_as_elim]
theorem operandInduction
    {motive : Expr → Prop}
    (node : ∀ e, (∀ a ∈ e.operands, motive a) → motive e)
    (e : Expr) : motive e := by
  apply node
  intro a ha
  exact operandInduction node a
termination_by sizeOf e
decreasing_by exact sizeOf_lt_of_mem_operands ha

theorem areComplete_iff {es : List Expr} :
    areComplete es = true ↔ ∀ e ∈ es, e.isComplete = true := by
  induction es with
  | nil => simp [areComplete]
  | cons e es ih => rw [areComplete, Bool.and_eq_true, ih, List.forall_mem_cons]

theorem isComplete_iff {e : Expr} :
    e.isComplete = true ↔
      (∀ offset, e ≠ .hole offset) ∧ ∀ a ∈ e.operands, a.isComplete = true := by
  cases e <;> simp [isComplete, operands, areComplete_iff]

mutual

/-- The nodes of an expression, each after its operands. -/
def postorder : Expr → List Expr
  | .number offset value => [.number offset value]
  | .array offset items => postorders items ++ [.array offset items]
  | .unary offset op operand => operand.postorder ++ [.unary offset op operand]
  | .binary offset op left right =>
    left.postorder ++ right.postorder ++ [.binary offset op left right]
  | .call offset name args => postorders args ++ [.call offset name args]
  | .hole offset => [.hole offset]

/-- The nodes of expressions, one expression after the other. -/
def postorders : List Expr → List Expr
  | [] => []
  | e :: es => e.postorder ++ postorders es

end

@[simp] theorem postorders_nil : postorders [] = [] := by
  rw [postorders]

@[simp] theorem postorders_cons (e : Expr) (es : List Expr) :
    postorders (e :: es) = e.postorder ++ postorders es := by
  rw [postorders]

theorem postorders_append (es fs : List Expr) :
    postorders (es ++ fs) = postorders es ++ postorders fs := by
  induction es with
  | nil => rw [postorders_nil, List.nil_append, List.nil_append]
  | cons e es ih => rw [List.cons_append, postorders_cons, postorders_cons, ih, List.append_assoc]

/-- A node comes last, after the nodes of its operands. -/
theorem postorder_eq (e : Expr) : e.postorder = postorders e.operands ++ [e] := by
  cases e <;> simp [postorder, operands]

theorem mem_postorder_self (e : Expr) : e ∈ e.postorder := by
  rw [postorder_eq]
  exact List.mem_append_right _ (List.mem_singleton_self e)

theorem mem_postorders {e node : Expr} {es : List Expr} (he : e ∈ es)
    (hnode : node ∈ e.postorder) : node ∈ postorders es := by
  induction es with
  | nil => cases he
  | cons first rest ih =>
      rw [postorders_cons, List.mem_append]
      rcases List.mem_cons.mp he with rfl | hrest
      · exact Or.inl hnode
      · exact Or.inr (ih hrest)

theorem mem_postorder_of_operand {a e node : Expr} (ha : a ∈ e.operands)
    (hnode : node ∈ a.postorder) : node ∈ e.postorder := by
  rw [postorder_eq]
  exact List.mem_append_left _ (mem_postorders ha hnode)

theorem exists_of_mem_postorders {node : Expr} {es : List Expr} (h : node ∈ postorders es) :
    ∃ e ∈ es, node ∈ e.postorder := by
  induction es with
  | nil =>
      rw [postorders_nil] at h
      cases h
  | cons first rest ih =>
      rw [postorders_cons, List.mem_append] at h
      rcases h with hfirst | hrest
      · exact ⟨first, List.mem_cons_self, hfirst⟩
      · obtain ⟨e, he, hnode⟩ := ih hrest
        exact ⟨e, List.mem_cons_of_mem _ he, hnode⟩

theorem exists_getElem?_of_postorders
    {es : List Expr} {place : Nat} {node : Expr} (h : (postorders es)[place]? = some node) :
    ∃ before e after inside, es = before ++ e :: after ∧ e.postorder[inside]? = some node ∧
      place = (postorders before).length + inside := by
  induction es generalizing place with
  | nil =>
      rw [postorders_nil] at h
      cases h
  | cons first rest ih =>
      rw [postorders_cons] at h
      by_cases hplace : place < first.postorder.length
      · rw [List.getElem?_append_left hplace] at h
        exact ⟨[], first, rest, place, rfl, h, by simp⟩
      · rw [List.getElem?_append_right (Nat.le_of_not_lt hplace)] at h
        obtain ⟨before, e, after, inside, rfl, hnode, hinside⟩ := ih h
        refine ⟨first :: before, e, after, inside, rfl, hnode, ?_⟩
        rw [postorders_cons, List.length_append]
        omega

/-- The nodes of a node stand in front of it, without a gap. -/
theorem exists_postorder_eq
    (e : Expr) {place : Nat} {node : Expr} (h : e.postorder[place]? = some node) :
    ∃ front back, e.postorder = front ++ node.postorder ++ back ∧
      front.length + node.postorder.length = place + 1 := by
  induction e using operandInduction generalizing place with
  | node e ih =>
      rw [postorder_eq] at h
      by_cases hplace : place < (postorders e.operands).length
      · rw [List.getElem?_append_left hplace] at h
        obtain ⟨before, a, after, inside, hoperands, hnode, rfl⟩ :=
          exists_getElem?_of_postorders h
        obtain ⟨front, back, ha, hlength⟩ := ih a (by simp [hoperands]) hnode
        refine ⟨postorders before ++ front, back ++ postorders after ++ [e], ?_, ?_⟩
        · rw [postorder_eq, hoperands, postorders_append, postorders_cons, ha]
          simp only [List.append_assoc]
        · rw [List.length_append, Nat.add_assoc, hlength, Nat.add_assoc]
      · have hend : place = (postorders e.operands).length := by
          have hlt := (List.getElem?_eq_some_iff.mp h).1
          rw [List.length_append, List.length_singleton] at hlt
          omega
        rw [hend, List.getElem?_concat_length, Option.some.injEq] at h
        subst h
        refine ⟨[], [], by simp, ?_⟩
        rw [postorder_eq, List.length_append, List.length_singleton, hend, List.length_nil,
          Nat.zero_add]

theorem length_le_length_postorders (es : List Expr) : es.length ≤ (postorders es).length := by
  induction es with
  | nil => exact Nat.zero_le _
  | cons e es ih =>
      have hself := List.length_pos_of_mem (mem_postorder_self e)
      rw [postorders_cons, List.length_cons, List.length_append]
      omega

theorem length_operands_lt {e node : Expr} (h : node ∈ e.postorder) :
    node.operands.length < e.postorder.length := by
  obtain ⟨place, hplace⟩ := List.mem_iff_getElem?.mp h
  obtain ⟨front, back, hsplit, -⟩ := exists_postorder_eq e hplace
  have hoperands := length_le_length_postorders node.operands
  rw [hsplit, postorder_eq node]
  simp only [List.length_append, List.length_singleton]
  omega

/-- The opcode of a node. -/
def opcode (functions : Functions) : Expr → Opcode
  | .number _ _ => .pushConst
  | .array _ _ => .buildArray
  | .unary _ op _ => op.opcode
  | .binary _ op _ _ => op.opcode
  | .call _ name args =>
    ((functions.find? name).bind fun f => f.opcode? args.length).getD (.unassigned 0)
  | .hole _ => .unassigned 0

/-- The operand of the instruction of a node: the slot of a literal, the number of items of an
array. -/
def operand? (pool : List Binary64) : Expr → Option Int
  | .number _ value => some (pool.idxOf value)
  | .array _ items => some items.length
  | _ => none

/-- The instruction of a node in a program with a given pool. -/
def instruction (functions : Functions) (pool : List Binary64) (e : Expr) : Instruction :=
  ⟨e.opcode functions, e.operand? pool⟩

/-- The literal of a node. -/
def literal? : Expr → Option Binary64
  | .number _ value => some value
  | _ => none

end Expr

/-! ## Pools -/

/-- A pool in which the literals of nodes have slots. -/
def poolAll (pool : List Binary64) (nodes : List Expr) : List Binary64 :=
  (nodes.filterMap Expr.literal?).foldl pooled pool

theorem poolAll_append (pool : List Binary64) (xs ys : List Expr) :
    poolAll pool (xs ++ ys) = poolAll (poolAll pool xs) ys := by
  simp [poolAll]

theorem prefix_poolAll (pool : List Binary64) (nodes : List Expr) :
    pool <+: poolAll pool nodes :=
  prefix_foldl_pooled pool _

theorem literal_mem_poolAll
    {nodes : List Expr} {e : Expr} {value : Binary64}
    (he : e ∈ nodes) (hvalue : e.literal? = some value) (pool : List Binary64) :
    value ∈ poolAll pool nodes :=
  mem_foldl_pooled (List.mem_filterMap.mpr ⟨e, he, hvalue⟩) pool

/-- Instructions of nodes whose literals have slots stay the same when the pool grows. -/
theorem map_instruction_eq_of_prefix
    (functions : Functions) {pool longer : List Binary64} (h : pool <+: longer)
    {nodes : List Expr}
    (hnodes : ∀ e ∈ nodes, ∀ value, e.literal? = some value → value ∈ pool) :
    nodes.map (Expr.instruction functions longer) =
      nodes.map (Expr.instruction functions pool) := by
  apply List.map_congr_left
  intro e he
  cases e with
  | number offset value =>
      have hslot := idxOf_eq_of_prefix h (hnodes _ he value rfl)
      simp [Expr.instruction, Expr.operand?, hslot]
  | _ => rfl

end StackCalc
