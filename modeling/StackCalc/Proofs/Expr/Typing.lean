import Mathlib
import StackCalc.Proofs.Expr.Postorder

/-!
# Typed expressions

An expression is a number or an array.  Literals are numbers, the items of an array and the
operands of operators have to be numbers, and a call follows the kind of its function: a reducer
takes one array, any other function as many numbers as one of its opcodes.

The rules ask nothing of the opcodes themselves.  A table of functions is consistent if its
opcodes fit the kinds of its functions, and the standard table is.
-/

namespace StackCalc

/-! ## Consistent tables -/

theorem mem_of_lookup_eq_some
    {α β : Type} [BEq α] [LawfulBEq α] {entries : List (α × β)} {key : α} {value : β}
    (h : entries.lookup key = some value) : (key, value) ∈ entries := by
  obtain ⟨front, back, rfl, -⟩ := List.lookup_eq_some_iff.mp h
  simp

/-- A function whose opcodes fit its kind and the numbers of arguments they are for. -/
structure NamedFunction.Consistent (f : NamedFunction) : Prop where
  /-- A function of numbers has operations on one and on two numbers only. -/
  scalar : f.reducer = false → ∀ supplied opcode, f.opcode? supplied = some opcode →
    (supplied = 1 ∧ ∃ op, opcode = .unary op) ∨ (supplied = 2 ∧ ∃ op, opcode = .binary op)
  /-- A reducer takes one argument and reduces it. -/
  reducing : f.reducer = true → ∀ supplied opcode, f.opcode? supplied = some opcode →
    supplied = 1 ∧ ∃ op, opcode = .reduce op

namespace Functions

/-- Every function that a name stands for is consistent. -/
def Consistent (functions : Functions) : Prop :=
  ∀ entry ∈ functions.entries, entry.2.Consistent

theorem mem_entries_of_find?
    {functions : Functions} {name : String} {f : NamedFunction}
    (h : functions.find? name = some f) :
    (name.toLower, f) ∈ functions.entries :=
  mem_of_lookup_eq_some h

theorem Consistent.of_find?
    {functions : Functions} (h : functions.Consistent) {name : String} {f : NamedFunction}
    (hf : functions.find? name = some f) : f.Consistent :=
  h _ (mem_entries_of_find? hf)

/-- Entering a consistent function under any names keeps a table consistent. -/
theorem Consistent.register
    {functions : Functions} (h : functions.Consistent) {f : NamedFunction}
    (hf : f.Consistent) (aliases : List String) :
    (functions.register f aliases).Consistent := by
  intro entry hentry
  simp only [Functions.register, List.mem_append, List.mem_map, List.mem_filter] at hentry
  rcases hentry with ⟨name, -, rfl⟩ | ⟨hold, -⟩
  · exact hf
  · exact h entry hold

theorem Consistent.unary
    {functions : Functions} (h : functions.Consistent) (name : String) (op : UnaryOperation)
    (aliases : List String) : (functions.unary name op aliases).Consistent := by
  apply h.register
  constructor
  · intro _ supplied opcode hopcode
    have hmem := mem_of_lookup_eq_some hopcode
    simp only [List.mem_singleton, Prod.mk.injEq] at hmem
    exact Or.inl ⟨hmem.1, op, hmem.2⟩
  · intro hreducer
    cases hreducer

theorem Consistent.binary
    {functions : Functions} (h : functions.Consistent) (name : String) (op : BinaryOperation)
    (aliases : List String) : (functions.binary name op aliases).Consistent := by
  apply h.register
  constructor
  · intro _ supplied opcode hopcode
    have hmem := mem_of_lookup_eq_some hopcode
    simp only [List.mem_singleton, Prod.mk.injEq] at hmem
    exact Or.inr ⟨hmem.1, op, hmem.2⟩
  · intro hreducer
    cases hreducer

theorem Consistent.reduce
    {functions : Functions} (h : functions.Consistent) (name : String) (op : Reducer)
    (aliases : List String) : (functions.reduce name op aliases).Consistent := by
  apply h.register
  constructor
  · intro hreducer
    cases hreducer
  · intro _ supplied opcode hopcode
    have hmem := mem_of_lookup_eq_some hopcode
    simp only [List.mem_singleton, Prod.mk.injEq] at hmem
    exact ⟨hmem.1, op, hmem.2⟩

theorem consistent_logarithm :
    (⟨"log", [(1, .unary .log), (2, .binary .logBase)], false⟩ : NamedFunction).Consistent := by
  constructor
  · intro _ supplied opcode hopcode
    have hmem := mem_of_lookup_eq_some hopcode
    simp only [List.mem_cons, List.not_mem_nil, or_false, Prod.mk.injEq] at hmem
    rcases hmem with ⟨rfl, rfl⟩ | ⟨rfl, rfl⟩
    · exact Or.inl ⟨rfl, .log, rfl⟩
    · exact Or.inr ⟨rfl, .logBase, rfl⟩
  · intro hreducer
    cases hreducer

/-- The standard functions are consistent under all their names. -/
theorem standard_consistent : standard.Consistent := by
  have hempty : (⟨[]⟩ : Functions).Consistent := by
    intro entry hentry
    cases hentry
  unfold standard
  repeat' first
    | exact hempty
    | apply Consistent.unary
    | apply Consistent.binary
    | apply Consistent.reduce
    | exact consistent_logarithm
    | apply Consistent.register

end Functions

/-! ## Typing rules -/

namespace Expr

/-- The typing rules of expressions. -/
inductive HasType (functions : Functions) : Expr → StaticType → Prop where
  | number {offset : Int} {value : Binary64} :
      HasType functions (.number offset value) .number
  | array {offset : Int} {items : List Expr} :
      (∀ e ∈ items, HasType functions e .number) →
      HasType functions (.array offset items) .array
  | unary {offset : Int} {op : UnaryOperator} {operand : Expr} :
      HasType functions operand .number →
      HasType functions (.unary offset op operand) .number
  | binary {offset : Int} {op : BinaryOperator} {left right : Expr} :
      HasType functions left .number →
      HasType functions right .number →
      HasType functions (.binary offset op left right) .number
  | scalarCall {offset : Int} {name : String} {args : List Expr} {f : NamedFunction}
      {opcode : Opcode} :
      functions.find? name = some f →
      f.reducer = false →
      f.opcode? args.length = some opcode →
      (∀ e ∈ args, HasType functions e .number) →
      HasType functions (.call offset name args) .number
  | reducerCall {offset : Int} {name : String} {arg : Expr} {f : NamedFunction}
      {opcode : Opcode} :
      functions.find? name = some f →
      f.reducer = true →
      f.opcode? 1 = some opcode →
      HasType functions arg .array →
      HasType functions (.call offset name [arg]) .number

variable {functions : Functions}

theorem HasType.operand
    {e : Expr} {type : StaticType} (h : e.HasType functions type)
    {a : Expr} (ha : a ∈ e.operands) :
    ∃ type, a.HasType functions type := by
  cases h with
  | number => cases ha
  | array hitems => exact ⟨.number, hitems a ha⟩
  | unary hoperand =>
      rw [operands, List.mem_singleton] at ha
      exact ⟨.number, ha ▸ hoperand⟩
  | binary hleft hright =>
      simp only [operands, List.mem_cons, List.not_mem_nil, or_false] at ha
      rcases ha with rfl | rfl
      · exact ⟨.number, hleft⟩
      · exact ⟨.number, hright⟩
  | scalarCall _ _ _ hargs => exact ⟨.number, hargs a ha⟩
  | reducerCall _ _ _ harg =>
      rw [operands, List.mem_singleton] at ha
      exact ⟨.array, ha ▸ harg⟩

theorem HasType.node
    {e : Expr} {type : StaticType} (h : e.HasType functions type)
    {node : Expr} (hnode : node ∈ e.postorder) :
    ∃ type, node.HasType functions type := by
  induction e using operandInduction generalizing type with
  | node e ih =>
      rw [postorder_eq, List.mem_append, List.mem_singleton] at hnode
      rcases hnode with hnode | rfl
      · obtain ⟨a, ha, hnode⟩ := exists_of_mem_postorders hnode
        obtain ⟨operandType, hoperand⟩ := h.operand ha
        exact ih a ha hoperand hnode
      · exact ⟨type, h⟩

/-- Only arrays have the type of arrays, so an expression has one type. -/
theorem HasType.unique
    {e : Expr} {type type' : StaticType} (h : e.HasType functions type)
    (h' : e.HasType functions type') :
    type = type' := by
  cases h <;> cases h' <;> rfl

theorem opcode_call
    (offset : Int) {name : String} {args : List Expr} {f : NamedFunction} {op : Opcode}
    (hf : functions.find? name = some f) (hop : f.opcode? args.length = some op) :
    (Expr.call offset name args).opcode functions = op := by
  simp [opcode, hf, hop]

/-! ## Heights -/

mutual

/-- The number of nodes on the longest path from the root. -/
def height : Expr → Nat
  | .number _ _ => 1
  | .array _ items => heights items + 1
  | .unary _ _ operand => operand.height + 1
  | .binary _ _ left right => max left.height right.height + 1
  | .call _ _ args => heights args + 1
  | .hole _ => 1

/-- The greatest height of expressions. -/
def heights : List Expr → Nat
  | [] => 0
  | e :: es => max e.height (heights es)

end

theorem height_le_heights {a : Expr} {es : List Expr} (ha : a ∈ es) : a.height ≤ heights es := by
  induction es with
  | nil => cases ha
  | cons e es ih =>
      rw [heights]
      rcases List.mem_cons.mp ha with rfl | hrest
      · exact Nat.le_max_left _ _
      · exact (ih hrest).trans (Nat.le_max_right _ _)

theorem heights_le {es : List Expr} {n : Nat} (h : ∀ e ∈ es, e.height ≤ n) : heights es ≤ n := by
  induction es with
  | nil => exact Nat.zero_le n
  | cons e es ih =>
      rw [heights]
      exact Nat.max_le.mpr ⟨h e List.mem_cons_self, ih fun a ha => h a (List.mem_cons_of_mem _ ha)⟩

theorem height_pos (e : Expr) : 0 < e.height := by
  cases e <;> rw [height] <;> omega

theorem height_lt_of_operand {a e : Expr} (ha : a ∈ e.operands) : a.height < e.height := by
  cases e with
  | number offset value => cases ha
  | hole offset => cases ha
  | array offset items =>
      rw [height]
      exact Nat.lt_succ_of_le (height_le_heights ha)
  | unary offset op operand =>
      rw [operands, List.mem_singleton] at ha
      rw [ha, height]
      exact Nat.lt_succ_self _
  | binary offset op left right =>
      simp only [operands, List.mem_cons, List.not_mem_nil, or_false] at ha
      rw [height]
      rcases ha with rfl | rfl
      · exact Nat.lt_succ_of_le (Nat.le_max_left _ _)
      · exact Nat.lt_succ_of_le (Nat.le_max_right _ _)
  | call offset name args =>
      rw [height]
      exact Nat.lt_succ_of_le (height_le_heights ha)

theorem height_le_of_mem_postorder {a e : Expr} (ha : a ∈ e.postorder) : a.height ≤ e.height := by
  induction e using operandInduction with
  | node e ih =>
      rw [postorder_eq, List.mem_append, List.mem_singleton] at ha
      rcases ha with ha | rfl
      · obtain ⟨operand, hoperand, ha⟩ := exists_of_mem_postorders ha
        exact (ih operand hoperand ha).trans (height_lt_of_operand hoperand).le
      · exact le_refl _

end Expr

end StackCalc
