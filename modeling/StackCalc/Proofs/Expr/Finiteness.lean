import Mathlib
import StackCalc.Proofs.Binary64.Rounding
import StackCalc.Proofs.Expr.Evaluation

/-!
# Finite values

Every operation ends with the requirement that its result is a finite number.  So an expression
whose literals are finite has a finite value, if it has a value at all.
-/

namespace StackCalc

namespace Operation

theorem finiteResult_eq_ok {x y : Binary64} (h : finiteResult x = .ok y) :
    y = x ∧ y.isFinite = true := by
  rw [finiteResult] at h
  split at h
  · cases h
  · rename_i hnan
    split at h
    · cases h
    · rename_i hinfinite
      cases h
      exact ⟨rfl, Binary64.isFinite_iff.mpr ⟨by simpa using hnan, by simpa using hinfinite⟩⟩

theorem finiteResult_of_isFinite {x : Binary64} (h : x.isFinite = true) :
    finiteResult x = .ok x := by
  obtain ⟨hnan, hinfinite⟩ := Binary64.isFinite_iff.mp h
  simp [finiteResult, hnan, hinfinite]

theorem finiteResult_of_isInfinite {x : Binary64} (h : x.isInfinite = true) :
    finiteResult x = .error .tooLarge := by
  simp [finiteResult, h, Binary64.isNaN_of_isInfinite h]

theorem isFinite_of_bind {outcome : Outcome Binary64} {y : Binary64}
    (h : outcome >>= finiteResult = .ok y) : y.isFinite = true := by
  cases outcome with
  | error e => cases h
  | ok x => exact (finiteResult_eq_ok h).2

end Operation

open Operation

theorem Outcome.isFinite_of_value {outcome : Outcome Binary64} {v : Value}
    (houtcome : ∀ y, outcome = .ok y → y.isFinite = true)
    (h : outcome.value = .ok v) : v.isFinite = true := by
  cases outcome with
  | error cause => cases h
  | ok y =>
      cases h
      exact houtcome y rfl

theorem isFinite_of_numbers? {vs : List Value} {items : List Binary64}
    (hvs : ∀ v ∈ vs, v.isFinite = true) (h : numbers? vs = some items) :
    (Value.array items).isFinite = true := by
  induction vs generalizing items with
  | nil =>
      cases h
      rfl
  | cons v vs ih =>
      cases v with
      | array xs => cases h
      | number x =>
          obtain ⟨rest, hrest, rfl⟩ := Option.map_eq_some_iff.mp h
          have hx : x.isFinite = true := hvs _ List.mem_cons_self
          have hitems := ih (fun v hv => hvs v (List.mem_cons_of_mem _ hv)) hrest
          simp only [Value.isFinite, List.all_cons, hx, Bool.true_and] at hitems ⊢
          exact hitems

variable [Library]

theorem UnaryOperation.isFinite_of_apply {op : UnaryOperation} {a y : Binary64}
    (h : op.apply a = .ok y) : y.isFinite = true :=
  isFinite_of_bind h

theorem BinaryOperation.isFinite_of_apply {op : BinaryOperation} {a b y : Binary64}
    (h : op.apply a b = .ok y) : y.isFinite = true :=
  isFinite_of_bind h

theorem Reducer.isFinite_of_apply {op : Reducer} {xs : List Binary64} {y : Binary64}
    (h : op.apply xs = .ok y) : y.isFinite = true := by
  rw [Reducer.apply] at h
  split at h
  · cases h
  · exact (finiteResult_eq_ok h).2

theorem Opcode.isFinite_of_result {op : Opcode} {vs : List Value} {v : Value}
    (hvs : ∀ v ∈ vs, v.isFinite = true) (h : op.result vs = .ok v) :
    v.isFinite = true := by
  unfold Opcode.result at h
  split at h
  · split at h
    · rename_i items hitems
      cases h
      exact isFinite_of_numbers? hvs hitems
    · cases h
  · exact Outcome.isFinite_of_value (fun _ => UnaryOperation.isFinite_of_apply) h
  · exact Outcome.isFinite_of_value (fun _ => BinaryOperation.isFinite_of_apply) h
  · exact Outcome.isFinite_of_value (fun _ => Reducer.isFinite_of_apply) h
  · cases h

/-- The literals of nodes are finite. -/
def FiniteLiterals (nodes : List Expr) : Prop :=
  ∀ node ∈ nodes, ∀ x, node.literal? = some x → x.isFinite = true

namespace Expr

variable {functions : Functions}

theorem result_eq (e : Expr) (vs : List Value) :
    (∃ offset x, e = .number offset x) ∨
      e.result functions vs = (e.opcode functions).result vs := by
  cases e with
  | number offset x => exact Or.inl ⟨offset, x, rfl⟩
  | _ => exact Or.inr rfl

/-- An expression whose literals are finite has a finite value, if it has one. -/
theorem isFinite_of_value
    (e : Expr) (hliterals : FiniteLiterals e.postorder)
    {v : Value} (hv : e.value functions = .ok v) :
    v.isFinite = true := by
  induction e using operandInduction generalizing v with
  | node e ih =>
      cases hvs : values functions e.operands with
      | error failure =>
          rw [value_of_values_error hvs] at hv
          cases hv
      | ok vs =>
          rw [value_of_values_ok hvs] at hv
          have hfinite : ∀ w ∈ vs, w.isFinite = true := by
            intro w hw
            obtain ⟨a, ha, hwa⟩ := exists_of_mem_values hvs w hw
            refine ih a ha (fun node hnode => ?_) hwa
            exact hliterals node (mem_postorder_of_operand ha hnode)
          rcases result_eq e vs with ⟨offset, x, rfl⟩ | hresult
          · cases hv
            exact hliterals _ (mem_postorder_self _) x rfl
          · rw [hresult] at hv
            exact Opcode.isFinite_of_result hfinite hv

end Expr

end StackCalc
