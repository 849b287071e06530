import Mathlib
import StackCalc.Machine
import StackCalc.Proofs.Expr.Typing

/-!
# Direct evaluation of expressions

The value of an expression is defined by recursion on the tree, without a program and without a
stack: the operands of a node are evaluated from left to right, and then the operation of the
node is applied to their values.  The evaluation ends at the first operation that has no result.

In a typed expression every operation fits its operands, so the only failures are those of the
operations themselves.
-/

namespace StackCalc

/-- Why an expression has no value. -/
inductive NodeFailure where
  /-- An operation has no result for the values of its operands. -/
  | noResult (cause : OperationError)
  /-- A node has no operation, or one that does not fit the values of its operands. -/
  | unfit
deriving DecidableEq

/-- The outcome of a direct evaluation. -/
abbrev Evaluated := Except NodeFailure

/-- The numbers in a list of values, if there are no arrays among them. -/
def numbers? : List Value → Option (List Binary64)
  | [] => some []
  | .number x :: values => (numbers? values).map (x :: ·)
  | .array _ :: _ => none

/-- The outcome of an operation as a value. -/
def Outcome.value : Outcome Binary64 → Evaluated Value
  | .ok x => .ok (.number x)
  | .error cause => .error (.noResult cause)

/-! ## Types of values -/

/-- The static type of a value. -/
def Value.type : Value → StaticType
  | .number _ => .number
  | .array _ => .array

theorem Value.eq_number_of_type {v : Value} (h : v.type = .number) : ∃ x, v = .number x := by
  cases v with
  | number x => exact ⟨x, rfl⟩
  | array items => cases h

theorem Value.eq_array_of_type {v : Value} (h : v.type = .array) : ∃ items, v = .array items := by
  cases v with
  | number x => cases h
  | array items => exact ⟨items, rfl⟩

theorem numbers?_map_number (items : List Binary64) :
    numbers? (items.map Value.number) = some items := by
  induction items with
  | nil => rfl
  | cons x items ih => rw [List.map_cons, numbers?, ih]; rfl

theorem eq_map_number {vs : List Value} (h : ∀ v ∈ vs, v.type = .number) :
    ∃ items : List Binary64, vs = items.map Value.number := by
  induction vs with
  | nil => exact ⟨[], rfl⟩
  | cons v vs ih =>
      obtain ⟨x, rfl⟩ := Value.eq_number_of_type (h v List.mem_cons_self)
      obtain ⟨items, rfl⟩ := ih fun w hw => h w (List.mem_cons_of_mem _ hw)
      exact ⟨x :: items, rfl⟩

theorem Outcome.value_type {outcome : Outcome Binary64} {v : Value}
    (h : outcome.value = .ok v) : v.type = .number := by
  cases outcome with
  | error cause => cases h
  | ok x =>
      cases h
      rfl

/-! ## Fitting operations -/

theorem UnaryOperator.exists_opcode_eq (op : UnaryOperator) :
    ∃ u, op.opcode = .unary u := by
  cases op
  · exact ⟨.neg, rfl⟩
  · exact ⟨.fact, rfl⟩

theorem BinaryOperator.exists_opcode_eq (op : BinaryOperator) :
    ∃ b, op.opcode = .binary b := by
  cases op
  · exact ⟨.add, rfl⟩
  · exact ⟨.sub, rfl⟩
  · exact ⟨.mul, rfl⟩
  · exact ⟨.div, rfl⟩
  · exact ⟨.mod, rfl⟩
  · exact ⟨.pow, rfl⟩

namespace Expr

variable {functions : Functions}

/-- A typed node whose operands have values applies its operation to values of the right types;
this lists the cases. -/
inductive Fits (functions : Functions) : Expr → List Value → Prop where
  | number (offset : Int) (x : Binary64) :
      Fits functions (.number offset x) []
  | array (offset : Int) (es : List Expr) (items : List Binary64) :
      es.length = items.length →
      Fits functions (.array offset es) (items.map Value.number)
  | unary {e : Expr} {op : UnaryOperation} (a : Binary64) :
      e.opcode functions = .unary op → Fits functions e [.number a]
  | binary {e : Expr} {op : BinaryOperation} (a b : Binary64) :
      e.opcode functions = .binary op → Fits functions e [.number a, .number b]
  | reduce {e : Expr} {op : Reducer} (items : List Binary64) :
      e.opcode functions = .reduce op → Fits functions e [.array items]

theorem opcode_scalarCall
    (hfunctions : functions.Consistent)
    (offset : Int) {name : String} {args : List Expr} {f : NamedFunction} {op : Opcode}
    (hf : functions.find? name = some f) (hscalar : f.reducer = false)
    (hop : f.opcode? args.length = some op) :
    (args.length = 1 ∧ ∃ u, (Expr.call offset name args).opcode functions = .unary u) ∨
      (args.length = 2 ∧ ∃ b, (Expr.call offset name args).opcode functions = .binary b) := by
  rw [opcode_call offset hf hop]
  exact (hfunctions.of_find? hf).scalar hscalar _ _ hop

theorem opcode_reducerCall
    (hfunctions : functions.Consistent)
    (offset : Int) {name : String} (arg : Expr) {f : NamedFunction} {op : Opcode}
    (hf : functions.find? name = some f) (hreducer : f.reducer = true)
    (hop : f.opcode? 1 = some op) :
    ∃ r, (Expr.call offset name [arg]).opcode functions = .reduce r := by
  rw [opcode_call offset hf (show f.opcode? [arg].length = some op from hop)]
  exact ((hfunctions.of_find? hf).reducing hreducer _ _ hop).2

theorem fits_of_length
    {e : Expr} {vs : List Value} (hnumbers : ∀ v ∈ vs, v.type = .number)
    (hopcode : (vs.length = 1 ∧ ∃ op, e.opcode functions = .unary op) ∨
      (vs.length = 2 ∧ ∃ op, e.opcode functions = .binary op)) :
    Fits functions e vs := by
  obtain ⟨items, rfl⟩ := eq_map_number hnumbers
  rw [List.length_map] at hopcode
  rcases hopcode with ⟨hlength, op, hop⟩ | ⟨hlength, op, hop⟩
  · obtain ⟨a, rfl⟩ := List.length_eq_one_iff.mp hlength
    exact .unary a hop
  · obtain ⟨a, b, rfl⟩ := List.length_eq_two.mp hlength
    exact .binary a b hop

end Expr

/-! ## Values -/

variable [Library]

/-- The result of an opcode for the values of its operands, the leftmost first. -/
def Opcode.result : Opcode → List Value → Evaluated Value
  | .buildArray, values =>
    match numbers? values with
    | some items => .ok (.array items)
    | none => .error .unfit
  | .unary op, [.number a] => Outcome.value (op.apply a)
  | .binary op, [.number a, .number b] => Outcome.value (op.apply a b)
  | .reduce op, [.array items] => Outcome.value (op.apply items)
  | _, _ => .error .unfit

namespace Expr

mutual

/-- The value of an expression. -/
def value (functions : Functions) : Expr → Evaluated Value
  | .number _ x => .ok (.number x)
  | .array _ items => do Opcode.buildArray.result (← values functions items)
  | .unary _ op operand => do op.opcode.result [← operand.value functions]
  | .binary _ op left right => do
    let a ← left.value functions
    let b ← right.value functions
    op.opcode.result [a, b]
  | .call offset name args => do
    ((Expr.call offset name args).opcode functions).result (← values functions args)
  | .hole _ => .error .unfit

/-- The values of expressions, evaluated from left to right. -/
def values (functions : Functions) : List Expr → Evaluated (List Value)
  | [] => .ok []
  | e :: es => do
    let v ← e.value functions
    let vs ← values functions es
    return v :: vs

end

/-- The result of a node for the values of its operands. -/
def result (functions : Functions) : Expr → List Value → Evaluated Value
  | .number _ x, _ => .ok (.number x)
  | e, values => (e.opcode functions).result values

variable {functions : Functions}

@[simp] theorem values_nil : values functions [] = .ok [] := by
  rw [values]

theorem values_cons_ok
    {e : Expr} {es : List Expr} {v : Value} (h : e.value functions = .ok v) :
    values functions (e :: es) = (values functions es).map (v :: ·) := by
  rw [values, h]
  cases values functions es <;> rfl

theorem values_cons_error
    {e : Expr} {es : List Expr} {failure : NodeFailure}
    (h : e.value functions = .error failure) :
    values functions (e :: es) = .error failure := by
  rw [values, h]
  rfl

theorem values_eq_ok_iff {es : List Expr} {vs : List Value} :
    values functions es = .ok vs ↔ List.Forall₂ (fun e v => e.value functions = .ok v) es vs := by
  induction es generalizing vs with
  | nil =>
      rw [values_nil, List.forall₂_nil_left_iff, Except.ok.injEq]
      exact eq_comm
  | cons e es ih =>
      rw [List.forall₂_cons_left_iff]
      constructor
      · intro h
        cases hv : e.value functions with
        | error failure =>
            rw [values_cons_error hv] at h
            cases h
        | ok v =>
            rw [values_cons_ok hv] at h
            cases hvs : values functions es with
            | error failure =>
                rw [hvs] at h
                cases h
            | ok rest =>
                rw [hvs] at h
                cases h
                exact ⟨v, rest, rfl, ih.mp hvs, rfl⟩
      · rintro ⟨v, rest, hv, hrest, rfl⟩
        rw [values_cons_ok hv, ih.mpr hrest]
        rfl

theorem exists_of_mem_values {es : List Expr} {vs : List Value}
    (hvs : values functions es = .ok vs) :
    ∀ v ∈ vs, ∃ e ∈ es, e.value functions = .ok v := by
  have hpairs := values_eq_ok_iff.mp hvs
  clear hvs
  induction hpairs with
  | nil =>
      intro v hv
      cases hv
  | @cons e v es vs hev _ ih =>
      intro w hw
      rcases List.mem_cons.mp hw with rfl | hrest
      · exact ⟨e, List.mem_cons_self, hev⟩
      · obtain ⟨a, ha, hwa⟩ := ih w hrest
        exact ⟨a, List.mem_cons_of_mem _ ha, hwa⟩

/-- A node is evaluated by evaluating its operands and applying its operation. -/
theorem value_eq (e : Expr) :
    e.value functions = values functions e.operands >>= e.result functions := by
  cases e with
  | number offset x => rw [value, operands, values_nil]; rfl
  | array offset items => rw [value]; rfl
  | call offset name args => rw [value]; rfl
  | hole offset => rw [value, operands, values_nil]; rfl
  | unary offset op operand =>
      rw [value, operands]
      cases hv : operand.value functions with
      | error failure => rw [values_cons_error hv]; rfl
      | ok v => rw [values_cons_ok hv, values_nil]; rfl
  | binary offset op left right =>
      rw [value, operands]
      cases ha : left.value functions with
      | error failure => rw [values_cons_error ha]; rfl
      | ok a =>
          rw [values_cons_ok ha]
          cases hb : right.value functions with
          | error failure => rw [values_cons_error hb]; rfl
          | ok b => rw [values_cons_ok hb, values_nil]; rfl

theorem value_of_values_ok {e : Expr} {vs : List Value}
    (h : values functions e.operands = .ok vs) :
    e.value functions = e.result functions vs := by
  rw [value_eq, h]
  rfl

theorem value_of_values_error {e : Expr} {failure : NodeFailure}
    (h : values functions e.operands = .error failure) :
    e.value functions = .error failure := by
  rw [value_eq, h]
  rfl

end Expr

/-! ## Values of typed expressions -/

theorem Opcode.type_of_result_eq_ok
    {op : Opcode} {vs : List Value} {v : Value} (h : op.result vs = .ok v) :
    v.type = if op = .buildArray then .array else .number := by
  unfold Opcode.result at h
  split at h
  · split at h
    · cases h
      rfl
    · cases h
  · exact Outcome.value_type h
  · exact Outcome.value_type h
  · exact Outcome.value_type h
  · cases h

namespace Expr

variable {functions : Functions}

/-- The value of a typed expression has the type of the expression. -/
theorem HasType.type_of_value
    (hfunctions : functions.Consistent)
    {e : Expr} {type : StaticType} (h : e.HasType functions type)
    {v : Value} (hv : e.value functions = .ok v) :
    v.type = type := by
  cases hvs : values functions e.operands with
  | error failure =>
      rw [value_of_values_error hvs] at hv
      cases hv
  | ok vs =>
      rw [value_of_values_ok hvs] at hv
      cases h with
      | number =>
          cases hv
          rfl
      | array _ =>
          have hresult : Opcode.buildArray.result vs = .ok v := hv
          exact Opcode.type_of_result_eq_ok hresult
      | @unary _ op _ _ => cases op <;> exact Opcode.type_of_result_eq_ok hv
      | @binary _ op _ _ _ _ => cases op <;> exact Opcode.type_of_result_eq_ok hv
      | @scalarCall offset name args _ _ hf hscalar hop _ =>
          have htype := Opcode.type_of_result_eq_ok hv
          rcases opcode_scalarCall hfunctions offset hf hscalar hop with
            ⟨-, u, hu⟩ | ⟨-, b, hb⟩
          · rw [hu] at htype
            exact htype
          · rw [hb] at htype
            exact htype
      | @reducerCall offset name arg _ _ hf hreducer hop _ =>
          have htype := Opcode.type_of_result_eq_ok hv
          obtain ⟨r, hr⟩ :=
            opcode_reducerCall hfunctions offset arg hf hreducer hop
          rw [hr] at htype
          exact htype

theorem type_of_mem_values
    (hfunctions : functions.Consistent) {type : StaticType}
    {es : List Expr} (hes : ∀ e ∈ es, e.HasType functions type)
    {vs : List Value} (hvs : values functions es = .ok vs) :
    ∀ v ∈ vs, v.type = type := by
  intro v hv
  obtain ⟨e, he, hev⟩ := exists_of_mem_values hvs v hv
  exact (hes e he).type_of_value hfunctions hev

/-- The operation of a typed node fits the values of its operands. -/
theorem HasType.fits
    (hfunctions : functions.Consistent)
    {e : Expr} {type : StaticType} (h : e.HasType functions type)
    {vs : List Value} (hvs : values functions e.operands = .ok vs) :
    Fits functions e vs := by
  have hlength : e.operands.length = vs.length := (values_eq_ok_iff.mp hvs).length_eq
  cases h with
  | @number offset x =>
      rw [operands, values_nil] at hvs
      cases hvs
      exact .number offset x
  | @array offset items hitems =>
      obtain ⟨xs, rfl⟩ := eq_map_number (type_of_mem_values hfunctions hitems hvs)
      rw [List.length_map] at hlength
      exact .array offset items xs hlength
  | @unary offset op operand hoperand =>
      have hnumbers := type_of_mem_values hfunctions
        (fun a ha => List.mem_singleton.mp ha ▸ hoperand) hvs
      exact fits_of_length hnumbers (Or.inl ⟨hlength.symm, op.exists_opcode_eq⟩)
  | @binary offset op left right hleft hright =>
      have hoperands : ∀ a ∈ [left, right], a.HasType functions .number := by
        intro a ha
        simp only [List.mem_cons, List.not_mem_nil, or_false] at ha
        rcases ha with rfl | rfl
        · exact hleft
        · exact hright
      have hnumbers := type_of_mem_values hfunctions hoperands hvs
      exact fits_of_length hnumbers (Or.inr ⟨hlength.symm, op.exists_opcode_eq⟩)
  | @scalarCall offset name args f op hf hscalar hop hargs =>
      have hnumbers := type_of_mem_values hfunctions hargs hvs
      have hopcode := opcode_scalarCall hfunctions offset hf hscalar hop
      rw [show args.length = vs.length from hlength] at hopcode
      exact fits_of_length hnumbers hopcode
  | @reducerCall offset name arg f op hf hreducer hop harg =>
      obtain ⟨r, hr⟩ :=
        opcode_reducerCall hfunctions offset arg hf hreducer hop
      obtain ⟨v, rfl⟩ := List.length_eq_one_iff.mp hlength.symm
      have harray := type_of_mem_values hfunctions
        (fun a ha => List.mem_singleton.mp ha ▸ harg) hvs v List.mem_cons_self
      obtain ⟨items, rfl⟩ := Value.eq_array_of_type harray
      exact .reduce items hr

end Expr

end StackCalc
