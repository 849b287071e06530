import Mathlib
import StackCalc.Proofs.Machine.StepLog

/-!
# Structure and data

The shape of a value is that of a number, or that of an array and its length.  Whether an
instruction finds the values that it needs, and the shape of what it leaves, depend on the shapes on
the stack and on the size of the pool alone.  The numbers decide only whether an operation has a
result.

Two programs that differ in their constants therefore go through stacks of the same shapes, and they
are broken at the same step in the same way, up to the first error of an operation in one of them.
-/

namespace StackCalc

/-- What the structure of a program determines of a value. -/
inductive Shape where
  | number
  | array (length : Nat)
deriving DecidableEq

def Value.shape : Value → Shape
  | .number _ => .number
  | .array items => .array items.length

/-- The shapes of the values on a stack, top first. -/
def Stack.shapes (stack : Stack) : List Shape := stack.map Value.shape

namespace StepOutcome

variable {α β : Type} {R : α → α → Prop} {S : β → β → Prop} {x y : StepOutcome α}

/-- Two outcomes are related results, or faults with the same wording. -/
inductive Agree (R : α → α → Prop) : StepOutcome α → StepOutcome α → Prop where
  | ok {a b : α} : R a b → Agree R (.ok a) (.ok b)
  | fault {f g : MachineFault} :
      f.message = g.message → Agree R (.error (.fault f)) (.error (.fault g))

/-- Two outcomes agree, or one of them is an error of an operation and neither is a fault. -/
inductive SameStructure (R : α → α → Prop) : StepOutcome α → StepOutcome α → Prop where
  | agree {x y : StepOutcome α} : Agree R x y → SameStructure R x y
  | errorLeft {cause : OperationError} {y : StepOutcome α} :
      (∀ g, y ≠ .error (.fault g)) → SameStructure R (.error (.error cause)) y
  | errorRight {cause : OperationError} {x : StepOutcome α} :
      (∀ f, x ≠ .error (.fault f)) → SameStructure R x (.error (.error cause))

theorem Agree.bind {f g : α → StepOutcome β} (h : Agree R x y)
    (hrest : ∀ a b, R a b → Agree S (f a) (g b)) : Agree S (x >>= f) (y >>= g) := by
  cases h with
  | ok hab => exact hrest _ _ hab
  | fault hmessage => exact .fault hmessage

theorem Agree.andThen {f g : α → StepOutcome β} (h : Agree R x y)
    (hrest : ∀ a b, R a b → SameStructure S (f a) (g b)) :
    SameStructure S (x >>= f) (y >>= g) := by
  cases h with
  | ok hab => exact hrest _ _ hab
  | fault hmessage => exact .agree (.fault hmessage)

theorem SameStructure.related (h : SameStructure R x y) {a b : α}
    (hx : x = .ok a) (hy : y = .ok b) : R a b := by
  subst hx hy
  cases h with
  | agree hagree =>
      cases hagree with
      | ok hab => exact hab

end StepOutcome

open StepOutcome

/-! ## Taking values from the stack -/

namespace Stack

variable {s t : Stack}

theorem length_eq_of_shapes (h : s.shapes = t.shapes) : s.length = t.length := by
  simpa [shapes] using congrArg List.length h

theorem shapes_cases (h : s.shapes = t.shapes) :
    (s = [] ∧ t = []) ∨
      ∃ v w s' t', s = v :: s' ∧ t = w :: t' ∧ v.shape = w.shape ∧ shapes s' = shapes t' := by
  rcases s with _ | ⟨v, s'⟩
  · exact Or.inl ⟨rfl, List.map_eq_nil_iff.mp h.symm⟩
  · rcases t with _ | ⟨w, t'⟩
    · cases h
    · obtain ⟨hshape, hrest⟩ := List.cons.inj h
      exact Or.inr ⟨v, w, s', t', rfl, rfl, hshape, hrest⟩

theorem popNumber_agree (h : s.shapes = t.shapes) :
    Agree (fun a b => shapes a.2 = shapes b.2) (popNumber s) (popNumber t) := by
  rcases shapes_cases h with ⟨rfl, rfl⟩ | ⟨v, w, s', t', rfl, rfl, hshape, hrest⟩
  · exact .fault rfl
  · rcases v with x | xs <;> rcases w with y | ys
    · exact .ok hrest
    · cases hshape
    · cases hshape
    · exact .fault rfl

theorem popArray_agree (h : s.shapes = t.shapes) :
    Agree (fun a b => shapes a.2 = shapes b.2) (popArray s) (popArray t) := by
  rcases shapes_cases h with ⟨rfl, rfl⟩ | ⟨v, w, s', t', rfl, rfl, hshape, hrest⟩
  · exact .fault rfl
  · rcases v with x | xs <;> rcases w with y | ys
    · exact .fault rfl
    · cases hshape
    · cases hshape
    · exact .ok hrest

theorem popNumbers_agree (h : s.shapes = t.shapes) {items items' : List Binary64}
    (hitems : items.length = items'.length) (count : Nat) :
    Agree (fun a b => a.1.length = b.1.length ∧ shapes a.2 = shapes b.2)
      (popNumbers items count s) (popNumbers items' count t) := by
  induction count generalizing items items' s t with
  | zero => exact .ok ⟨hitems, h⟩
  | succ count ih =>
      apply (popNumber_agree h).bind
      intro a b hrest
      exact ih hrest (congrArg (· + 1) hitems)

theorem pushResult_sameStructure (h : s.shapes = t.shapes) (outcome outcome' : Outcome Binary64) :
    SameStructure (fun a b => shapes a = shapes b)
      (s.pushResult outcome) (t.pushResult outcome') := by
  cases outcome with
  | error cause => exact .errorLeft fun g => pushResult_ne_fault t outcome' g
  | ok x =>
      cases outcome' with
      | error cause => exact .errorRight fun f => pushResult_ne_fault s (.ok x) f
      | ok y => exact .agree (.ok (congrArg (Shape.number :: ·) h))

end Stack

/-! ## Constants -/

variable {constants constants' : List Binary64} {s t : Stack}

theorem constantAt?_cases (h : constants.length = constants'.length) (index : Option Int) :
    (constantAt? constants index = none ∧ constantAt? constants' index = none) ∨
      ∃ x y, constantAt? constants index = some x ∧ constantAt? constants' index = some y := by
  cases index with
  | none => exact Or.inl ⟨rfl, rfl⟩
  | some index =>
      by_cases hindex : index < 0
      · exact Or.inl ⟨if_pos hindex, if_pos hindex⟩
      · simp only [constantAt?, if_neg hindex]
        by_cases hslot : index.toNat < constants.length
        · refine Or.inr ⟨_, _, List.getElem?_eq_getElem hslot, List.getElem?_eq_getElem (h ▸ hslot)⟩
        · have hslot' : ¬ index.toNat < constants'.length := h ▸ hslot
          exact Or.inl ⟨List.getElem?_eq_none (Nat.le_of_not_lt hslot),
            List.getElem?_eq_none (Nat.le_of_not_lt hslot')⟩

/-! ## Ends of runs -/

/-- How two runs end that differ in data alone.  If an operation has no result in one of them, the
other has not faulted before. -/
inductive Run.SameEnd (run run' : Run) : Prop where
  | value {v w : Value} :
      run.result = .ok v → run'.result = .ok w → v.shape = w.shape → SameEnd run run'
  | fault {f g : MachineFault} :
      run.result = .error (.fault f) → run'.result = .error (.fault g) → f.message = g.message →
      run.log.length = run'.log.length → SameEnd run run'
  | errorLeft {e : RuntimeError} :
      run.result = .error (.error e) →
      (∀ g, run'.result = .error (.fault g) → run.log.length ≤ run'.log.length) →
      SameEnd run run'
  | errorRight {e : RuntimeError} :
      run'.result = .error (.error e) →
      (∀ f, run.result = .error (.fault f) → run'.log.length ≤ run.log.length) →
      SameEnd run run'

namespace Run.SameEnd

variable {run run' : Run}

theorem cons (h : run.SameEnd run') (entry entry' : LogEntry) :
    SameEnd ⟨run.result, entry :: run.log⟩ ⟨run'.result, entry' :: run'.log⟩ := by
  cases h with
  | value hv hw hshape => exact .value hv hw hshape
  | fault hf hg hmessage hlength =>
      exact .fault hf hg hmessage (congrArg (· + 1) hlength)
  | errorLeft he hother =>
      exact .errorLeft he fun g hg => Nat.succ_le_succ (hother g hg)
  | errorRight he hother =>
      exact .errorRight he fun f hf => Nat.succ_le_succ (hother f hf)

theorem final (h : s.shapes = t.shapes) : SameEnd ⟨finalValue s, []⟩ ⟨finalValue t, []⟩ := by
  rcases Stack.shapes_cases h with ⟨rfl, rfl⟩ | ⟨v, w, s', t', rfl, rfl, hshape, hrest⟩
  · exact .fault rfl rfl rfl rfl
  · rcases Stack.shapes_cases hrest with ⟨rfl, rfl⟩ | ⟨v', w', s'', t'', rfl, rfl, -, -⟩
    · exact .value rfl rfl hshape
    · refine .fault rfl rfl ?_ rfl
      rw [Stack.length_eq_of_shapes h]

end Run.SameEnd

/-! ## Steps -/

section

variable [Library]

/-- On stacks of the same shapes, and with pools of the same size, an instruction faults alike and
leaves stacks of the same shapes, unless an operation has no result. -/
theorem Instruction.step_sameStructure
    (hpool : constants.length = constants'.length) (h : s.shapes = t.shapes) (i : Instruction) :
    SameStructure (fun a b => Stack.shapes a = Stack.shapes b)
      (i.step constants s) (i.step constants' t) := by
  obtain ⟨opcode, operand⟩ := i
  cases opcode with
  | pushConst =>
      simp only [step]
      rcases constantAt?_cases hpool operand with ⟨hx, hy⟩ | ⟨x, y, hx, hy⟩
      · rw [hx, hy, hpool]
        exact .agree (.fault rfl)
      · rw [hx, hy]
        exact .agree (.ok (congrArg (Shape.number :: ·) h))
  | buildArray =>
      have hheight := Stack.length_eq_of_shapes h
      simp only [step]
      by_cases hcount : (s.length : Int) < operand.getD 0
      · rw [if_pos hcount, if_pos (hheight ▸ hcount), hheight]
        exact .agree (.fault rfl)
      · rw [if_neg hcount, if_neg (hheight ▸ hcount)]
        apply (Stack.popNumbers_agree h rfl _).andThen
        rintro ⟨xs, s'⟩ ⟨ys, t'⟩ ⟨hlength, hrest⟩
        exact .agree (.ok (congrArg₂ (Shape.array · :: ·) hlength hrest))
  | unary op =>
      apply (Stack.popNumber_agree h).andThen
      intro a b hrest
      exact Stack.pushResult_sameStructure hrest _ _
  | binary op =>
      apply (Stack.popNumber_agree h).andThen
      intro a b hrest
      apply (Stack.popNumber_agree hrest).andThen
      intro a' b' hrest'
      exact Stack.pushResult_sameStructure hrest' _ _
  | reduce op =>
      apply (Stack.popArray_agree h).andThen
      intro a b hrest
      exact Stack.pushResult_sameStructure hrest _ _
  | unassigned number => exact .agree (.fault rfl)

theorem shapes_eq_of_execute
    (hpool : constants.length = constants'.length) (h : s.shapes = t.shapes)
    {is : List Instruction} {s' t' : Stack}
    (hs : execute constants s is = .ok s') (ht : execute constants' t is = .ok t') :
    s'.shapes = t'.shapes := by
  induction is generalizing s t with
  | nil =>
      cases hs
      cases ht
      exact h
  | cons i is ih =>
      obtain ⟨next, hnext, hs⟩ := execute_cons_eq_ok_iff.mp hs
      obtain ⟨next', hnext', ht⟩ := execute_cons_eq_ok_iff.mp ht
      have hstep := i.step_sameStructure hpool h
      rw [hnext, hnext'] at hstep
      exact ih (hstep.related rfl rfl) hs ht

/-! ## Runs -/

theorem length_log_runFrom_pos
    (verbose : Bool) (constants : List Binary64) (offsets : List Int) (index : Nat) (stack : Stack)
    (i : Instruction) (is : List Instruction) :
    0 < (runFrom verbose constants offsets index stack (i :: is)).log.length := by
  rw [length_log_runFrom]
  split <;> simp

/-- The same instructions, run on stacks of the same shapes, end in the same way up to data. -/
theorem sameEnd_runFrom
    (hpool : constants.length = constants'.length) (verbose verbose' : Bool)
    (offsets offsets' : List Int) (index : Nat) (h : s.shapes = t.shapes) (is : List Instruction) :
    (runFrom verbose constants offsets index s is).SameEnd
      (runFrom verbose' constants' offsets' index t is) := by
  induction is generalizing index s t with
  | nil => exact .final h
  | cons i is ih =>
      have hstep := i.step_sameStructure hpool h
      have hpos := length_log_runFrom_pos verbose constants offsets index s i is
      have hpos' := length_log_runFrom_pos verbose' constants' offsets' index t i is
      rw [runFrom] at hpos ⊢
      rw [runFrom] at hpos' ⊢
      generalize i.step constants s = x at hstep hpos ⊢
      generalize i.step constants' t = y at hstep hpos' ⊢
      cases hstep with
      | agree hagree =>
          cases hagree with
          | ok hnext => exact (ih (index + 1) hnext).cons _ _
          | fault hmessage => exact .fault rfl rfl hmessage rfl
      | errorLeft => exact .errorLeft rfl fun g _ => hpos'
      | errorRight => exact .errorRight rfl fun f _ => hpos

namespace Program

/-- Two programs with the same instructions and with pools of the same size differ in data alone.
Their stacks have the same shapes after every step that succeeds in both.  A step that both reach
faults in both, with the same wording, or in neither.  They end with values of the same shape or
with the same fault at the same step, unless an operation has no result in one of them; in this case
the other has not faulted before. -/
theorem run_sameStructure {p q : Program} (hinstructions : q.instructions = p.instructions)
    (hpool : q.constants.length = p.constants.length) :
    (∀ place s t, p.stackAfter place = some s → q.stackAfter place = some t →
      s.shapes = t.shapes) ∧
    (∀ place i s t, p.instructions[place]? = some i → p.stackBefore place = some s →
      q.stackBefore place = some t →
        SameStructure (fun a b => Stack.shapes a = Stack.shapes b)
          (i.step p.constants s) (i.step q.constants t)) ∧
    ∀ verbose verbose', (p.run verbose).SameEnd (q.run verbose') := by
  refine ⟨?_, ?_, ?_⟩
  · intro place s t hs ht
    have hs' := (stackAfter_eq_some_iff.mp hs).2
    have ht' := (stackAfter_eq_some_iff.mp ht).2
    rw [hinstructions] at ht'
    exact shapes_eq_of_execute hpool.symm rfl hs' ht'
  · intro place i s t _ hs ht
    have hs' := (stackBefore_eq_some_iff.mp hs).2
    have ht' := (stackBefore_eq_some_iff.mp ht).2
    rw [hinstructions] at ht'
    exact i.step_sameStructure hpool.symm (shapes_eq_of_execute hpool.symm rfl hs' ht')
  · intro verbose verbose'
    rw [run, run, hinstructions]
    exact sameEnd_runFrom hpool.symm verbose verbose' p.offsets q.offsets 0 rfl p.instructions

end Program

end

/-- The negation of an array faults whatever the array holds. -/
theorem Program.run_sameStructure_negated_array :
    let code : List Instruction := [⟨.pushConst, some 0⟩, ⟨.pushConst, some 1⟩,
      ⟨.buildArray, some 2⟩, ⟨.unary .neg, none⟩]
    let p : Program := ⟨code, [.one, .zero], []⟩
    let q : Program := ⟨code, [.nan, .infinity], [4, 7]⟩
    q.instructions = p.instructions ∧ q.constants.length = p.constants.length ∧
      p.run.result = .error (.fault (.numberExpected (.array [.one, .zero]))) ∧
      q.run.result = .error (.fault (.numberExpected (.array [.nan, .infinity]))) ∧
      ∀ verbose verbose', (p.run verbose).SameEnd (q.run verbose') := by
  intro code p q
  have hinstructions : q.instructions = p.instructions := rfl
  have hpool : q.constants.length = p.constants.length := rfl
  refine ⟨hinstructions, hpool, ?_, ?_, (Program.run_sameStructure hinstructions hpool).2.2⟩
  · decide +kernel
  · decide +kernel

end StackCalc
