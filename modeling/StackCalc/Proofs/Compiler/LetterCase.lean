import Mathlib
import StackCalc.Proofs.Compiler.Emission
import StackCalc.Proofs.Parser.LetterCase

/-!
# Letter case in the compiler

The compiler looks at the name of a call only to find the function of that name, whatever the case
of its letters.  So it emits for an expression with its names in lower case what it emits for the
expression, and fails where it fails for the expression.
-/

namespace StackCalc

theorem Functions.find?_toLower (functions : Functions) (name : String) :
    functions.find? name.toLower = functions.find? name := by
  rw [find?, find?, toLower_toLower]

def CompileCause.lowered : CompileCause → CompileCause
  | .unknownFunction name => .unknownFunction name.toLower
  | cause => cause

def CompileError.lowered (e : CompileError) : CompileError := { e with cause := e.cause.lowered }

def CompileFailure.lowered : CompileFailure → CompileFailure
  | .error e => .error e.lowered
  | .fault f => .fault f

namespace Emission

variable {α β : Type}

/-- The part with what it fails with in lower case. -/
def lowered (part : Emission α) : Emission α := part.adapt CompileFailure.lowered

theorem ext_run {part part' : Emission α} (h : ∀ s, part.run.run s = part'.run.run s) :
    part = part' := funext h

theorem run_lowered (part : Emission α) (s : Emitted) :
    part.lowered.run.run s =
      ((part.run.run s).1.mapError CompileFailure.lowered, (part.run.run s).2) := rfl

theorem lowered_bind (part : Emission α) (rest : α → Emission β) :
    lowered (part >>= rest) = part.lowered >>= fun a => (rest a).lowered := by
  apply ext_run
  intro s
  rw [run_run_bind, run_lowered, run_lowered, run_run_bind]
  obtain ⟨result, middle⟩ := part.run.run s
  cases result <;> rfl

theorem lowered_get_bind (rest : Emitted → Emission α) :
    lowered (get >>= rest) = get >>= fun s => (rest s).lowered :=
  lowered_bind get rest

theorem lowered_emit (opcode : Opcode) (operand : Option Int) (offset : Int) :
    lowered (emit opcode operand offset) = emit opcode operand offset := by
  unfold emit
  rw [lowered_get_bind]
  congr 1
  funext s
  by_cases hdepth : s.depth < (opcode.stackEffect operand).1
  · simp only [if_pos hdepth]
    rfl
  · simp only [if_neg hdepth]
    cases s.builder.emit ⟨opcode, operand⟩ offset <;> rfl

theorem lowered_nested (offset : Int) (part : Emission α) :
    lowered (nested offset part) = nested offset part.lowered := by
  unfold nested
  rw [lowered_bind, lowered_get_bind]
  congr 1
  funext _
  congr 1
  funext s
  by_cases hdeep : maxTreeDepth < s.nesting
  · simp only [if_pos hdeep]
    rfl
  · simp only [if_neg hdeep]
    rfl

theorem lowered_expect (type : StaticType) (cause : CompileCause) (offset : Int)
    (part : Emission StaticType) :
    lowered (expect type cause offset part) = expect type cause.lowered offset part.lowered := by
  unfold expect
  rw [lowered_bind]
  congr 1
  funext found
  split
  · rfl
  · rfl

end Emission

namespace Expr

open Emission

variable {functions : Functions}

theorem offset_lowered (e : Expr) : e.lowered.offset = e.offset := by
  cases e <;> rfl

theorem length_loweredAll (es : List Expr) : (loweredAll es).length = es.length := by
  rw [loweredAll_eq, List.length_map]

theorem emitNumbers_lowered
    (es : List Expr) (hes : ∀ a ∈ es, a.lowered.emit functions = (a.emit functions).lowered)
    (cause : CompileCause) (hcause : cause.lowered = cause) :
    emitNumbers functions cause (loweredAll es) = (emitNumbers functions cause es).lowered := by
  induction es with
  | nil => rfl
  | cons e es ih =>
      have hfirst := hes e List.mem_cons_self
      have hrest := ih fun a ha => hes a (List.mem_cons_of_mem e ha)
      rw [loweredAll, emitNumbers, emitNumbers, lowered_bind, lowered_expect, hcause, hfirst, hrest,
        offset_lowered]

theorem emitArray_lowered
    (es : List Expr) (hes : ∀ a ∈ es, a.lowered.emit functions = (a.emit functions).lowered)
    (name : String) :
    emitArray functions name (loweredAll es) = (emitArray functions name es).lowered := by
  cases es with
  | nil => rfl
  | cons e es =>
      rw [loweredAll, emitArray, emitArray, lowered_expect, hes e List.mem_cons_self,
        offset_lowered]
      rfl

/-- The code of an expression with its names in lower case. -/
theorem emit_lowered (functions : Functions) (e : Expr) :
    e.lowered.emit functions = (e.emit functions).lowered := by
  induction e using operandInduction with
  | node e ih =>
      cases e with
      | number offset value =>
          rw [lowered, Expr.emit, lowered_nested, lowered_bind]
          congr 2
          funext slot
          rw [lowered_bind, lowered_emit]
          rfl
      | array offset items =>
          have hitems := emitNumbers_lowered items ih .arrayElement rfl
          rw [lowered, Expr.emit, Expr.emit, lowered_nested, hitems, length_loweredAll,
            lowered_bind, lowered_bind, lowered_emit]
          rfl
      | unary offset op operand =>
          have hoperand := ih operand (by simp [operands])
          rw [lowered, Expr.emit, Expr.emit, lowered_nested, hoperand, offset_lowered,
            lowered_bind, lowered_expect, lowered_bind, lowered_emit]
          rfl
      | binary offset op left right =>
          have hleft := ih left (by simp [operands])
          have hright := ih right (by simp [operands])
          rw [lowered, Expr.emit, Expr.emit, lowered_nested, hleft, hright, offset_lowered,
            offset_lowered, lowered_bind, lowered_expect, lowered_bind, lowered_expect,
            lowered_bind, lowered_emit]
          rfl
      | call offset name args =>
          rw [lowered, Expr.emit, Expr.emit, lowered_nested, Functions.find?_toLower,
            length_loweredAll]
          congr 1
          cases functions.find? name with
          | none => rfl
          | some f =>
              cases hop : f.opcode? args.length with
              | none =>
                  simp only [NamedFunction.opcodeFor, hop]
                  rfl
              | some op =>
                  have harray := emitArray_lowered args ih f.name
                  have hnumbers := emitNumbers_lowered args ih (.arrayOperand f.name) rfl
                  cases hreducer : f.reducer with
                  | true =>
                      simp only [NamedFunction.opcodeFor, hop, hreducer, if_true]
                      rw [harray, lowered_bind, lowered_bind, lowered_emit]
                      rfl
                  | false =>
                      simp only [NamedFunction.opcodeFor, hop, hreducer, Bool.false_eq_true,
                        if_false]
                      rw [hnumbers, lowered_bind, lowered_bind, lowered_emit]
                      rfl
      | hole offset =>
          rw [lowered, Expr.emit, lowered_nested]
          rfl

theorem compileWith_lowered (functions : Functions) (e : Expr) :
    e.lowered.compileWith functions =
      ((e.compileWith functions).1.mapError CompileFailure.lowered,
        (e.compileWith functions).2) := by
  rw [compileWith, compileWith, emit_lowered, run_lowered]
  obtain ⟨failure | type, final⟩ := (e.emit functions).run.run {}
  · rfl
  · by_cases hdepth : final.depth = 1
    · simp only [Except.mapError, if_pos hdepth]
    · simp only [Except.mapError, if_neg hdepth]
      rfl

end Expr

end StackCalc
