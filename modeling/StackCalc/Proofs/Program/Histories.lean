import Mathlib
import StackCalc.Program.Indexed
import StackCalc.Proofs.Program.Encoding
import StackCalc.Proofs.Session.Reuse

/-!
# Builders over their histories

A builder may be called in any order and with any operands.  Whatever the calls were, and however
many of them were refused, its index and its pool are in step: the index knows the slots of just
those words that the pool holds.  The index is therefore not seen in what the calls give, which is
what a builder without one gives.

From this it follows that no word has two slots, that a slot keeps its word through all later calls,
and that the program so far is fit to be run.  A call that is refused leaves no trace.
-/

namespace StackCalc

open Building

/-! ## What calls leave behind -/

/-- The operand is one that the opcode calls for, over a pool of `poolSize` constants. -/
def Instruction.OperandFits (i : Instruction) (poolSize : Nat) : Prop :=
  match i.opcode with
  | .pushConst => ∃ slot : Nat, slot < poolSize ∧ i.operand = some slot
  | .buildArray => ∃ count : Nat, i.operand = some count
  | _ => i.operand = none

/-- No word has two slots, every operand fits its opcode, and every instruction has an offset. -/
structure Builder.WellFormed (b : Builder) : Prop where
  nodup : (b.constants.map Binary64.toBits).Nodup
  operand : ∀ i ∈ b.instructions, i.OperandFits b.constants.length
  offsets : b.offsets.length = b.instructions.length

/-- What a call gives and leaves behind if the builder has no index. -/
def Builder.call (b : Builder) : Call → Except EmitError Answer × Builder
  | .addConstant value => (.ok (.slot (b.addConstant value).1), (b.addConstant value).2)
  | .emit i offset =>
    match b.emit i offset with
    | .error problem => (.error problem, b)
    | .ok next => (.ok (.instruction i), next)
  | .build => (.ok (.program b.build), b)

/-- The builder after calls, whether or not they are refused. -/
def IndexedBuilder.after (b : IndexedBuilder) (calls : List Call) : IndexedBuilder :=
  calls.foldl (fun b call => ((perform call).run.run b).2) b

theorem outcomes_append (past later : List Call) (b : IndexedBuilder) :
    outcomes ((past ++ later).map perform) b =
      outcomes (past.map perform) b ++ outcomes (later.map perform) (b.after past) := by
  induction past generalizing b with
  | nil => rfl
  | cons call past ih => exact congrArg (_ :: ·) (ih _)

theorem length_outcomes (calls : List Call) (b : IndexedBuilder) :
    (outcomes (calls.map perform) b).length = calls.length := by
  induction calls generalizing b with
  | nil => rfl
  | cons call calls ih => exact congrArg (· + 1) (ih _)

/-! ## Single calls -/

section Calls

variable {b : IndexedBuilder}

theorem run_addConstant (b : IndexedBuilder) (value : Binary64) :
    (addConstant value).run.run b =
      match b.index.lookup (key value) with
      | some slot => (.ok slot, b)
      | none =>
        (.ok b.constants.length,
          { b with
            constants := b.constants ++ [value]
            index := (key value, b.constants.length) :: b.index }) := by
  rw [addConstant, run_run_bind]
  change (match b.index.lookup (key value) with
    | some slot => _
    | none => _ : Building Nat).run.run b = _
  cases b.index.lookup (key value) <;> rfl

theorem run_emit (b : IndexedBuilder) (i : Instruction) (offset : Int) :
    (emit i offset).run.run b =
      match i.problem? b.constants.length with
      | some problem => (.error problem, b)
      | none =>
        (.ok i,
          { b with
            instructions := b.instructions ++ [i]
            offsets := b.offsets ++ [offset] }) := by
  rw [emit, run_run_bind]
  change (match i.problem? b.constants.length with
    | some problem => _
    | none => _ : Building Instruction).run.run b = _
  cases i.problem? b.constants.length <;> rfl

/-! ## Indices in step with pools -/

theorem Binary64.toBits_injective : Function.Injective toBits :=
  Function.LeftInverse.injective ofBits_toBits

theorem Building.key_injective : Function.Injective key := by
  intro x y h
  apply Binary64.toBits_injective
  rw [← ofLittleEndian_littleEndian x.toBits_lt, ← ofLittleEndian_littleEndian y.toBits_lt]
  exact congrArg ofLittleEndian h

/-- The index knows the slots of just those words that the pool holds. -/
def IndexedBuilder.InStep (b : IndexedBuilder) : Prop :=
  ∀ value slot, b.index.lookup (key value) = some slot ↔ b.constants[slot]? = some value

theorem getElem?_concat_eq_some_iff {α : Type} {xs : List α} {x y : α} {place : Nat} :
    (xs ++ [x])[place]? = some y ↔ xs[place]? = some y ∨ place = xs.length ∧ x = y := by
  rcases lt_trichotomy place xs.length with hlt | rfl | hgt
  · rw [List.getElem?_append_left hlt]
    simp [hlt.ne]
  · simp
  · rw [List.getElem?_eq_none (by simp; omega), List.getElem?_eq_none hgt.le]
    simp [hgt.ne']

namespace IndexedBuilder.InStep

theorem empty : InStep {} := by
  intro value slot
  simp

theorem lookup_eq (h : b.InStep) (value : Binary64) :
    b.index.lookup (key value) = b.constants.idxOf? value := by
  cases hslot : b.constants.idxOf? value with
  | none =>
      rw [List.idxOf?_eq_none_iff] at hslot
      cases hfound : b.index.lookup (key value) with
      | none => rfl
      | some slot => exact absurd (List.mem_of_getElem? ((h value slot).mp hfound)) hslot
  | some slot =>
      obtain ⟨hlt, hvalue, -⟩ := List.idxOf?_eq_some_iff.mp hslot
      exact (h value slot).mpr (List.getElem?_eq_some_iff.mpr ⟨hlt, hvalue⟩)

theorem extend (h : b.InStep) {value : Binary64} (hnew : value ∉ b.constants) :
    InStep { b with
      constants := b.constants ++ [value]
      index := (key value, b.constants.length) :: b.index } := by
  intro other slot
  rw [getElem?_concat_eq_some_iff, ← h other slot]
  by_cases hsame : other = value
  · subst hsame
    have hnone : b.index.lookup (key other) = none := by
      rw [h.lookup_eq, List.idxOf?_eq_none_iff.mpr hnew]
    simp [hnone, eq_comm]
  · have hkey : key other ≠ key value := fun hkey => hsame (key_injective hkey)
    rw [List.lookup_cons, beq_false_of_ne hkey]
    simp [Ne.symm hsame]

end IndexedBuilder.InStep

/-- A call that is refused leaves no trace. -/
theorem eq_of_refused {call : Call} {problem : EmitError} {next : IndexedBuilder}
    (h : (perform call).run.run b = (.error problem, next)) : next = b := by
  cases call with
  | addConstant value =>
      rw [Building.perform, map_eq_pure_bind, run_run_bind, run_addConstant] at h
      cases hfound : b.index.lookup (key value) <;> rw [hfound] at h <;> cases h
  | emit i offset =>
      rw [Building.perform, map_eq_pure_bind, run_run_bind, run_emit] at h
      cases hproblem : i.problem? b.constants.length with
      | some found =>
          rw [hproblem] at h
          cases h
          rfl
      | none =>
          rw [hproblem] at h
          cases h
  | build => cases h

/-! ## Calls that keep the index in step -/

/-- If the index is in step, a call gives and leaves what it does without an index, and the index
is in step afterwards. -/
theorem IndexedBuilder.InStep.perform (h : b.InStep) (call : Call) :
    ((perform call).run.run b).1 = (b.toBuilder.call call).1 ∧
      ((perform call).run.run b).2.toBuilder = (b.toBuilder.call call).2 ∧
      ((perform call).run.run b).2.InStep := by
  cases call with
  | addConstant value =>
      have hrun := run_addConstant b value
      rw [h.lookup_eq] at hrun
      rw [Building.perform, map_eq_pure_bind, run_run_bind, hrun, Builder.call, Builder.addConstant]
      cases hslot : b.constants.idxOf? value with
      | some slot => exact ⟨rfl, rfl, h⟩
      | none => exact ⟨rfl, rfl, h.extend (List.idxOf?_eq_none_iff.mp hslot)⟩
  | emit i offset =>
      rw [Building.perform, map_eq_pure_bind, run_run_bind, run_emit, Builder.call, Builder.emit]
      cases i.problem? b.constants.length with
      | some problem => exact ⟨rfl, rfl, h⟩
      | none => exact ⟨rfl, rfl, h⟩
  | build => exact ⟨rfl, rfl, h⟩

end Calls

/-! ## Calls that keep the program fit to be run -/

theorem Instruction.OperandFits.mono
    {i : Instruction} {poolSize larger : Nat} (h : i.OperandFits poolSize)
    (hle : poolSize ≤ larger) : i.OperandFits larger := by
  obtain ⟨opcode, operand⟩ := i
  cases opcode with
  | pushConst =>
      obtain ⟨slot, hslot, hoperand⟩ := h
      exact ⟨slot, hslot.trans_le hle, hoperand⟩
  | _ => exact h

theorem Instruction.operandFits_of_problem?
    {i : Instruction} {poolSize : Nat} (h : i.problem? poolSize = none) :
    i.OperandFits poolSize := by
  obtain ⟨opcode, _ | operand⟩ := i
  · cases opcode with
    | pushConst => cases h
    | buildArray => cases h
    | _ => rfl
  · cases opcode with
    | pushConst =>
        simp only [problem?] at h
        split at h
        · cases h
        · split at h
          · cases h
          · exact ⟨operand.toNat, by omega, congrArg some (by omega)⟩
    | buildArray =>
        simp only [problem?] at h
        split at h
        · cases h
        · exact ⟨operand.toNat, congrArg some (by omega)⟩
    | _ => cases h

namespace Builder

variable {b : Builder}

theorem prefix_call (b : Builder) (call : Call) : b.constants <+: (b.call call).2.constants := by
  cases call with
  | addConstant value =>
      rw [Builder.call, addConstant_eq]
      exact prefix_pooled b.constants value
  | emit i offset =>
      rw [Builder.call, Builder.emit]
      cases i.problem? b.constants.length <;> exact List.prefix_refl b.constants
  | build => exact List.prefix_refl b.constants

theorem WellFormed.call (h : b.WellFormed) (call : Call) : (b.call call).2.WellFormed := by
  have hgrown := (prefix_call b call).length_le
  cases call with
  | addConstant value =>
      rw [Builder.call, addConstant_eq] at hgrown ⊢
      refine ⟨?_, fun i hi => (h.operand i hi).mono hgrown, h.offsets⟩
      have hpool := nodup_pooled (List.Nodup.of_map Binary64.toBits h.nodup) value
      exact hpool.map Binary64.toBits_injective
  | emit i offset =>
      rw [Builder.call, Builder.emit]
      cases hproblem : i.problem? b.constants.length with
      | some problem => exact h
      | none =>
          refine ⟨h.nodup, ?_, ?_⟩
          · intro j hj
            rcases List.mem_append.mp hj with hold | hnew
            · exact h.operand j hold
            · rw [List.mem_singleton.mp hnew]
              exact Instruction.operandFits_of_problem? hproblem
          · simp [h.offsets]
  | build => exact h

end Builder

/-! ## Histories -/

/-- From a sound state, calls lead to a sound state with a pool that has grown. -/
theorem IndexedBuilder.sound_after
    {b : IndexedBuilder} (hindex : b.InStep) (hbuilder : b.WellFormed) (calls : List Call) :
    (b.after calls).InStep ∧ (b.after calls).WellFormed ∧
      b.constants <+: (b.after calls).constants := by
  induction calls generalizing b with
  | nil => exact ⟨hindex, hbuilder, List.prefix_refl b.constants⟩
  | cons call calls ih =>
      obtain ⟨-, hvisible, hnext⟩ := hindex.perform call
      have hwell := hbuilder.call call
      have hgrown := b.prefix_call call
      rw [← hvisible] at hwell hgrown
      obtain ⟨hfinal, hwellFinal, hrest⟩ := ih hnext hwell
      exact ⟨hfinal, hwellFinal, hgrown.trans hrest⟩

/-- After any calls the program so far is well formed, and the next call gives what it does without
an index.  A constant gets a slot in which it stays, whatever is called later, and which is an old
one or the only new one.  A call that is refused changes nothing, so that without it the history
goes on as it does with it. -/
theorem IndexedBuilder.history_sound (past : List Call) :
    let b := ({} : IndexedBuilder).after past
    b.WellFormed ∧
    (∀ call, Prod.map id toBuilder ((perform call).run.run b) = b.toBuilder.call call) ∧
    (∀ value, ∃ slot next,
      (perform (.addConstant value)).run.run b = (.ok (.slot slot), next) ∧
        next.constants.length ≤ b.constants.length + 1 ∧
        ∀ later, (next.after later).constants[slot]? = some value) ∧
    ∀ call problem next, (perform call).run.run b = (.error problem, next) →
      next = b ∧ ∀ later, outcomes ((past ++ later).map perform) {} =
        (outcomes ((past ++ call :: later).map perform) {}).eraseIdx past.length := by
  intro b
  obtain ⟨hindex, hwell, -⟩ := sound_after .empty ⟨List.nodup_nil, by simp, rfl⟩ past
  refine ⟨hwell, ?_, ?_, ?_⟩
  · intro call
    obtain ⟨hanswer, hvisible, -⟩ := hindex.perform call
    exact Prod.ext hanswer hvisible
  · intro value
    obtain ⟨hanswer, hvisible, hnext⟩ := hindex.perform (.addConstant value)
    have hwellNext := hwell.call (.addConstant value)
    rw [← hvisible] at hwellNext
    refine ⟨_, _, Prod.ext hanswer rfl, ?_, ?_⟩
    · rw [hvisible, Builder.call, Builder.addConstant_eq]
      exact length_pooled_le _ _
    · intro later
      obtain ⟨-, -, rest, hrest⟩ := sound_after hnext hwellNext later
      rw [← hrest, hvisible, Builder.call, Builder.addConstant_eq]
      exact getElem?_idxOf_pooled _ _ _
  · intro call problem next h
    have hsame := eq_of_refused h
    refine ⟨hsame, fun later => ?_⟩
    rw [outcomes_append, outcomes_append, List.map_cons, outcomes, h, hsame,
      List.eraseIdx_append_of_length_le (length_outcomes past {}).le, length_outcomes,
      Nat.sub_self, List.eraseIdx_cons_zero]

/-- The two zeros have a slot each.  Pushing from a third slot is refused, and everything later is
as if it had not been tried. -/
theorem IndexedBuilder.history_sound_signed_zeros :
    let past : List Call :=
      [.addConstant .zero, .addConstant Binary64.zero.neg, .addConstant .zero,
        .emit ⟨.pushConst, some 1⟩ 5]
    let b := ({} : IndexedBuilder).after past
    let refused : Call := .emit ⟨.pushConst, some 2⟩ 8
    b.constants = [.zero, Binary64.zero.neg] ∧ b.instructions = [⟨.pushConst, some 1⟩] ∧
      b.WellFormed ∧ (perform refused).run.run b = (.error (.outsidePool 2 2), b) ∧
      ∀ later, outcomes ((past ++ later).map perform) {} =
        (outcomes ((past ++ refused :: later).map perform) {}).eraseIdx 4 := by
  intro past b refused
  have hrefused : (perform refused).run.run b = (.error (.outsidePool 2 2), b) := rfl
  obtain ⟨hwell, -, -, htrace⟩ := history_sound past
  exact ⟨rfl, rfl, hwell, hrefused, (htrace refused _ b hrefused).2⟩

end StackCalc
