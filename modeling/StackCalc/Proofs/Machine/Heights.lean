import Mathlib
import StackCalc.Proofs.Evaluation.Encoding
import StackCalc.Proofs.Machine.StepLog

/-!
# Stack effects and heights

The stack effect of an instruction is announced before anything is run, from the opcode and the
operand alone.  A step that succeeds changes the height of the stack by just what is announced,
whatever the program is, as long as no array has a negative number of elements.  Hence the heights
that the stack effects add up to are those that a run goes through, as far as it gets, and the
greatest of them bounds the stack.
-/

namespace StackCalc

/-! ## Heights as they are announced -/

/-- The announced change of the height of the stack. -/
def Instruction.growth (i : Instruction) : Int := i.stackEffect.2 - i.stackEffect.1

/-- The count of an array is not negative, if the instruction has one. -/
def Instruction.CountNonneg (i : Instruction) : Prop :=
  i.opcode = .buildArray → ∀ count, i.operand = some count → 0 ≤ count

namespace Program

/-- The height of the stack after some first instructions, as their stack effects add up. -/
def heightAfter (p : Program) (count : Nat) : Int :=
  ((p.instructions.take count).map Instruction.growth).sum

end Program

namespace Run

/-- The stacks that the log shows. -/
def shownStacks (run : Run) : List Stack :=
  run.log.flatMap fun entry => entry.before.toList ++ entry.after.toList

/-- The greatest height of a stack that the log shows. -/
def peak (run : Run) : Nat := (run.shownStacks.map List.length).foldr max 0

end Run

/-! ## The greatest announced height -/

theorem peak_le_peakHeight (height peak : Int) (is : List Instruction) :
    peak ≤ peakHeight height peak is := by
  induction is generalizing height peak with
  | nil => exact Int.le_refl peak
  | cons i is ih => exact (le_max_left peak _).trans (ih _ _)

theorem sum_growth_le_peakHeight {height peak : Int} (h : height ≤ peak)
    (is : List Instruction) (count : Nat) :
    height + ((is.take count).map Instruction.growth).sum ≤ peakHeight height peak is := by
  induction is generalizing height peak count with
  | nil => simpa [peakHeight] using h
  | cons i is ih =>
      cases count with
      | zero => simpa using h.trans (peak_le_peakHeight height peak (i :: is))
      | succ count =>
          have hrest := ih (le_max_right peak (height + i.stackEffect.2 - i.stackEffect.1)) count
          rw [List.take_succ_cons, List.map_cons, List.sum_cons, Instruction.growth, peakHeight]
          omega

/-- The peak is where it was before, or a height on the way. -/
theorem exists_peakHeight_eq (height peak : Int) (is : List Instruction) :
    peakHeight height peak is = peak ∨
      ∃ count ≤ is.length,
        peakHeight height peak is = height + ((is.take count).map Instruction.growth).sum := by
  induction is generalizing height peak with
  | nil => exact Or.inl rfl
  | cons i is ih =>
      let next := height + i.stackEffect.2 - i.stackEffect.1
      have hnext (count : Nat) : next + ((is.take count).map Instruction.growth).sum =
          height + (((i :: is).take (count + 1)).map Instruction.growth).sum := by
        rw [List.take_succ_cons, List.map_cons, List.sum_cons, Instruction.growth]
        omega
      -- The induction only sees the larger of the peak and the next height as its old peak.
      rcases ih next (max peak next) with hpeak | ⟨count, hcount, hheight⟩
      · rcases max_choice peak next with hold | hnew
        · exact Or.inl (hpeak.trans hold)
        · refine Or.inr ⟨1, by simp, ?_⟩
          rw [peakHeight, hpeak, hnew, ← hnext 0]
          simp
      · exact Or.inr ⟨count + 1, Nat.succ_le_succ hcount, hheight.trans (hnext count)⟩

namespace Program

theorem heightAfter_le_maxStack (p : Program) (count : Nat) : p.heightAfter count ≤ p.maxStack := by
  simpa [heightAfter, maxStack] using
    sum_growth_le_peakHeight (Int.le_refl 0) p.instructions count

theorem exists_maxStack_eq (p : Program) :
    ∃ count ≤ p.instructions.length, p.maxStack = p.heightAfter count := by
  rcases exists_peakHeight_eq 0 0 p.instructions with hzero | ⟨count, hcount, hheight⟩
  · exact ⟨0, Nat.zero_le _, by simpa [maxStack, heightAfter] using hzero⟩
  · exact ⟨count, hcount, by simpa [maxStack, heightAfter] using hheight⟩

theorem countNonneg_of_compileSource {p : Program} {source : String}
    (h : compileSource source = .ok p) :
    ∀ i ∈ p.instructions, i.CountNonneg := by
  obtain ⟨ts, e, -, -, hcompile⟩ := exists_of_compileSource h
  obtain ⟨type, -, -, hinstructions, -⟩ :=
    Expr.compileWith_eq_ok Functions.standard_consistent hcompile
  rw [hinstructions]
  intro i hi _ count hcount
  obtain ⟨node, -, rfl⟩ := List.mem_map.mp hi
  cases node <;> cases hcount <;> exact Int.natCast_nonneg _

end Program

/-! ## Heights after steps -/

theorem exists_of_bind_eq_ok {ε α β : Type} {x : Except ε α} {f : α → Except ε β} {b : β}
    (h : x >>= f = .ok b) : ∃ a, x = .ok a ∧ f a = .ok b := by
  cases x with
  | error e => cases h
  | ok a => exact ⟨a, rfl, h⟩

namespace Stack

variable {stack rest next : Stack}

theorem length_of_popNumber {x : Binary64} (h : popNumber stack = .ok (x, rest)) :
    stack.length = rest.length + 1 := by
  rcases stack with _ | ⟨_ | _, stack⟩ <;> cases h
  rfl

theorem length_of_popArray {items : List Binary64} (h : popArray stack = .ok (items, rest)) :
    stack.length = rest.length + 1 := by
  rcases stack with _ | ⟨_ | _, stack⟩ <;> cases h
  rfl

theorem length_of_popNumbers {items result : List Binary64} {count : Nat}
    (h : popNumbers items count stack = .ok (result, rest)) :
    stack.length = rest.length + count := by
  induction count generalizing items stack with
  | zero =>
      cases h
      rfl
  | succ count ih =>
      obtain ⟨⟨x, lower⟩, hpop, hlower⟩ := exists_of_bind_eq_ok h
      have htop := length_of_popNumber hpop
      have hrest := ih hlower
      omega

theorem length_of_pushResult {outcome : Outcome Binary64}
    (h : pushResult stack outcome = .ok next) : next.length = stack.length + 1 := by
  cases outcome <;> cases h
  rfl

end Stack

section

variable [Library] {constants : List Binary64} {i : Instruction} {stack next : Stack}

/-- A step that succeeds changes the height as its stack effect announces. -/
theorem Instruction.length_step
    (hcount : i.CountNonneg) (h : i.step constants stack = .ok next) :
    (next.length : Int) = stack.length + i.growth := by
  obtain ⟨opcode, operand⟩ := i
  cases opcode with
  | pushConst =>
      simp only [step] at h
      split at h
      · cases h
        rfl
      · cases h
  | buildArray =>
      have hnonneg : 0 ≤ operand.getD 0 := by
        cases operand with
        | none => exact Int.le_refl 0
        | some count => exact hcount rfl count rfl
      have hgrowth : growth ⟨.buildArray, operand⟩ = 1 - operand.getD 0 := rfl
      simp only [step] at h
      split at h
      · cases h
      · obtain ⟨⟨items, rest⟩, hpop, hnext⟩ := exists_of_bind_eq_ok h
        have hrest := Stack.length_of_popNumbers hpop
        cases hnext
        change ((rest.length + 1 : Nat) : Int) = _
        omega
  | unary op =>
      obtain ⟨⟨a, rest⟩, hpop, hpush⟩ := exists_of_bind_eq_ok h
      have hrest := Stack.length_of_popNumber hpop
      have hnext := Stack.length_of_pushResult hpush
      have hgrowth : growth ⟨.unary op, operand⟩ = 0 := rfl
      omega
  | binary op =>
      obtain ⟨⟨b, middle⟩, hpop, hfirst⟩ := exists_of_bind_eq_ok h
      obtain ⟨⟨a, rest⟩, hpop', hpush⟩ := exists_of_bind_eq_ok hfirst
      have hmiddle := Stack.length_of_popNumber hpop
      have hrest := Stack.length_of_popNumber hpop'
      have hnext := Stack.length_of_pushResult hpush
      have hgrowth : growth ⟨.binary op, operand⟩ = -1 := rfl
      omega
  | reduce op =>
      obtain ⟨⟨items, rest⟩, hpop, hpush⟩ := exists_of_bind_eq_ok h
      have hrest := Stack.length_of_popArray hpop
      have hnext := Stack.length_of_pushResult hpush
      have hgrowth : growth ⟨.reduce op, operand⟩ = 0 := rfl
      omega
  | unassigned number => cases h

/-- Instructions that succeed change the height by the sum of what they announce. -/
theorem length_execute {is : List Instruction} {final : Stack}
    (hcounts : ∀ i ∈ is, i.CountNonneg) (h : execute constants stack is = .ok final) :
    (final.length : Int) = stack.length + (is.map Instruction.growth).sum := by
  induction is generalizing stack with
  | nil =>
      cases h
      simp
  | cons i is ih =>
      obtain ⟨next, hstep, hrest⟩ := execute_cons_eq_ok_iff.mp h
      rw [List.forall_mem_cons] at hcounts
      have hnext := Instruction.length_step hcounts.1 hstep
      have hfinal := ih hcounts.2 hrest
      rw [List.map_cons, List.sum_cons]
      omega

/-! ## Heights of a run -/

namespace Program

variable {p : Program} {place : Nat}

/-- Every instruction is executed with success. -/
def RunsThrough (p : Program) : Prop :=
  ∀ place < p.instructions.length, ∃ stack, p.stackAfter place = some stack

theorem length_stackBefore
    (hcounts : ∀ i ∈ p.instructions, i.CountNonneg) (h : p.stackBefore place = some stack) :
    (stack.length : Int) = p.heightAfter place := by
  have hexecute := (stackBefore_eq_some_iff.mp h).2
  simpa [heightAfter] using
    length_execute (fun i hi => hcounts i (List.mem_of_mem_take hi)) hexecute

theorem length_stackAfter
    (hcounts : ∀ i ∈ p.instructions, i.CountNonneg) (h : p.stackAfter place = some stack) :
    (stack.length : Int) = p.heightAfter (place + 1) := by
  have hexecute := (stackAfter_eq_some_iff.mp h).2
  simpa [heightAfter] using
    length_execute (fun i hi => hcounts i (List.mem_of_mem_take hi)) hexecute

theorem mem_shownStacks_run :
    stack ∈ (p.run true).shownStacks ↔
      ∃ place, p.stackBefore place = some stack ∨ p.stackAfter place = some stack := by
  rw [Run.shownStacks, List.mem_flatMap]
  simp only [List.mem_append, Option.mem_toList, stackBefore, stackAfter, Option.bind_eq_some_iff]
  constructor
  · rintro ⟨entry, hentry, hshown⟩
    obtain ⟨place, hplace⟩ := List.mem_iff_getElem?.mp hentry
    exact ⟨place, hshown.imp (⟨entry, hplace, ·⟩) (⟨entry, hplace, ·⟩)⟩
  · rintro ⟨place, ⟨entry, hplace, hbefore⟩ | ⟨entry, hplace, hafter⟩⟩
    · exact ⟨entry, List.mem_of_getElem? hplace, Or.inl hbefore⟩
    · exact ⟨entry, List.mem_of_getElem? hplace, Or.inr hafter⟩

theorem peak_le_maxStack (hcounts : ∀ i ∈ p.instructions, i.CountNonneg) :
    ((p.run true).peak : Int) ≤ p.maxStack := by
  have hzero : 0 ≤ p.maxStack := by simpa [heightAfter] using p.heightAfter_le_maxStack 0
  have hstacks : ∀ n ∈ (p.run true).shownStacks.map List.length, n ≤ p.maxStack.toNat := by
    rw [List.forall_mem_map]
    intro stack hstack
    obtain ⟨place, hbefore | hafter⟩ := mem_shownStacks_run.mp hstack
    · have hheight := length_stackBefore hcounts hbefore
      have hle := p.heightAfter_le_maxStack place
      omega
    · have hheight := length_stackAfter hcounts hafter
      have hle := p.heightAfter_le_maxStack (place + 1)
      omega
  have hpeak : (p.run true).peak ≤ p.maxStack.toNat := List.max_le_of_forall_le _ _ hstacks
  omega

/-- If every instruction is executed, the stack gets as high as the stack effects add up to. -/
theorem maxStack_le_peak
    (hcounts : ∀ i ∈ p.instructions, i.CountNonneg) (h : p.RunsThrough) :
    p.maxStack ≤ (p.run true).peak := by
  obtain ⟨count, hcount, hmax⟩ := p.exists_maxStack_eq
  rw [hmax]
  cases count with
  | zero => simp [heightAfter]
  | succ place =>
      obtain ⟨stack, hafter⟩ := h place hcount
      have hstack : stack ∈ (p.run true).shownStacks :=
        mem_shownStacks_run.mpr ⟨place, Or.inr hafter⟩
      have hpeak : stack.length ≤ (p.run true).peak :=
        List.le_max_of_le (List.mem_map_of_mem hstack) (Nat.le_refl _)
      rw [← length_stackAfter hcounts hafter]
      exact_mod_cast hpeak

theorem runsThrough_of_evaluate {v : Value} (h : p.evaluate = .ok v) : p.RunsThrough := by
  have hresult := runFrom_result false p.constants p.offsets 0 [] p.instructions
  cases hexecute : execute p.constants [] p.instructions with
  | error f =>
      rw [hexecute] at hresult
      rw [evaluate, run, hresult] at h
      cases h
  | ok final =>
      intro place hplace
      obtain ⟨stack, hstack⟩ := exists_execute_take hexecute (place + 1)
      exact ⟨stack, stackAfter_eq_some_iff.mpr ⟨hplace, hstack⟩⟩

end Program

/-- The stack effects tell the heights of the stack.  Before and after every step of a run that is
reached, the stack is as high as the stack effects of the instructions so far add up to.  It is
never higher than the greatest of these sums and gets as high if every instruction is executed, so
it does for every source text that has a value. -/
theorem heights_as_announced :
    (∀ p : Program, (∀ i ∈ p.instructions, i.CountNonneg) →
      (∀ place stack, p.stackBefore place = some stack →
        (stack.length : Int) = p.heightAfter place) ∧
      (∀ place stack, p.stackAfter place = some stack →
        (stack.length : Int) = p.heightAfter (place + 1)) ∧
      ((p.run true).peak : Int) ≤ p.maxStack ∧
      (p.RunsThrough → ((p.run true).peak : Int) = p.maxStack)) ∧
    ∀ (source : String) (p : Program) (v : Value), compileSource source = .ok p →
      evaluate source = .ok v → ((p.run true).peak : Int) = p.maxStack := by
  constructor
  · intro p hcounts
    exact ⟨fun _ _ => p.length_stackBefore hcounts, fun _ _ => p.length_stackAfter hcounts,
      p.peak_le_maxStack hcounts,
      fun h => (p.peak_le_maxStack hcounts).antisymm (p.maxStack_le_peak hcounts h)⟩
  · intro source p v hcompile hvalue
    have hcounts := p.countNonneg_of_compileSource hcompile
    have hevaluate : p.evaluate = .ok v := by
      rw [evaluate, hcompile] at hvalue
      exact hvalue
    exact (p.peak_le_maxStack hcounts).antisymm
      (p.maxStack_le_peak hcounts (p.runsThrough_of_evaluate hevaluate))

end

/-- The mean of nothing breaks a run off before it gets as high as its stack effects, and a sum
that has a value gets as high as they do. -/
theorem heights_as_announced_mean_of_nothing :
    let p : Program :=
      ⟨[⟨.buildArray, none⟩, ⟨.reduce .avg, some (-1)⟩, ⟨.pushConst, some 0⟩, ⟨.pushConst, some 0⟩],
        [.one], []⟩
    let q : Program :=
      ⟨[⟨.pushConst, some 0⟩, ⟨.pushConst, some 0⟩, ⟨.pushConst, some 0⟩, ⟨.binary .add, none⟩,
        ⟨.binary .add, none⟩], [.one], [0, 3, 5, 4, 1]⟩
    (p.stackAfter 0 = some [.array []] ∧ p.heightAfter 1 = 1 ∧
      ((p.run true).peak : Int) ≤ p.maxStack ∧ (p.run true).peak = 1 ∧ p.maxStack = 3) ∧
    compileSource "1+(1+1)" = .ok q ∧ evaluate "1+(1+1)" = .ok (.number (.ofNat 3)) ∧
      ((q.run true).peak : Int) = q.maxStack ∧ q.maxStack = 3 := by
  intro p q
  obtain ⟨hprograms, hsources⟩ := heights_as_announced
  have hcounts : ∀ i ∈ p.instructions, i.CountNonneg := by
    simp [p, Instruction.CountNonneg]
  have hafter : p.stackAfter 0 = some [.array []] := by
    decide +kernel
  have hcompile : compileSource "1+(1+1)" = .ok q := by
    decide +kernel
  have hvalue : evaluate "1+(1+1)" = .ok (.number (.ofNat 3)) := by
    decide +kernel
  obtain ⟨-, hheight, hpeak, -⟩ := hprograms p hcounts
  exact ⟨⟨hafter, (hheight 0 _ hafter).symm, hpeak, by decide +kernel, by decide +kernel⟩,
    hcompile, hvalue, hsources _ q _ hcompile hvalue, by decide +kernel⟩

end StackCalc
