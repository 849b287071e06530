import Mathlib
import StackCalc.Proofs.Compiler.Acceptance
import StackCalc.Proofs.Compiler.Correctness
import StackCalc.Proofs.Machine.Trace

/-!
# Type safety

With consistent functions, neither the compilation of an expression without holes nor the run of
the compiled program ends in a fault.  The machine has no types, but the stack follows those of the
compiler: the code of a subtree pushes one value of the type that the compiler gives to the subtree,
onto the stack on which the code begins.
-/

namespace StackCalc

namespace Expr

variable {functions : Functions} {e a : Expr} {p : Program} {type : StaticType}

/-! ## Emission -/

theorem height_le_of_compileWith
    (hfunctions : functions.Consistent) (hcomplete : e.isComplete = true)
    (h : (e.compileWith functions).1 = .ok p) : e.height ≤ maxTreeDepth := by
  rcases compileWith_reports hfunctions hcomplete with ⟨-, hnil⟩ | ⟨error, herror, -⟩
  · have hheight := ((violations_eq_nil_iff hfunctions hcomplete).mp hnil).2
    rwa [Nat.zero_add] at hheight
  · rw [h] at herror
    cases herror

/-- Between the code of the nodes in front of a subtree and that of the nodes behind it, the
compiler emits the code of the subtree. -/
theorem exists_emit_eq
    (hfunctions : functions.Consistent) (htype : a.HasType functions type)
    (hheight : a.height ≤ maxTreeDepth) (front back : List Expr) :
    let pool := poolAll [] (front ++ a.postorder ++ back)
    ∃ s final, (a.emit functions).run.run s = (.ok type, final) ∧
      s.builder.instructions = front.map (instruction functions pool) ∧
      final.builder.instructions = (front ++ a.postorder).map (instruction functions pool) := by
  intro pool
  let s : Emitted :=
    { builder :=
        { instructions := front.map (instruction functions pool), constants := poolAll [] front } }
  have hends := emit_ends hfunctions a s (le_refl 0)
  unfold Emission.Ends at hends
  cases houtcome : (a.emit functions).run.run s with
  | mk result final =>
      rw [houtcome] at hends
      cases result with
      | error failure =>
          have hlimit : 0 + a.height ≤ maxTreeDepth := by
            rwa [Nat.zero_add]
          exact absurd ⟨type, htype, hlimit⟩ hends.2
      | ok found =>
          obtain ⟨hfound, hextends⟩ := hends
          cases hfound.unique htype
          refine ⟨s, final, houtcome, rfl, ?_⟩
          have hconstants : final.builder.constants = poolAll [] (front ++ a.postorder) := by
            rw [hextends.constants, poolAll_append]
          have hgrows : final.builder.constants <+: pool := by
            rw [hconstants]
            change _ <+: poolAll [] (front ++ a.postorder ++ back)
            rw [poolAll_append [] (front ++ a.postorder)]
            exact prefix_poolAll _ back
          have hslots : ∀ node ∈ a.postorder, ∀ value, node.literal? = some value →
              value ∈ final.builder.constants := by
            intro node hnode value hvalue
            rw [hextends.constants]
            exact literal_mem_poolAll hnode hvalue _
          rw [hextends.instructions, List.map_append,
            map_instruction_eq_of_prefix functions hgrows hslots]

theorem exists_code_eq
    (hfunctions : functions.Consistent) (h : (e.compileWith functions).1 = .ok p) {place : Nat}
    (ha : e.postorder[place]? = some a) :
    ∃ front back, front.length + a.postorder.length = place + 1 ∧
      p.constants = poolAll [] (front ++ a.postorder ++ back) ∧
      p.instructions = front.map (instruction functions p.constants) ++
        a.postorder.map (instruction functions p.constants) ++
        back.map (instruction functions p.constants) := by
  obtain ⟨-, -, hconstants, hinstructions, -⟩ := compileWith_eq_ok hfunctions h
  obtain ⟨front, back, hsplit, hlength⟩ := exists_postorder_eq e ha
  refine ⟨front, back, hlength, ?_, ?_⟩
  · rw [hconstants, hsplit]
  · rw [hinstructions, hsplit, List.map_append, List.map_append]

theorem exists_emit_eq_ok
    (hfunctions : functions.Consistent) (h : (e.compileWith functions).1 = .ok p) :
    ∃ type, ((e.emit functions).run.run {}).1 = .ok type ∧ e.HasType functions type := by
  rw [compileWith_fst hfunctions] at h
  have hends := emit_ends hfunctions e {} (le_refl 0)
  unfold Emission.Ends at hends
  generalize (e.emit functions).run.run {} = outcome at hends h ⊢
  obtain ⟨result, final⟩ := outcome
  cases result with
  | error failure => cases h
  | ok type => exact ⟨type, rfl, hends.1⟩

end Expr

/-! ## Runs -/

section

variable [Library]

/-- The steps of a program from `first` to `last` belong to a subtree to which the compiler gives a
type. -/
structure Program.Subrun (functions : Functions) (p : Program) (a : Expr) (type : StaticType)
    (first last : Nat) : Prop where
  /-- The compiler goes on from the instructions before `first` with those up to `last`. -/
  emitted : ∃ s final, (a.emit functions).run.run s = (.ok type, final) ∧
    s.builder.instructions = p.instructions.take first ∧
    final.builder.instructions = p.instructions.take (last + 1)
  /-- Whenever the last step succeeds, the stack has grown by one value of the type. -/
  pushed : ∀ after, p.stackAfter last = some after →
    ∃ v before, p.stackBefore first = some before ∧ after = v :: before ∧ v.type = type

namespace Expr

variable {functions : Functions} {e a : Expr} {p : Program} {type : StaticType}

theorem exists_eq_cons_of_execute
    (hfunctions : functions.Consistent) (htype : a.HasType functions type) {pool : List Binary64}
    (hpool : ∀ node ∈ a.postorder, ∀ value, node.literal? = some value → value ∈ pool)
    {before after : Stack}
    (h : execute pool before (a.postorder.map (instruction functions pool)) = .ok after) :
    ∃ v, after = v :: before ∧ v.type = type := by
  have hexecutes := executes_postorder hfunctions a htype hpool
  cases hvalue : a.value functions with
  | ok v =>
      rw [hvalue] at hexecutes
      rw [hexecutes before] at h
      cases h
      exact ⟨v, rfl, htype.type_of_value hfunctions hvalue⟩
  | error failure =>
      rw [hvalue] at hexecutes
      obtain ⟨place, node, cause, -, -, hexecute⟩ := hexecutes
      rw [hexecute before] at h
      cases h

theorem exists_subrun
    (hfunctions : functions.Consistent) (hcomplete : e.isComplete = true)
    (h : (e.compileWith functions).1 = .ok p) {place : Nat}
    (ha : e.postorder[place]? = some a) :
    ∃ type first, p.Subrun functions a type first place := by
  obtain ⟨rootType, hroot, -⟩ := compileWith_eq_ok hfunctions h
  obtain ⟨front, back, hlength, hconstants, hcode⟩ := exists_code_eq hfunctions h ha
  have hmem : a ∈ e.postorder := List.mem_of_getElem? ha
  obtain ⟨type, htype⟩ := hroot.node hmem
  have hheight : a.height ≤ maxTreeDepth :=
    (height_le_of_mem_postorder hmem).trans (height_le_of_compileWith hfunctions hcomplete h)
  refine ⟨type, front.length, ?_, ?_⟩
  · obtain ⟨s, final, hemit, hs, hfinal⟩ := exists_emit_eq hfunctions htype hheight front back
    rw [← hconstants] at hs hfinal
    refine ⟨s, final, hemit, ?_, ?_⟩
    · rw [hs, hcode, List.append_assoc, List.take_left' (List.length_map _)]
    · rw [hfinal, hcode, ← List.map_append, List.take_left']
      rw [List.length_map, List.length_append, hlength]
  · intro after hafter
    have hnodes : a.postorder.map (instruction functions p.constants) ≠ [] := by
      have hself := mem_postorder_self a
      rw [ne_eq, List.map_eq_nil_iff]
      exact List.ne_nil_of_mem hself
    obtain ⟨before, hbefore, hexecute⟩ :=
      Program.exists_stackBefore hcode (by rwa [List.length_map, List.length_map]) hnodes hafter
    rw [List.length_map] at hbefore
    have hpool : ∀ node ∈ a.postorder, ∀ value, node.literal? = some value →
        value ∈ p.constants := by
      intro node hnode value hvalue
      rw [hconstants]
      exact literal_mem_poolAll (by simp [hnode]) hvalue []
    obtain ⟨v, hv, hvtype⟩ := exists_eq_cons_of_execute hfunctions htype hpool hexecute
    exact ⟨v, before, hbefore, hv, hvtype⟩

/-- The run of a compiled program ends with a value of the type that the compiler gives to the
expression, or with an error. -/
theorem run_compileWith_typed
    (hfunctions : functions.Consistent) (h : (e.compileWith functions).1 = .ok p)
    (verbose : Bool) :
    (∀ fault, (p.run verbose).result ≠ .error (.fault fault)) ∧
      ∀ v, (p.run verbose).result = .ok v → ((e.emit functions).run.run {}).1 = .ok v.type := by
  have hrun := run_compileWith hfunctions h verbose
  cases hvalue : e.value functions with
  | ok v =>
      rw [hvalue] at hrun
      rw [hrun]
      constructor
      · rintro fault ⟨⟩
      · rintro w ⟨⟩
        obtain ⟨type, hemit, htype⟩ := exists_emit_eq_ok hfunctions h
        rw [hemit, htype.type_of_value hfunctions hvalue]
  | error failure =>
      rw [hvalue] at hrun
      obtain ⟨place, node, cause, -, hresult⟩ := hrun
      rw [hresult]
      constructor
      · rintro fault ⟨⟩
      · rintro v ⟨⟩

/-- The standard functions are consistent.  With any consistent functions, no expression without
holes makes the compiler fault, and no compiled program makes the machine fault.  A value that the
program leaves has the type that the compiler gives to the expression, and the code of every
subtree pushes one value of its type. -/
theorem consistent_type_safe :
    Functions.standard.Consistent ∧
      ∀ functions : Functions, functions.Consistent → ∀ e : Expr, e.isComplete = true →
        (∀ fault, (e.compileWith functions).1 ≠ .error (.fault fault)) ∧
        ∀ p, (e.compileWith functions).1 = .ok p →
          (∀ verbose fault, (p.run verbose).result ≠ .error (.fault fault)) ∧
          (∀ verbose v, (p.run verbose).result = .ok v →
            ((e.emit functions).run.run {}).1 = .ok v.type) ∧
          ∀ place a, e.postorder[place]? = some a →
            ∃ type first, p.Subrun functions a type first place := by
  refine ⟨Functions.standard_consistent, fun functions hfunctions e hcomplete => ?_⟩
  refine ⟨compileWith_ne_fault hfunctions hcomplete, fun p h => ⟨?_, ?_, ?_⟩⟩
  · exact fun verbose => (run_compileWith_typed hfunctions h verbose).1
  · exact fun verbose => (run_compileWith_typed hfunctions h verbose).2
  · exact fun place a ha => exists_subrun hfunctions hcomplete h ha

end Expr

end

/-- With the sum under another name, in `2 * total([1, 1])` the array is built onto the factor. -/
theorem Expr.consistent_type_safe_total :
    let functions := (⟨[]⟩ : Functions).reduce "total" .sum
    let two : Binary64 := .ofCode false 0x4000000000000000
    let items : Expr := .array 10 [.number 11 .one, .number 14 .one]
    let e : Expr := .binary 2 .times (.number 0 two) (.call 4 "total" [items])
    let p : Program :=
      ⟨[⟨.pushConst, some 0⟩, ⟨.pushConst, some 1⟩, ⟨.pushConst, some 1⟩, ⟨.buildArray, some 2⟩,
        ⟨.reduce .sum, none⟩, ⟨.binary .mul, none⟩], [two, .one], [0, 11, 14, 10, 4, 2]⟩
    functions.Consistent ∧ e.isComplete = true ∧ (e.compileWith functions).1 = .ok p ∧
      p.run.result = .ok (.number (.ofCode false 0x4010000000000000)) ∧
      ((e.emit functions).run.run {}).1 = .ok .number ∧
      ∃ type first, p.Subrun functions items type first 3 := by
  intro functions two items e p
  have hempty : (⟨[]⟩ : Functions).Consistent := by
    intro entry hentry
    cases hentry
  have hfunctions : functions.Consistent := hempty.reduce "total" .sum []
  have hcomplete : e.isComplete = true := by
    decide +kernel
  have hcompile : (e.compileWith functions).1 = .ok p := by
    decide +kernel
  have hresult : p.run.result = .ok (.number (.ofCode false 0x4010000000000000)) := by
    decide +kernel
  obtain ⟨-, htyped, hsubruns⟩ :=
    (Expr.consistent_type_safe.2 functions hfunctions e hcomplete).2 p hcompile
  have hitems : e.postorder[3]? = some items := by
    simp [e, items, postorder]
  exact ⟨hfunctions, hcomplete, hcompile, hresult, htyped false _ hresult, hsubruns 3 items hitems⟩

end StackCalc
