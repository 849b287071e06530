import Mathlib
import StackCalc.Proofs.Compiler.Emission

/-!
# Unique readability of compiled code

The code of an expression names each node after its operands, without brackets.  It can be read
backwards all the same, because an instruction determines how many operands its node has: from the
last instruction to the first, the code of a list of expressions shows their roots one after the
other.

So a program determines its expression, up to the offsets of the nodes and up to the names by
which the same functions are called.  This needs functions that code tells apart, as the standard
ones are.
-/

namespace StackCalc

/-! ## Functions that code tells apart -/

/-- Whether an opcode belongs to literals, arrays or operators. -/
def Opcode.isBuiltIn : Opcode → Bool
  | .pushConst | .buildArray => true
  | .unary op => op ∈ [.neg, .fact]
  | .binary op => op ∈ [.add, .sub, .mul, .div, .mod, .pow]
  | _ => false

/-- An opcode that a function has for some number of arguments shows which function it is. -/
structure Functions.Distinct (functions : Functions) : Prop where
  builtIn : ∀ entry ∈ functions.entries, ∀ supplied opcode,
    entry.2.opcode? supplied = some opcode → opcode.isBuiltIn = false
  unique : ∀ entry ∈ functions.entries, ∀ other ∈ functions.entries, ∀ supplied opcode,
    entry.2.opcode? supplied = some opcode → other.2.opcode? supplied = some opcode →
      entry.2 = other.2

namespace Functions

theorem standard_distinct : standard.Distinct := by
  have hbuiltIn : ∀ entry ∈ standard.entries, ∀ pair ∈ entry.2.opcodes,
      pair.2.isBuiltIn = false := by
    decide +kernel
  have hunique : ∀ entry ∈ standard.entries, ∀ other ∈ standard.entries,
      ∀ pair ∈ entry.2.opcodes, pair ∈ other.2.opcodes → entry.2 = other.2 := by
    decide +kernel
  constructor
  · intro entry hentry supplied opcode hopcode
    exact hbuiltIn entry hentry _ (mem_of_lookup_eq_some hopcode)
  · intro entry hentry other hother supplied opcode hopcode hopcode'
    exact hunique entry hentry other hother _ (mem_of_lookup_eq_some hopcode)
      (mem_of_lookup_eq_some hopcode')

end Functions

theorem UnaryOperator.opcode_injective : Function.Injective UnaryOperator.opcode := by
  rintro (_ | _) (_ | _) h <;> first | rfl | cases h

theorem BinaryOperator.opcode_injective : Function.Injective BinaryOperator.opcode := by
  rintro (_ | _ | _ | _ | _ | _) (_ | _ | _ | _ | _ | _) h <;> first | rfl | cases h

namespace Expr

/-! ## Expressions up to spelling -/

/-- Two expressions are the same up to the offsets of their nodes and the names by which they call
the same functions. -/
inductive SameButSpelling (functions : Functions) : Expr → Expr → Prop where
  | number {offset offset' : Int} (value : Binary64) :
      SameButSpelling functions (.number offset value) (.number offset' value)
  | array {offset offset' : Int} {items items' : List Expr} :
      List.Forall₂ (SameButSpelling functions) items items' →
      SameButSpelling functions (.array offset items) (.array offset' items')
  | unary {offset offset' : Int} (op : UnaryOperator) {operand operand' : Expr} :
      SameButSpelling functions operand operand' →
      SameButSpelling functions (.unary offset op operand) (.unary offset' op operand')
  | binary {offset offset' : Int} (op : BinaryOperator) {left left' right right' : Expr} :
      SameButSpelling functions left left' →
      SameButSpelling functions right right' →
      SameButSpelling functions (.binary offset op left right) (.binary offset' op left' right')
  | call {offset offset' : Int} {name name' : String} {f : NamedFunction}
      {args args' : List Expr} :
      functions.find? name = some f →
      functions.find? name' = some f →
      List.Forall₂ (SameButSpelling functions) args args' →
      SameButSpelling functions (.call offset name args) (.call offset' name' args')

variable {functions : Functions} {e e' : Expr} {type type' : StaticType} {pool : List Binary64}

namespace SameButSpelling

theorem operands (h : SameButSpelling functions e e') :
    List.Forall₂ (SameButSpelling functions) e.operands e'.operands := by
  cases h with
  | number => exact .nil
  | array hitems => exact hitems
  | unary _ hoperand => exact .cons hoperand .nil
  | binary _ hleft hright => exact .cons hleft (.cons hright .nil)
  | call _ _ hargs => exact hargs

theorem instruction_eq (h : SameButSpelling functions e e') (pool : List Binary64) :
    e'.instruction functions pool = e.instruction functions pool := by
  have hlength := h.operands.length_eq
  cases h with
  | array => simp_all [instruction, opcode, operand?, Expr.operands]
  | call => simp_all [instruction, opcode, operand?, Expr.operands]
  | _ => rfl

theorem literal?_eq (h : SameButSpelling functions e e') : e'.literal? = e.literal? := by
  cases h <;> rfl

end SameButSpelling

/-- Nodes with the same instructions over any pool, and with the same literals. -/
structure SameCode (functions : Functions) (nodes nodes' : List Expr) : Prop where
  instructions : ∀ pool,
    nodes'.map (instruction functions pool) = nodes.map (instruction functions pool)
  literals : nodes'.filterMap literal? = nodes.filterMap literal?

theorem SameCode.append {xs xs' ys ys' : List Expr}
    (h : SameCode functions xs xs') (h' : SameCode functions ys ys') :
    SameCode functions (xs ++ ys) (xs' ++ ys') where
  instructions pool := by
    rw [List.map_append, List.map_append, h.instructions, h'.instructions]
  literals := by rw [List.filterMap_append, List.filterMap_append, h.literals, h'.literals]

theorem sameCode_postorders {es es' : List Expr}
    (h : List.Forall₂ (SameButSpelling functions) es es')
    (hes : ∀ e ∈ es, ∀ e', SameButSpelling functions e e' →
      SameCode functions e.postorder e'.postorder) :
    SameCode functions (postorders es) (postorders es') := by
  induction h with
  | nil => exact ⟨fun _ => rfl, rfl⟩
  | @cons e e' es es' hfirst _ ih =>
      rw [postorders_cons, postorders_cons]
      apply (hes e List.mem_cons_self e' hfirst).append
      exact ih fun a ha => hes a (List.mem_cons_of_mem _ ha)

theorem SameButSpelling.sameCode (h : SameButSpelling functions e e') :
    SameCode functions e.postorder e'.postorder := by
  induction e using operandInduction generalizing e' with
  | node e ih =>
      have hoperands := sameCode_postorders h.operands fun a ha a' => ih a ha
      rw [postorder_eq, postorder_eq]
      apply hoperands.append
      constructor
      · intro pool
        rw [List.map_singleton, List.map_singleton, h.instruction_eq]
      · rw [List.filterMap_cons, List.filterMap_cons, h.literal?_eq]

/-! ## Nodes by their instructions -/

theorem HasType.isBuiltIn_opcode_eq_false_iff
    (hdistinct : functions.Distinct) (h : e.HasType functions type) :
    (e.opcode functions).isBuiltIn = false ↔ ∃ offset name args, e = .call offset name args := by
  have hcall : ∀ {offset : Int} {name : String} {args : List Expr} {f : NamedFunction}
      {op : Opcode}, functions.find? name = some f → f.opcode? args.length = some op →
      ((Expr.call offset name args).opcode functions).isBuiltIn = false := by
    intro offset name args f op hname hop
    rw [opcode_call offset hname hop]
    exact hdistinct.builtIn _ (Functions.mem_entries_of_find? hname) _ _ hop
  cases h with
  | number => simp [opcode, Opcode.isBuiltIn]
  | array => simp [opcode, Opcode.isBuiltIn]
  | @unary _ op => cases op <;> simp [opcode, UnaryOperator.opcode, Opcode.isBuiltIn]
  | @binary _ op => cases op <;> simp [opcode, BinaryOperator.opcode, Opcode.isBuiltIn]
  | scalarCall hname _ hop _ => exact iff_of_true (hcall hname hop) ⟨_, _, _, rfl⟩
  | reducerCall hname _ hop _ => exact iff_of_true (hcall hname hop) ⟨_, _, _, rfl⟩

theorem HasType.kind_of_isBuiltIn
    (hdistinct : functions.Distinct) (h : e.HasType functions type)
    (hbuiltIn : (e.opcode functions).isBuiltIn = true) :
    match e.opcode functions with
    | .pushConst => ∃ offset value, e = .number offset value
    | .buildArray => ∃ offset items, e = .array offset items
    | .unary _ => ∃ offset op operand, e = .unary offset op operand
    | .binary _ => ∃ offset op left right, e = .binary offset op left right
    | _ => False := by
  have hcall : ¬ ∃ offset name args, e = .call offset name args := by
    rw [← h.isBuiltIn_opcode_eq_false_iff hdistinct, hbuiltIn]
    rintro ⟨⟩
  cases h with
  | number => exact ⟨_, _, rfl⟩
  | array => exact ⟨_, _, rfl⟩
  | @unary _ op =>
      cases op with
      | negation => exact ⟨_, _, _, rfl⟩
      | factorial => exact ⟨_, _, _, rfl⟩
  | @binary _ op => cases op <;> exact ⟨_, _, _, _, rfl⟩
  | scalarCall => exact absurd ⟨_, _, _, rfl⟩ hcall
  | reducerCall => exact absurd ⟨_, _, _, rfl⟩ hcall

/-- The number of arguments of a call is known from its opcode, and so is its function. -/
theorem HasType.call_of_opcode_eq
    (hfunctions : functions.Consistent) (hdistinct : functions.Distinct)
    {offset offset' : Int} {name name' : String} {args args' : List Expr}
    (h : (Expr.call offset name args).HasType functions type)
    (h' : (Expr.call offset' name' args').HasType functions type')
    (hopcode : (Expr.call offset' name' args').opcode functions =
      (Expr.call offset name args).opcode functions) :
    args.length = args'.length ∧
      ∃ f, functions.find? name = some f ∧ functions.find? name' = some f := by
  obtain ⟨f, op, hname, hop⟩ := h.opcode?_of_call
  obtain ⟨f', op', hname', hop'⟩ := h'.opcode?_of_call
  rw [opcode_call offset hname hop, opcode_call offset' hname' hop'] at hopcode
  subst hopcode
  have heffect := (stackEffect_of_consistent (hfunctions.of_find? hname) hop).1
  have heffect' := (stackEffect_of_consistent (hfunctions.of_find? hname') hop').1
  have hlength : args.length = args'.length := by
    rw [heffect, Prod.mk.injEq] at heffect'
    exact Int.ofNat.inj heffect'.1
  rw [hlength] at hop
  have hsame : f = f' :=
    hdistinct.unique _ (Functions.mem_entries_of_find? hname) _
      (Functions.mem_entries_of_find? hname') _ _ hop hop'
  exact ⟨hlength, f, hname, hsame ▸ hname'⟩

/-- Up to spelling, a node is known from its instruction and its operands, and the number of these
from the instruction alone. -/
theorem SameButSpelling.of_instruction_eq
    (hfunctions : functions.Consistent) (hdistinct : functions.Distinct)
    (h : e.HasType functions type) (h' : e'.HasType functions type')
    (hpool : ∀ value, e.literal? = some value → value ∈ pool)
    (hinstruction : e'.instruction functions pool = e.instruction functions pool) :
    e.operands.length = e'.operands.length ∧
      (List.Forall₂ (SameButSpelling functions) e.operands e'.operands →
        SameButSpelling functions e e') := by
  obtain ⟨hopcode, hoperand⟩ := Instruction.mk.inj hinstruction
  have hkind := h'.kind_of_isBuiltIn hdistinct
  rw [hopcode] at hkind
  have hcall : ∀ offset name args, e = .call offset name args →
      ∃ offset' name' args', e' = .call offset' name' args' := by
    intro offset name args he
    rw [← h'.isBuiltIn_opcode_eq_false_iff hdistinct, hopcode,
      h.isBuiltIn_opcode_eq_false_iff hdistinct]
    exact ⟨offset, name, args, he⟩
  cases e with
  | number offset value =>
      obtain ⟨offset', value', rfl⟩ := hkind rfl
      have hslot : pool.idxOf value = pool.idxOf value' := by
        simpa [operand?, eq_comm] using hoperand
      obtain rfl := (List.idxOf_inj (hpool value rfl)).mp hslot
      exact ⟨rfl, fun _ => .number value⟩
  | array offset items =>
      obtain ⟨offset', items', rfl⟩ := hkind rfl
      have hlength : items.length = items'.length := by
        simpa [operand?, eq_comm] using hoperand
      exact ⟨hlength, .array⟩
  | unary offset op operand =>
      obtain ⟨offset', op', operand', rfl⟩ :
          ∃ offset op operand, e' = .unary offset op operand := by
        cases op with
        | negation => exact hkind rfl
        | factorial => exact hkind rfl
      obtain rfl := UnaryOperator.opcode_injective hopcode
      refine ⟨rfl, fun hoperands => .unary op' ?_⟩
      exact (List.forall₂_cons.mp hoperands).1
  | binary offset op left right =>
      obtain ⟨offset', op', left', right', rfl⟩ :
          ∃ offset op left right, e' = .binary offset op left right := by
        cases op <;> exact hkind rfl
      obtain rfl := BinaryOperator.opcode_injective hopcode
      refine ⟨rfl, fun hoperands => ?_⟩
      obtain ⟨hleft, hrest⟩ := List.forall₂_cons.mp hoperands
      exact .binary op' hleft (List.forall₂_cons.mp hrest).1
  | call offset name args =>
      obtain ⟨offset', name', args', rfl⟩ := hcall offset name args rfl
      obtain ⟨hlength, f, hname, hname'⟩ := h.call_of_opcode_eq hfunctions hdistinct h' hopcode
      exact ⟨hlength, .call hname hname'⟩
  | hole offset => cases h

/-! ## Reading code backwards -/

/-- The nodes of a list of expressions end with the root of the last.  In front of it are the nodes
of the other expressions and of its operands. -/
theorem postorders_concat (es : List Expr) (e : Expr) :
    postorders (es ++ [e]) = postorders (es ++ e.operands) ++ [e] := by
  rw [postorders_append, postorders_append, postorders_cons, postorders_nil, List.append_nil,
    postorder_eq, List.append_assoc]

/-- Equally many expressions with the same code over a pool are the same up to spelling. -/
theorem forall₂_of_instructions_eq
    (hfunctions : functions.Consistent) (hdistinct : functions.Distinct) {es es' : List Expr}
    (hes : ∀ e ∈ es, ∃ type, e.HasType functions type)
    (hes' : ∀ e ∈ es', ∃ type, e.HasType functions type)
    (hpool : ∀ node ∈ postorders es, ∀ value, node.literal? = some value → value ∈ pool)
    (hlength : es.length = es'.length)
    (hcode : (postorders es').map (instruction functions pool) =
      (postorders es).map (instruction functions pool)) :
    List.Forall₂ (SameButSpelling functions) es es' := by
  -- The last root is taken off both lists and replaced by its operands.
  induction hnodes : (postorders es).length generalizing es es' with
  | zero =>
      have hle := length_le_length_postorders es
      obtain rfl : es = [] := List.length_eq_zero_iff.mp (by omega)
      obtain rfl : es' = [] := List.length_eq_zero_iff.mp hlength.symm
      exact .nil
  | succ nodes ih =>
      rcases List.eq_nil_or_concat' es with rfl | ⟨front, e, rfl⟩
      · rw [postorders_nil] at hnodes
        cases hnodes
      rcases List.eq_nil_or_concat' es' with rfl | ⟨front', e', rfl⟩
      · rw [List.length_append] at hlength
        cases hlength
      have hfront : front.length = front'.length := by
        simpa using hlength
      rw [postorders_concat] at hpool hnodes
      rw [postorders_concat front, postorders_concat front', List.map_append,
        List.map_append] at hcode
      obtain ⟨hbefore, hlast⟩ := List.append_inj' hcode rfl
      obtain ⟨type, htype⟩ := hes e (by simp)
      obtain ⟨type', htype'⟩ := hes' e' (by simp)
      obtain ⟨harity, hroot⟩ :=
        SameButSpelling.of_instruction_eq hfunctions hdistinct htype htype'
          (hpool e (by simp)) (List.singleton_inj.mp hlast)
      have hrest : List.Forall₂ (SameButSpelling functions) (front ++ e.operands)
          (front' ++ e'.operands) := by
        apply ih
        · intro a ha
          rcases List.mem_append.mp ha with ha | ha
          · exact hes a (List.mem_append_left _ ha)
          · exact htype.operand ha
        · intro a ha
          rcases List.mem_append.mp ha with ha | ha
          · exact hes' a (List.mem_append_left _ ha)
          · exact htype'.operand ha
        · intro node hnode
          exact hpool node (List.mem_append_left _ hnode)
        · rw [List.length_append, List.length_append, hfront, harity]
        · exact hbefore
        · rw [List.length_append, List.length_singleton] at hnodes
          exact Nat.succ.inj hnodes
      have hfronts := List.forall₂_take_append _ front' e'.operands hrest
      have hoperands := List.forall₂_drop_append _ front' e'.operands hrest
      rw [List.take_left' hfront] at hfronts
      rw [List.drop_left' hfront] at hoperands
      exact List.rel_append hfronts (.cons (hroot hoperands) .nil)

/-! ## Compiled programs -/

/-- A program compiled with consistent functions that code tells apart determines its expression up
to spelling. -/
theorem sameButSpelling_of_compileWith
    (hfunctions : functions.Consistent) (hdistinct : functions.Distinct) {p p' : Program}
    (h : (e.compileWith functions).1 = .ok p) (h' : (e'.compileWith functions).1 = .ok p') :
    p'.instructions = p.instructions ∧ p'.constants = p.constants ↔
      SameButSpelling functions e e' := by
  obtain ⟨type, htype, hconstants, hinstructions, -⟩ := compileWith_eq_ok hfunctions h
  obtain ⟨type', htype', hconstants', hinstructions', -⟩ := compileWith_eq_ok hfunctions h'
  constructor
  · rintro ⟨hcode, hpool⟩
    rw [hinstructions, hinstructions', hpool] at hcode
    have hslots : ∀ node ∈ postorders [e], ∀ value, node.literal? = some value →
        value ∈ p.constants := by
      intro node hnode value hvalue
      rw [hconstants]
      exact literal_mem_poolAll (by simpa using hnode) hvalue []
    have hboth : List.Forall₂ (SameButSpelling functions) [e] [e'] := by
      refine forall₂_of_instructions_eq hfunctions hdistinct ?_ ?_ hslots ?_ ?_
      · simpa using ⟨type, htype⟩
      · simpa using ⟨type', htype'⟩
      · rfl
      · simpa using hcode
    exact (List.forall₂_cons.mp hboth).1
  · intro hsame
    have hcode := hsame.sameCode
    have hpool : p'.constants = p.constants := by
      rw [hconstants, hconstants', poolAll, poolAll, hcode.literals]
    refine ⟨?_, hpool⟩
    rw [hinstructions, hinstructions', hpool, hcode.instructions]

/-- A compiled program has one instruction for each node of its expression, in post-order, and its
offsets are those of the nodes.  Two programs agree in their instructions and constants exactly if
their expressions are the same up to offsets and to the spelling of the names of functions. -/
theorem compile_injective {p : Program} (h : e.compile = .ok p) :
    p.instructions = e.postorder.map (instruction .standard p.constants) ∧
      p.offsets = e.postorder.map Expr.offset ∧
      ∀ (e' : Expr) (p' : Program), e'.compile = .ok p' →
        (p'.instructions = p.instructions ∧ p'.constants = p.constants ↔
          SameButSpelling .standard e e') := by
  obtain ⟨type, -, -, hinstructions, hoffsets⟩ := compileWith_eq_ok Functions.standard_consistent h
  refine ⟨hinstructions, hoffsets, ?_⟩
  intro e' p' h'
  exact sameButSpelling_of_compileWith Functions.standard_consistent Functions.standard_distinct
    h h'

/-- The expressions `-count([1, 1])` and `-len([1, 1])`, of which the second starts later, have the
same code, since both names stand for the same function. -/
theorem compile_injective_count :
    let e : Expr := .unary 0 .negation
      (.call 1 "count" [.array 7 [.number 8 .one, .number 11 .one]])
    let e' : Expr := .unary 3 .negation
      (.call 4 "len" [.array 8 [.number 9 .one, .number 12 .one]])
    let code : List Instruction := [⟨.pushConst, some 0⟩, ⟨.pushConst, some 0⟩,
      ⟨.buildArray, some 2⟩, ⟨.reduce .len, none⟩, ⟨.unary .neg, none⟩]
    let p : Program := ⟨code, [.one], [8, 11, 7, 1, 0]⟩
    let p' : Program := ⟨code, [.one], [9, 12, 8, 4, 3]⟩
    e.compile = .ok p ∧ e'.compile = .ok p' ∧ SameButSpelling .standard e e' := by
  intro e e' code p p'
  have h : e.compile = .ok p := by
    decide +kernel
  have h' : e'.compile = .ok p' := by
    decide +kernel
  exact ⟨h, h', ((compile_injective h).2.2 e' p' h').mp ⟨rfl, rfl⟩⟩

end Expr

end StackCalc
