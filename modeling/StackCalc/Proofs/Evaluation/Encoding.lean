import Mathlib
import StackCalc.Evaluation
import StackCalc.Proofs.Compiler.Emission
import StackCalc.Proofs.Evaluation.Safety
import StackCalc.Proofs.Expr.Evaluation
import StackCalc.Proofs.Parser.Sizes
import StackCalc.Proofs.Program.Canonical

/-!
# Encoding compiled programs

Encoding and reading back are inverse to each other between the canonical programs and the bytes
that can be read.  Compiled programs are canonical: the compiler pools the literals of an expression
in the order in which it meets them, and gives an operand to no operation.  The only bound is on the
items of an array, whose count has to fit into eight bytes.
-/

namespace StackCalc

namespace Expr

variable {functions : Functions} {e node : Expr} {p : Program}

/-- The instruction of a node asks for the action in every program. -/
def Compiles (functions : Functions) (node : Expr) (a : Action) : Prop :=
  (∀ pool, node.instruction functions pool = a.instruction pool) ∧ node.literal? = a.constant?

theorem compiles_of_opcode_eq
    {a : Action} (hplain : ∀ pool, a.instruction pool = ⟨a.opcode, none⟩)
    (hconstant : a.constant? = none) (hoperand : ∀ pool, node.operand? pool = none)
    (hliteral : node.literal? = none) (hopcode : node.opcode functions = a.opcode) :
    Compiles functions node a := by
  constructor
  · intro pool
    rw [hplain, instruction, hopcode, hoperand]
  · rw [hliteral, hconstant]

theorem HasType.exists_compiles
    (hfunctions : functions.Consistent) {type : StaticType} (htype : node.HasType functions type)
    (hcount : node.operands.length < 2 ^ 64) : ∃ a, Compiles functions node a := by
  rcases htype with _ | @⟨offset, items, _⟩ | @⟨_, op, _, _⟩ | @⟨_, op, _, _, _, _⟩ |
    ⟨hname, hscalar, hop, _⟩ | ⟨hname, hreducer, hop, _⟩
  · exact ⟨.push _, fun _ => rfl, rfl⟩
  · have hitems : items.length < 2 ^ 64 := hcount
    refine ⟨.build (.ofNat items.length), fun pool => ?_, rfl⟩
    rw [Action.instruction, UInt64.toNat_ofNat_of_lt' hitems]
    rfl
  · obtain ⟨u, hu⟩ := op.exists_opcode_eq
    exact ⟨.unary u, compiles_of_opcode_eq (fun _ => rfl) rfl (fun _ => rfl) rfl hu⟩
  · obtain ⟨b, hb⟩ := op.exists_opcode_eq
    exact ⟨.binary b, compiles_of_opcode_eq (fun _ => rfl) rfl (fun _ => rfl) rfl hb⟩
  · rcases opcode_scalarCall hfunctions _ hname hscalar hop with ⟨-, u, hu⟩ | ⟨-, b, hb⟩
    · exact ⟨.unary u, compiles_of_opcode_eq (fun _ => rfl) rfl (fun _ => rfl) rfl hu⟩
    · exact ⟨.binary b, compiles_of_opcode_eq (fun _ => rfl) rfl (fun _ => rfl) rfl hb⟩
  · obtain ⟨r, hr⟩ := opcode_reducerCall hfunctions _ _ hname hreducer hop
    exact ⟨.reduce r, compiles_of_opcode_eq (fun _ => rfl) rfl (fun _ => rfl) rfl hr⟩

variable {nodes : List Expr} {actions : List Action}

theorem filterMap_literal?_eq (h : List.Forall₂ (Compiles functions) nodes actions) :
    nodes.filterMap literal? = actions.filterMap Action.constant? := by
  induction h with
  | nil => rfl
  | cons hnode _ ih => rw [List.filterMap_cons, List.filterMap_cons, hnode.2, ih]

theorem map_instruction_eq
    (h : List.Forall₂ (Compiles functions) nodes actions) (pool : List Binary64) :
    nodes.map (instruction functions pool) = actions.map (Action.instruction pool) := by
  induction h with
  | nil => rfl
  | cons hnode _ ih => rw [List.map_cons, List.map_cons, hnode.1 pool, ih]

/-- A compiled program is the program of the actions of the nodes. -/
theorem exists_ofActions_eq
    (hfunctions : functions.Consistent) (h : (e.compileWith functions).1 = .ok p)
    (hcount : ∀ node ∈ e.postorder, node.operands.length < 2 ^ 64) :
    ∃ actions, { p with offsets := [] } = Program.ofActions actions := by
  obtain ⟨type, htype, hconstants, hinstructions, -⟩ := compileWith_eq_ok hfunctions h
  have hnodes : ∀ node ∈ e.postorder, ∃ a, Compiles functions node a := by
    intro node hnode
    obtain ⟨nodeType, hnodeType⟩ := htype.node hnode
    exact hnodeType.exists_compiles hfunctions (hcount node hnode)
  obtain ⟨actions, hactions⟩ := exists_forall₂ hnodes
  refine ⟨actions, ?_⟩
  rw [Program.ofActions, ← filterMap_literal?_eq hactions, ← map_instruction_eq hactions,
    hinstructions, hconstants]
  rfl

end Expr

namespace Program

theorem Canonical.of_withoutOffsets {p : Program}
    (h : Canonical { p with offsets := [] }) : p.Canonical :=
  ⟨⟨h.assigned, h.slot_lt, h.count_lt⟩, h.plain, h.nodup, h.firstUses⟩

theorem exists_of_compileSource {source : String} {p : Program} (h : compileSource source = .ok p) :
    ∃ ts e, tokenize source = .ok ts ∧ Expr.ofTokens ts = .ok e ∧ e.compile = .ok p := by
  cases htokens : tokenize source with
  | error error =>
      rw [compileSource, parseSource, htokens] at h
      cases h
  | ok ts =>
      cases hread : Expr.ofTokens ts with
      | error error =>
          rw [compileSource, parseSource_eq htokens, hread] at h
          cases h
      | ok e =>
          refine ⟨ts, e, rfl, hread, ?_⟩
          rw [compileSource_eq htokens hread] at h
          cases hcompile : e.compile with
          | error failure =>
              rw [hcompile] at h
              cases h
          | ok q =>
              rw [hcompile] at h
              cases h
              rfl

/-- A program that is compiled from a source text of fewer than `2 ^ 64` characters is
canonical. -/
theorem canonical_of_compileSource {source : String} {p : Program}
    (hlength : source.length < 2 ^ 64) (h : compileSource source = .ok p) : p.Canonical := by
  obtain ⟨ts, e, htokens, hread, hcompile⟩ := exists_of_compileSource h
  have hcount : ∀ node ∈ e.postorder, node.operands.length < 2 ^ 64 := fun node hnode =>
    (length_operands_lt_of_source htokens hread hnode).trans hlength
  obtain ⟨actions, hactions⟩ :=
    Expr.exists_ofActions_eq Functions.standard_consistent hcompile hcount
  apply Canonical.of_withoutOffsets
  rw [hactions]
  exact canonical_ofActions actions

/-- Encoding and reading back are inverse to each other: bytes can be read if a program is encoded
in them, and then in the canonical one that is read.  Conversely every canonical program without
source offsets is read back as it was, and so is, apart from its source offsets, every program
that is compiled from a source text of fewer than `2 ^ 64` characters. -/
theorem bytes_bijective :
    (∀ data : List UInt8,
      (∃ q, ofBytes data = .ok q) ↔ ∃ p : Program, p.Encodable ∧ data = p.bytes) ∧
    (∀ (data : List UInt8) (q : Program), ofBytes data = .ok q →
      q.bytes = data ∧ q.Canonical ∧ q.offsets = []) ∧
    (∀ p : Program, p.Canonical → p.offsets = [] → ofBytes p.bytes = .ok p) ∧
    ∀ (source : String) (p : Program), source.length < 2 ^ 64 → compileSource source = .ok p →
      p.Canonical ∧ ofBytes p.bytes = .ok { p with offsets := [] } := by
  refine ⟨fun data => exists_ofBytes_eq_ok_iff, ?_, ?_, ?_⟩
  · intro data q h
    obtain ⟨hcanonical, hbytes, hoffsets⟩ := canonical_of_ofBytes h
    exact ⟨hbytes, hcanonical, hoffsets⟩
  · intro p h hoffsets
    rw [h.ofBytes_bytes, ← hoffsets]
  · intro source p hlength h
    have hcanonical := canonical_of_compileSource hlength h
    exact ⟨hcanonical, hcanonical.ofBytes_bytes⟩

/-- A literal that is met twice has one slot. -/
theorem bytes_bijective_repeated :
    let p : Program :=
      ⟨[⟨.pushConst, some 0⟩, ⟨.pushConst, some 1⟩, ⟨.pushConst, some 0⟩, ⟨.binary .mul, none⟩,
          ⟨.binary .sub, none⟩],
        [.ofCode false 0x3FF0000000000000, .ofCode false 0x3FE0000000000000], [0, 4, 7, 6, 2]⟩
    compileSource "1 - .5*1" = .ok p ∧ p.Canonical ∧
      ofBytes p.bytes = .ok { p with offsets := [] } := by
  intro p
  have hsource : "1 - .5*1".length < 2 ^ 64 := by
    decide
  have h : compileSource "1 - .5*1" = .ok p := by
    decide +kernel
  exact ⟨h, bytes_bijective.2.2.2 _ p hsource h⟩

end Program

end StackCalc
