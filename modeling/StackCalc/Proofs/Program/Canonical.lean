import Mathlib
import StackCalc.Machine
import StackCalc.Proofs.Program.Encoding

/-!
# Canonical programs

A program can be encoded if each of its instructions asks for an action.  Several programs ask for
the same actions: a constant may have more than one slot, slots may be out of order or unused, and
an operation may carry an operand that means nothing.  Among these programs exactly one is
canonical, apart from source offsets, and it is the one that is read back.
-/

namespace StackCalc

/-- Every opcode is assigned, every constant that is pushed has a slot of the pool, and every
count fits into eight bytes. -/
structure Program.Encodable (p : Program) : Prop where
  assigned : ∀ i ∈ p.instructions, i.opcode ∈ Opcode.assigned
  slot_lt : ∀ i ∈ p.instructions, i.opcode = .pushConst →
    ∃ slot : Nat, slot < p.constants.length ∧ i.operand = some slot
  count_lt : ∀ i ∈ p.instructions, i.opcode = .buildArray →
    ∃ count : Nat, count < 2 ^ 64 ∧ i.operand = some count

/-- The slot of the constant that an instruction pushes. -/
def Instruction.slot? (i : Instruction) : Option Nat :=
  if i.opcode = .pushConst then i.operand.map Int.toNat else none

/-- The slots of the constants that a program pushes, in the order of the instructions. -/
def Program.slots (p : Program) : List Nat := p.instructions.filterMap Instruction.slot?

/-- No constant has two slots, the slots are first used in ascending order with none left out, and
only the opcodes that need an operand have one. -/
structure Program.Canonical (p : Program) : Prop extends p.Encodable where
  plain : ∀ i ∈ p.instructions, i.opcode.hasOperand = false → i.operand = none
  nodup : p.constants.Nodup
  firstUses : FirstUseOrder p.constants.length p.slots

/-! ## The actions of a program -/

/-- The instruction, over some pool, asks for the action. -/
inductive Instruction.Asks (constants : List Binary64) : Instruction → Action → Prop where
  | push {slot : Nat} {value : Binary64} :
      constants[slot]? = some value →
      Asks constants ⟨.pushConst, some slot⟩ (.push value)
  | build (count : UInt64) :
      Asks constants ⟨.buildArray, some count.toNat⟩ (.build count)
  | unary (op : UnaryOperation) (operand : Option Int) :
      Asks constants ⟨.unary op, operand⟩ (.unary op)
  | binary (op : BinaryOperation) (operand : Option Int) :
      Asks constants ⟨.binary op, operand⟩ (.binary op)
  | reduce (op : Reducer) (operand : Option Int) :
      Asks constants ⟨.reduce op, operand⟩ (.reduce op)

/-- The instructions of a program ask for the actions, one for each. -/
def Program.Asks (p : Program) (actions : List Action) : Prop :=
  List.Forall₂ (Instruction.Asks p.constants) p.instructions actions

variable {constants : List Binary64} {i : Instruction} {a : Action} {p : Program}
  {actions : List Action}

theorem Instruction.asks_instruction
    (h : ∀ value, a.constant? = some value → value ∈ constants) :
    (a.instruction constants).Asks constants a := by
  cases a with
  | push value =>
      apply Asks.push
      have hslot := List.idxOf_lt_length_of_mem (h value rfl)
      rw [List.getElem?_eq_getElem hslot, List.getElem_idxOf hslot]
  | build count => exact .build count
  | unary op => exact .unary op none
  | binary op => exact .binary op none
  | reduce op => exact .reduce op none

theorem Instruction.Asks.bytes_eq (h : i.Asks constants a) : i.bytes constants = a.bytes := by
  cases h with
  | push hslot => simp [Instruction.bytes, Action.bytes, Action.payload, Action.opcode, hslot]
  | build count => simp [Instruction.bytes, Action.bytes, Action.payload, Action.opcode]
  | _ => rfl

theorem Instruction.Asks.eq_instruction
    (h : i.Asks constants a) (hnodup : constants.Nodup)
    (hplain : i.opcode.hasOperand = false → i.operand = none) :
    i = a.instruction constants := by
  cases h with
  | @push slot value hslot =>
      obtain ⟨hlt, rfl⟩ := List.getElem?_eq_some_iff.mp hslot
      rw [Action.instruction, hnodup.idxOf_getElem slot hlt]
  | build count => rfl
  | unary op operand => exact congrArg _ (hplain rfl)
  | binary op operand => exact congrArg _ (hplain rfl)
  | reduce op operand => exact congrArg _ (hplain rfl)

theorem Instruction.Asks.slot?_bind (h : i.Asks constants a) :
    i.slot?.bind (constants[·]?) = a.constant? := by
  cases h with
  | push hslot => simpa [Instruction.slot?, Action.constant?] using hslot
  | _ => rfl

theorem Instruction.Asks.slot_lt (h : i.Asks constants a) :
    ∀ slot, i.slot? = some slot → slot < constants.length := by
  cases h with
  | push hslot =>
      intro slot heq
      cases heq
      exact (List.getElem?_eq_some_iff.mp hslot).1
  | _ =>
      intro slot heq
      cases heq

theorem exists_forall₂ {α β : Type} {R : α → β → Prop} {xs : List α}
    (h : ∀ x ∈ xs, ∃ y, R x y) : ∃ ys, List.Forall₂ R xs ys := by
  induction xs with
  | nil => exact ⟨[], .nil⟩
  | cons x xs ih =>
      rw [List.forall_mem_cons] at h
      obtain ⟨⟨y, hy⟩, hrest⟩ := h
      obtain ⟨ys, hys⟩ := ih hrest
      exact ⟨y :: ys, .cons hy hys⟩

namespace Program

theorem Encodable.exists_asks (h : p.Encodable) : ∃ actions, p.Asks actions := by
  apply exists_forall₂
  rintro ⟨opcode, operand⟩ hi
  have hassigned := h.assigned _ hi
  cases opcode with
  | pushConst =>
      obtain ⟨slot, hslot, rfl⟩ := h.slot_lt _ hi rfl
      exact ⟨_, .push (List.getElem?_eq_getElem hslot)⟩
  | buildArray =>
      obtain ⟨count, hcount, rfl⟩ := h.count_lt _ hi rfl
      rw [← UInt64.toNat_ofNat_of_lt' hcount]
      exact ⟨_, .build _⟩
  | unary op => exact ⟨_, .unary op operand⟩
  | binary op => exact ⟨_, .binary op operand⟩
  | reduce op => exact ⟨_, .reduce op operand⟩
  | unassigned number => simp [Opcode.assigned] at hassigned

theorem Asks.exists_action (h : p.Asks actions) (hi : i ∈ p.instructions) :
    ∃ a, i.Asks p.constants a := by
  obtain ⟨n, hn, rfl⟩ := List.getElem_of_mem hi
  have hn' : n < actions.length := h.length_eq ▸ hn
  exact ⟨actions[n], h.get hn hn'⟩

theorem Asks.encodable (h : p.Asks actions) : p.Encodable where
  assigned := by
    intro i hi
    obtain ⟨a, ha⟩ := h.exists_action hi
    apply Opcode.mem_assigned
    cases ha <;> exact fun _ => Opcode.noConfusion
  slot_lt := by
    intro i hi hopcode
    obtain ⟨a, ha⟩ := h.exists_action hi
    cases ha with
    | push hslot => exact ⟨_, (List.getElem?_eq_some_iff.mp hslot).1, rfl⟩
    | _ => cases hopcode
  count_lt := by
    intro i hi hopcode
    obtain ⟨a, ha⟩ := h.exists_action hi
    cases ha with
    | build count => exact ⟨count.toNat, count.toNat_lt, rfl⟩
    | _ => cases hopcode

theorem Asks.bytes_eq (h : p.Asks actions) : p.bytes = actions.flatMap Action.bytes := by
  unfold Asks at h
  unfold bytes
  generalize p.instructions = instructions at h
  induction h with
  | nil => rfl
  | cons hi _ ih => rw [List.flatMap_cons, List.flatMap_cons, hi.bytes_eq, ih]

theorem Asks.constants_eq (h : p.Asks actions) :
    actions.filterMap Action.constant? = p.slots.filterMap (p.constants[·]?) := by
  unfold Asks at h
  unfold slots
  generalize p.instructions = instructions at h
  rw [List.filterMap_filterMap]
  induction h with
  | nil => rfl
  | cons hi _ ih => rw [List.filterMap_cons, List.filterMap_cons, hi.slot?_bind, ih]

theorem Asks.slot_lt (h : p.Asks actions) : ∀ slot ∈ p.slots, slot < p.constants.length := by
  intro slot hslot
  obtain ⟨i, hi, hslot⟩ := List.mem_filterMap.mp hslot
  obtain ⟨a, ha⟩ := h.exists_action hi
  exact ha.slot_lt slot hslot

/-! ## The canonical program of actions -/

/-- The program of actions asks for them. -/
theorem asks_ofActions (actions : List Action) : (ofActions actions).Asks actions := by
  have hslots : ∀ a ∈ actions, ∀ value, a.constant? = some value →
      value ∈ (ofActions actions).constants := by
    intro a ha value hvalue
    exact mem_foldl_pooled (List.mem_filterMap.mpr ⟨a, ha, hvalue⟩) []
  apply List.forall₂_map_left_iff.mpr
  exact List.forall₂_same.mpr fun a ha => Instruction.asks_instruction (hslots a ha)

theorem slots_ofActions (actions : List Action) :
    (ofActions actions).slots =
      (actions.filterMap Action.constant?).map (ofActions actions).constants.idxOf := by
  rw [slots, List.map_filterMap]
  change (actions.map (Action.instruction (ofActions actions).constants)).filterMap _ = _
  rw [List.filterMap_map]
  apply List.filterMap_congr
  intro a _
  cases a <;> rfl

theorem canonical_ofActions (actions : List Action) : (ofActions actions).Canonical where
  toEncodable := (asks_ofActions actions).encodable
  plain := by
    intro i hi
    obtain ⟨a, -, rfl⟩ := List.mem_map.mp hi
    cases a <;> simp [Action.instruction, Opcode.hasOperand]
  nodup := nodup_foldl_pooled List.nodup_nil _
  firstUses := by
    rw [slots_ofActions]
    exact firstUseOrder_foldl_pooled _

theorem Canonical.eq_ofActions (h : p.Canonical) (hasks : p.Asks actions) :
    { p with offsets := [] } = ofActions actions := by
  have hpool : (actions.filterMap Action.constant?).foldl pooled [] = p.constants := by
    rw [hasks.constants_eq]
    exact h.firstUses.foldl_pooled h.nodup hasks.slot_lt
  have hinstructions : p.instructions = actions.map (Action.instruction p.constants) := by
    apply List.ext_getElem
    · rw [List.length_map, hasks.length_eq]
    · intro n hn hmap
      have hn' : n < actions.length := hasks.length_eq ▸ hn
      rw [List.getElem_map]
      exact (hasks.get hn hn').eq_instruction h.nodup (h.plain _ (List.getElem_mem hn))
  rw [ofActions, hpool, hinstructions]

/-- A program that can be encoded is read back as the canonical program of its actions. -/
theorem Asks.ofBytes_bytes (h : p.Asks actions) : ofBytes p.bytes = .ok (ofActions actions) :=
  ofBytes_eq_ok_iff.mpr ⟨actions, h.bytes_eq, rfl⟩

theorem Canonical.ofBytes_bytes (h : p.Canonical) :
    ofBytes p.bytes = .ok { p with offsets := [] } := by
  obtain ⟨actions, hasks⟩ := h.exists_asks
  rw [hasks.ofBytes_bytes, h.eq_ofActions hasks]

/-- Bytes can be read if some program is encoded in them. -/
theorem exists_ofBytes_eq_ok_iff {data : List UInt8} :
    (∃ q, ofBytes data = .ok q) ↔ ∃ p : Program, p.Encodable ∧ data = p.bytes := by
  constructor
  · rintro ⟨q, hq⟩
    obtain ⟨actions, hdata, rfl⟩ := ofBytes_eq_ok_iff.mp hq
    exact ⟨ofActions actions, (canonical_ofActions actions).toEncodable,
      hdata.trans (asks_ofActions actions).bytes_eq.symm⟩
  · rintro ⟨p, hp, rfl⟩
    obtain ⟨actions, hasks⟩ := hp.exists_asks
    exact ⟨ofActions actions, hasks.ofBytes_bytes⟩

/-- A program that is read is canonical and is encoded in the bytes it was read from. -/
theorem canonical_of_ofBytes {data : List UInt8} {q : Program} (h : ofBytes data = .ok q) :
    q.Canonical ∧ q.bytes = data ∧ q.offsets = [] := by
  obtain ⟨actions, hdata, rfl⟩ := ofBytes_eq_ok_iff.mp h
  exact ⟨canonical_ofActions actions, (asks_ofActions actions).bytes_eq.trans hdata.symm, rfl⟩

end Program

end StackCalc
