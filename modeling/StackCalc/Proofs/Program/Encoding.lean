import Mathlib
import StackCalc.Program.Bytes
import StackCalc.Proofs.Program.Pool

/-!
# Actions and their bytes

An action is what an instruction asks of the machine, apart from any pool: a constant stands in it
as itself and not as a slot.  Encoding a program writes down its actions, one after the other.

Bytes that can be read are the bytes of a list of actions, and reading them adds the actions to a
builder one by one.  The result is the program that has the constants of the actions pooled in the
order in which they are met.
-/

namespace StackCalc

/-! ## Words in eight bytes -/

@[simp]
theorem length_littleEndian (count n : Nat) : (littleEndian count n).length = count := by
  induction count generalizing n with
  | zero => rfl
  | succ count ih => rw [littleEndian, List.length_cons, ih]

theorem ofLittleEndian_littleEndian {count n : Nat} (h : n < 256 ^ count) :
    ofLittleEndian (littleEndian count n) = n := by
  induction count generalizing n with
  | zero =>
      rw [pow_zero, Nat.lt_one_iff] at h
      rw [h]
      rfl
  | succ count ih =>
      have hrest : n / 256 < 256 ^ count := by
        rw [pow_succ] at h
        exact Nat.div_lt_of_lt_mul (by rwa [mul_comm])
      rw [littleEndian, ofLittleEndian, ih hrest, UInt8.toNat_ofNat']
      exact Nat.mod_add_div n 256

theorem ofLittleEndian_lt (bytes : List UInt8) : ofLittleEndian bytes < 256 ^ bytes.length := by
  induction bytes with
  | nil => exact Nat.one_pos
  | cons byte bytes ih =>
      have hbyte := byte.toNat_lt
      rw [ofLittleEndian, List.length_cons, pow_succ]
      omega

theorem littleEndian_ofLittleEndian (bytes : List UInt8) :
    littleEndian bytes.length (ofLittleEndian bytes) = bytes := by
  induction bytes with
  | nil => rfl
  | cons byte bytes ih =>
      have hbyte := byte.toNat_lt
      have hlow : UInt8.ofNat (byte.toNat + 256 * ofLittleEndian bytes) = byte := by
        apply UInt8.toNat_inj.mp
        rw [UInt8.toNat_ofNat']
        omega
      have hhigh : (byte.toNat + 256 * ofLittleEndian bytes) / 256 = ofLittleEndian bytes := by
        omega
      rw [List.length_cons, ofLittleEndian, littleEndian, hlow, hhigh, ih]

namespace Binary64

theorem toBits_lt (x : Binary64) : x.toBits < 256 ^ 8 := by
  have hcode := x.code_lt
  have hweight : signBit = 0x8000000000000000 := rfl
  unfold toBits
  split
  · omega
  · omega

theorem toBits_ofBits_of_lt {bits : Nat} (h : bits < 256 ^ 8) : (ofBits bits).toBits = bits :=
  toBits_ofBits bits h

end Binary64

/-! ## Bytes of opcodes -/

theorem Opcode.toNat_ofNat_code {op : Opcode} (h : op ∈ Opcode.assigned) :
    (UInt8.ofNat op.code).toNat = op.code := by
  have hall : ∀ op ∈ Opcode.assigned, (UInt8.ofNat op.code).toNat = op.code := by decide
  exact hall op h

theorem Opcode.ofCode?_byte {op : Opcode} (h : op ∈ Opcode.assigned) :
    ofCode? (UInt8.ofNat op.code).toNat = some op := by
  rw [toNat_ofNat_code h, ofCode?_code h]

theorem Opcode.eq_ofNat_code {op : Opcode} {byte : UInt8} (h : ofCode? byte.toNat = some op) :
    byte = UInt8.ofNat op.code := by
  have hcode : op.code = byte.toNat := by simpa using List.find?_some h
  rw [hcode, UInt8.ofNat_toNat]

theorem Opcode.mem_assigned_of_hasOperand {op : Opcode} (h : op.hasOperand = true) :
    op ∈ assigned := by
  cases op <;> first | decide | cases h

/-! ## Actions -/

/-- What an instruction asks of the machine, with its constant instead of a slot. -/
inductive Action where
  | push (value : Binary64)
  | build (count : UInt64)
  | unary (op : UnaryOperation)
  | binary (op : BinaryOperation)
  | reduce (op : Reducer)
deriving DecidableEq

namespace Action

def opcode : Action → Opcode
  | .push _ => .pushConst
  | .build _ => .buildArray
  | .unary op => .unary op
  | .binary op => .binary op
  | .reduce op => .reduce op

/-- The constant that needs a slot. -/
def constant? : Action → Option Binary64
  | .push value => some value
  | _ => none

/-- The instruction of an action in a program with a given pool. -/
def instruction (pool : List Binary64) : Action → Instruction
  | .push value => ⟨.pushConst, some (pool.idxOf value)⟩
  | .build count => ⟨.buildArray, some count.toNat⟩
  | .unary op => ⟨.unary op, none⟩
  | .binary op => ⟨.binary op, none⟩
  | .reduce op => ⟨.reduce op, none⟩

/-- The bytes after the byte of the opcode. -/
def payload : Action → List UInt8
  | .push value => littleEndian 8 value.toBits
  | .build count => littleEndian 8 count.toNat
  | _ => []

def bytes (a : Action) : List UInt8 := UInt8.ofNat a.opcode.code :: a.payload

theorem opcode_mem_assigned (a : Action) : a.opcode ∈ Opcode.assigned := by
  apply Opcode.mem_assigned
  intro number
  cases a <;> exact Opcode.noConfusion

theorem instruction_eq_of_prefix
    {pool longer : List Binary64} (h : pool <+: longer) {a : Action}
    (ha : ∀ value, a.constant? = some value → value ∈ pool) :
    a.instruction longer = a.instruction pool := by
  cases a with
  | push value => rw [instruction, instruction, idxOf_eq_of_prefix h (ha value rfl)]
  | _ => rfl

end Action

/-- The program of actions, whose constants are pooled in the order in which they are met. -/
def Program.ofActions (actions : List Action) : Program :=
  let pool := (actions.filterMap Action.constant?).foldl pooled []
  ⟨actions.map (Action.instruction pool), pool, []⟩

/-! ## Reading bytes -/

namespace Builder

/-- Adds the instruction of an action, whose constant gets a slot. -/
def add (b : Builder) (a : Action) : Builder :=
  let pool := a.constant?.toList.foldl pooled b.constants
  { b with constants := pool, instructions := b.instructions ++ [a.instruction pool] }

/-- Reading the bytes of an action adds it, and what follows is read after that. -/
theorem decode_bytes (b : Builder) (address : Nat) (a : Action) (rest : List UInt8) :
    b.decode address (a.bytes ++ rest) =
      (b.add a).decode (address + a.bytes.length) rest := by
  have hbyte := Opcode.ofCode?_byte a.opcode_mem_assigned
  rw [Action.bytes, List.cons_append, decode, hbyte]
  cases a with
  | push value =>
      have hword := ofLittleEndian_littleEndian value.toBits_lt
      simp [Action.opcode, Action.payload, Opcode.hasOperand, add, append, Action.constant?,
        Action.instruction, addConstant_eq, hword, Binary64.ofBits_toBits]
  | build count =>
      have hword := @ofLittleEndian_littleEndian 8 count.toNat count.toNat_lt
      simp [Action.opcode, Action.payload, Opcode.hasOperand, add, append, Action.constant?,
        Action.instruction, hword]
  | unary op => rfl
  | binary op => rfl
  | reduce op => rfl

theorem decode_flatMap_bytes (b : Builder) (address : Nat) (actions : List Action)
    (rest : List UInt8) :
    b.decode address (actions.flatMap Action.bytes ++ rest) =
      (actions.foldl add b).decode (address + (actions.flatMap Action.bytes).length) rest := by
  induction actions generalizing b address with
  | nil => rfl
  | cons a actions ih =>
      rw [List.flatMap_cons, List.append_assoc, decode_bytes, ih, List.foldl_cons,
        List.length_append, Nat.add_assoc]

/-- Reading does not go on from the byte: it is the number of no opcode, or the operand of its
opcode is cut off. -/
def Stuck (byte : UInt8) (rest : List UInt8) : Prop :=
  Opcode.ofCode? byte.toNat = none ∨
    ∃ op : Opcode, op.hasOperand = true ∧ byte = UInt8.ofNat op.code ∧ rest.length < 8

theorem decode_unknown
    {b : Builder} {address : Nat} {byte : UInt8} (h : Opcode.ofCode? byte.toNat = none)
    (rest : List UInt8) :
    b.decode address (byte :: rest) = .error (.unknownOpcode byte address) := by
  rw [decode, h]

theorem decode_truncated
    {b : Builder} {address : Nat} {op : Opcode} {rest : List UInt8}
    (hop : op.hasOperand = true) (hrest : rest.length < 8) :
    b.decode address (UInt8.ofNat op.code :: rest) = .error (.truncated op (address + 1)) := by
  rw [decode, Opcode.ofCode?_byte (Opcode.mem_assigned_of_hasOperand hop)]
  simp only [if_pos hop, if_pos hrest]

theorem Stuck.decode_ne_ok
    {byte : UInt8} {rest : List UInt8} (h : Stuck byte rest) (b : Builder) (address : Nat)
    (final : Builder) : b.decode address (byte :: rest) ≠ .ok final := by
  intro hok
  rcases h with hunknown | ⟨op, hop, rfl, hrest⟩
  · rw [decode_unknown hunknown] at hok
    cases hok
  · rw [decode_truncated hop hrest] at hok
    cases hok

theorem exists_action_of_opcode
    {op : Opcode} (hop : op ∈ Opcode.assigned) {rest : List UInt8}
    (hrest : op.hasOperand = true → 8 ≤ rest.length) :
    ∃ (a : Action) (after : List UInt8), UInt8.ofNat op.code :: rest = a.bytes ++ after := by
  have hwrite : op.hasOperand = true →
      littleEndian 8 (ofLittleEndian (rest.take 8)) ++ rest.drop 8 = rest ∧
        ofLittleEndian (rest.take 8) < 256 ^ 8 := by
    intro hoperand
    have hlength : (rest.take 8).length = 8 := List.length_take_of_le (hrest hoperand)
    have hword := littleEndian_ofLittleEndian (rest.take 8)
    have hlt := ofLittleEndian_lt (rest.take 8)
    rw [hlength] at hword hlt
    exact ⟨by rw [hword, List.take_append_drop], hlt⟩
  cases op with
  | pushConst =>
      obtain ⟨hbytes, hlt⟩ := hwrite rfl
      refine ⟨.push (.ofBits (ofLittleEndian (rest.take 8))), rest.drop 8, ?_⟩
      rw [Action.bytes, Action.payload, Binary64.toBits_ofBits_of_lt hlt, List.cons_append, hbytes]
      rfl
  | buildArray =>
      obtain ⟨hbytes, hlt⟩ := hwrite rfl
      refine ⟨.build (.ofNat (ofLittleEndian (rest.take 8))), rest.drop 8, ?_⟩
      rw [Action.bytes, Action.payload, UInt64.toNat_ofNat_of_lt' hlt, List.cons_append, hbytes]
      rfl
  | unary op => exact ⟨.unary op, rest, rfl⟩
  | binary op => exact ⟨.binary op, rest, rfl⟩
  | reduce op => exact ⟨.reduce op, rest, rfl⟩
  | unassigned number => simp [Opcode.assigned] at hop

/-- Reading stops at the next byte, or that byte begins the bytes of an action. -/
theorem stuck_or_continues (byte : UInt8) (rest : List UInt8) :
    Stuck byte rest ∨ ∃ (a : Action) (after : List UInt8), byte :: rest = a.bytes ++ after := by
  cases hop : Opcode.ofCode? byte.toNat with
  | none => exact Or.inl (Or.inl hop)
  | some op =>
      have hbyte := Opcode.eq_ofNat_code hop
      by_cases hshort : op.hasOperand = true ∧ rest.length < 8
      · exact Or.inl (Or.inr ⟨op, hshort.1, hbyte, hshort.2⟩)
      · have hlong : op.hasOperand = true → 8 ≤ rest.length := by
          intro hoperand
          by_contra hlt
          exact hshort ⟨hoperand, Nat.lt_of_not_le hlt⟩
        rw [hbyte]
        exact Or.inr (exists_action_of_opcode (List.mem_of_find?_eq_some hop) hlong)

/-- All bytes are those of some actions, up to their end or to a byte from which reading does not
go on. -/
theorem exists_actions (bytes : List UInt8) :
    ∃ (actions : List Action) (tail : List UInt8),
      bytes = actions.flatMap Action.bytes ++ tail ∧
        ∀ byte rest, tail = byte :: rest → Stuck byte rest := by
  induction hlength : bytes.length using Nat.strong_induction_on generalizing bytes with
  | _ length ih =>
    cases bytes with
    | nil => exact ⟨[], [], rfl, by simp⟩
    | cons byte rest =>
        rcases stuck_or_continues byte rest with hstuck | ⟨a, after, hbytes⟩
        · refine ⟨[], byte :: rest, rfl, ?_⟩
          intro byte' rest' hsame
          cases hsame
          exact hstuck
        · -- What is left after an action is shorter, for each has the byte of its opcode.
          have hshorter : after.length < length := by
            rw [← hlength, hbytes, Action.bytes, List.cons_append, List.length_cons,
              List.length_append]
            omega
          obtain ⟨actions, tail, hafter, htail⟩ := ih after.length hshorter after rfl
          refine ⟨a :: actions, tail, ?_, htail⟩
          rw [hbytes, hafter, List.flatMap_cons, List.append_assoc]

theorem decode_eq_ok_iff {b final : Builder} {address : Nat} {bytes : List UInt8} :
    b.decode address bytes = .ok final ↔
      ∃ actions : List Action,
        bytes = actions.flatMap Action.bytes ∧ actions.foldl add b = final := by
  constructor
  · intro h
    obtain ⟨actions, tail, rfl, htail⟩ := exists_actions bytes
    rw [decode_flatMap_bytes] at h
    cases tail with
    | nil =>
        rw [decode] at h
        exact ⟨actions, List.append_nil _, Except.ok.inj h⟩
    | cons byte rest => exact absurd h ((htail byte rest rfl).decode_ne_ok _ _ _)
  · rintro ⟨actions, rfl, rfl⟩
    have hall := decode_flatMap_bytes b address actions []
    rw [List.append_nil] at hall
    rw [hall, decode]

theorem foldl_add (b : Builder) (actions : List Action) :
    let pool := (actions.filterMap Action.constant?).foldl pooled b.constants
    actions.foldl add b =
      { b with
        constants := pool
        instructions := b.instructions ++ actions.map (Action.instruction pool) } := by
  induction actions generalizing b with
  | nil => simp
  | cons a actions ih =>
      intro pool
      have hpool : pool = (actions.filterMap Action.constant?).foldl pooled
          (b.add a).constants := by
        cases hconstant : a.constant? with
        | none => simp [pool, add, hconstant]
        | some value => simp [pool, add, hconstant]
      have hslot : a.instruction pool = a.instruction (b.add a).constants := by
        apply Action.instruction_eq_of_prefix
        · rw [hpool]
          exact prefix_foldl_pooled _ _
        · intro value hvalue
          rw [add, hvalue]
          exact mem_pooled_self b.constants value
      rw [List.foldl_cons, ih (b.add a), ← hpool, List.map_cons, hslot]
      simp [add]

end Builder

/-- The bytes that can be read are those of actions, and reading them gives the program of the
actions. -/
theorem Program.ofBytes_eq_ok_iff {bytes : List UInt8} {p : Program} :
    Program.ofBytes bytes = .ok p ↔
      ∃ actions : List Action, bytes = actions.flatMap Action.bytes ∧ p = .ofActions actions := by
  have hbuild : ∀ actions : List Action,
      (actions.foldl Builder.add ⟨[], [], []⟩).build = .ofActions actions := by
    intro actions
    rw [Builder.foldl_add]
    rfl
  unfold Program.ofBytes
  constructor
  · intro h
    cases hdecode : (⟨[], [], []⟩ : Builder).decode 0 bytes with
    | error e =>
        rw [hdecode] at h
        cases h
    | ok final =>
        rw [hdecode] at h
        cases h
        obtain ⟨actions, hbytes, rfl⟩ := Builder.decode_eq_ok_iff.mp hdecode
        exact ⟨actions, hbytes, hbuild actions⟩
  · rintro ⟨actions, hbytes, rfl⟩
    rw [Builder.decode_eq_ok_iff.mpr ⟨actions, hbytes, rfl⟩, ← hbuild]
    rfl

end StackCalc
