import StackCalc.Program.Builder
import StackCalc.Text.Forms

/-!
# Programs as bytes

Each instruction is written as the byte of its opcode.  `PUSH_CONST` is followed by the word of
its constant and `BUILD_ARRAY` by its count, both in eight bytes, lowest first.  Reading the
bytes pools the constants again in the order of their first use; source offsets are not written.
-/

namespace StackCalc

/-- The lowest `count` bytes of a number, lowest first. -/
def littleEndian : (count n : Nat) → List UInt8
  | 0, _ => []
  | count + 1, n => UInt8.ofNat n :: littleEndian count (n / 256)

/-- The number whose bytes are given, lowest first. -/
def ofLittleEndian : List UInt8 → Nat
  | [] => 0
  | b :: bs => b.toNat + 256 * ofLittleEndian bs

/-- The bytes of one instruction over a pool; an operand outside its range reads as zero. -/
def Instruction.bytes (constants : List Binary64) (i : Instruction) : List UInt8 :=
  let operand := (i.operand.getD 0).toNat
  UInt8.ofNat i.opcode.code ::
    match i.opcode with
    | .pushConst => littleEndian 8 (constants.getD operand Binary64.zero).toBits
    | .buildArray => littleEndian 8 operand
    | _ => []

def Program.bytes (p : Program) : List UInt8 :=
  p.instructions.flatMap (Instruction.bytes p.constants)

inductive DecodeError where
  | unknownOpcode (byte : UInt8) (address : Nat)
  | truncated (opcode : Opcode) (address : Nat)
deriving DecidableEq

def DecodeError.message : DecodeError → String
  | .unknownOpcode byte address =>
    "Unknown opcode 0x" ++ hexByte byte ++ " at byte " ++ decimalText address
  | .truncated opcode address =>
    "Truncated " ++ opcode.mnemonic ++ " operand at byte " ++ decimalText address

namespace Builder

/-- Adds an instruction as it stands, without a source offset. -/
def append (b : Builder) (i : Instruction) : Builder :=
  { b with instructions := b.instructions ++ [i] }

/-- Reads the instructions of bytes that start at `address`. -/
def decode (b : Builder) (address : Nat) : List UInt8 → Except DecodeError Builder
  | [] => .ok b
  | byte :: rest =>
    match Opcode.ofCode? byte.toNat with
    | none => .error (.unknownOpcode byte address)
    | some opcode =>
      if opcode.hasOperand then
        if rest.length < 8 then .error (.truncated opcode (address + 1))
        else
          let word := ofLittleEndian (rest.take 8)
          let next :=
            if opcode = .pushConst then
              let (index, b) := b.addConstant (Binary64.ofBits word)
              b.append ⟨opcode, some index⟩
            else b.append ⟨opcode, some word⟩
          next.decode (address + 9) (rest.drop 8)
      else (b.append ⟨opcode, none⟩).decode (address + 1) rest
termination_by bytes => bytes.length
decreasing_by all_goals simp only [List.length_cons, List.length_drop]; omega

end Builder

/-- The program that bytes encode. -/
def Program.ofBytes (bytes : List UInt8) : Except DecodeError Program :=
  ((⟨[], [], []⟩ : Builder).decode 0 bytes).map Builder.build

end StackCalc
