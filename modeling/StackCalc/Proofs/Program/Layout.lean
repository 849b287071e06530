import Mathlib
import StackCalc.Program.Listing
import StackCalc.Proofs.Program.Encoding

/-!
# The layout of the bytes

The place of an instruction in the bytes of its program is computed three times: by the sizes of
the instructions before it, by writing these instructions down, and by the running address of the
listing.  The sizes are shown to be the numbers of bytes that are written, whatever the operands
are, and everything else is a sum of sizes over a beginning of the program.
-/

namespace StackCalc

variable {is : List Instruction} {i : Instruction} {index : Nat} {p : Program}

/-! ## Sizes -/

/-- The number of bytes that instructions occupy. -/
def totalSize (is : List Instruction) : Nat := (is.map Instruction.size).sum

theorem totalSize_cons (i : Instruction) (is : List Instruction) :
    totalSize (i :: is) = i.size + totalSize is := rfl

theorem Instruction.length_bytes (constants : List Binary64) (i : Instruction) :
    (i.bytes constants).length = i.size := by
  obtain ⟨opcode, operand⟩ := i
  cases opcode with
  | pushConst | buildArray =>
      simp only [bytes, List.length_cons, length_littleEndian]
      rfl
  | _ => rfl

theorem length_flatMap_bytes (constants : List Binary64) (is : List Instruction) :
    (is.flatMap (Instruction.bytes constants)).length = totalSize is := by
  rw [List.length_flatMap, totalSize]
  simp only [Instruction.length_bytes]

theorem Program.length_bytes (p : Program) : p.bytes.length = totalSize p.instructions :=
  length_flatMap_bytes p.constants p.instructions

/-! ## Addresses -/

theorem length_addressesFrom (start : Nat) (is : List Instruction) :
    (addressesFrom start is).length = is.length := by
  induction is generalizing start with
  | nil => rfl
  | cons i is ih => rw [addressesFrom, List.length_cons, ih, List.length_cons]

theorem addressesFrom_getElem? (start : Nat) (h : index < is.length) :
    (addressesFrom start is)[index]? = some (start + totalSize (is.take index)) := by
  induction is generalizing start index with
  | nil => cases h
  | cons i is ih =>
      cases index with
      | zero => rfl
      | succ index =>
          have hrest := ih (start + i.size) (Nat.lt_of_succ_lt_succ h)
          rw [addressesFrom, List.getElem?_cons_succ, hrest, List.take_succ_cons, totalSize_cons,
            Nat.add_assoc]

/-- The beginning of a program that has the given number of instructions. -/
def Program.take (p : Program) (count : Nat) : Program :=
  { p with instructions := p.instructions.take count }

theorem Program.addresses_getElem? (h : index < p.instructions.length) :
    p.addresses[index]? = some (p.take index).bytes.length := by
  rw [addresses, addressesFrom_getElem? 0 h, Nat.zero_add, length_bytes, take]

/-- At the address of an instruction stands the byte of its opcode. -/
theorem Program.bytes_getElem? (h : p.instructions[index]? = some i) :
    p.bytes[(p.take index).bytes.length]? = some (UInt8.ofNat i.opcode.code) := by
  obtain ⟨hlt, hi⟩ := List.getElem?_eq_some_iff.mp h
  have hsplit : p.instructions =
      p.instructions.take index ++ i :: p.instructions.drop (index + 1) := by
    rw [← hi, List.getElem_cons_drop, List.take_append_drop]
  have hbytes : p.bytes =
      (p.take index).bytes ++ i.bytes p.constants ++
        (p.instructions.drop (index + 1)).flatMap (Instruction.bytes p.constants) := by
    calc
      p.bytes = (p.instructions.take index ++ i :: p.instructions.drop (index + 1)).flatMap
          (Instruction.bytes p.constants) := by rw [← hsplit, bytes]
      _ = _ := by
          rw [List.flatMap_append, List.flatMap_cons, List.append_assoc]
          rfl
  rw [hbytes, List.append_assoc, List.getElem?_append_right (Nat.le_refl _), Nat.sub_self]
  rfl

/-! ## Lines -/

theorem length_linesFrom (constants : List Binary64) (first address : Nat)
    (is : List Instruction) : (linesFrom constants first address is).length = is.length := by
  induction is generalizing first address with
  | nil => rfl
  | cons i is ih => rw [linesFrom, List.length_cons, ih, List.length_cons]

theorem linesFrom_getElem? (constants : List Binary64) (first address : Nat)
    (h : is[index]? = some i) :
    (linesFrom constants first address is)[index]? =
      some (i.line (first + index : Nat) (address + totalSize (is.take index) : Nat)
        constants) := by
  induction is generalizing first address index with
  | nil => cases h
  | cons head is ih =>
      cases index with
      | zero =>
          cases h
          rfl
      | succ index =>
          have hrest := ih (first + 1) (address + head.size) h
          rw [linesFrom, List.getElem?_cons_succ, hrest, List.take_succ_cons, totalSize_cons,
            Nat.add_assoc address, Nat.add_assoc first, Nat.add_comm 1 index]

/-- The line of an instruction is written with its index and its address. -/
theorem Program.lines_getElem? (h : p.instructions[index]? = some i) :
    p.lines[index]? = some (i.line index (p.take index).bytes.length p.constants) := by
  rw [lines, linesFrom_getElem? p.constants 0 0 h, Nat.zero_add, Nat.zero_add, length_bytes,
    take]

end StackCalc
