import StackCalc.Program.Bytes

/-!
# Listings

A listing shows a program for reading: one line for each instruction with its index, address,
opcode byte and operand, then the pool of constants, and last the bytes in rows.
-/

namespace StackCalc

/-- What an operand refers to, for the end of its line. -/
def Instruction.remark (i : Instruction) (operand : Int) (constants : List Binary64) : String :=
  match i.opcode with
  | .pushConst =>
    let constant := if operand < 0 then none else constants[operand.toNat]?
    match constant with
    | some value => " ; " ++ value.constantText
    | none => " ; <bad constant index>"
  | .buildArray =>
    " ; " ++ integerText operand ++ " element" ++ (if operand = 1 then "" else "s")
  | _ => ""

/-- The line of an instruction with a given index and address. -/
def Instruction.line (i : Instruction) (index address : Int) (constants : List Binary64) :
    String :=
  let start :=
    zeroFillSigned 4 decimalDigits index ++ "  0x" ++ zeroFillSigned 4 hexDigits address ++
      "  " ++ String.ofList (zeroFill 2 (hexDigits i.opcode.code)) ++ "  " ++
      padRight 11 i.opcode.mnemonic
  trimRight <|
    match i.operand with
    | none => start
    | some operand =>
      start ++ " " ++ padRight 4 (integerText operand) ++ i.remark operand constants

/-- The lines of instructions of which the first has a given index and address. -/
def linesFrom (constants : List Binary64) (index address : Nat) :
    List Instruction → List String
  | [] => []
  | i :: is =>
    i.line index address constants :: linesFrom constants (index + 1) (address + i.size) is

def Program.lines (p : Program) : List String := linesFrom p.constants 0 0 p.instructions

/-- Bytes in rows of `width`, each with the address of its first byte; there are no rows without
a width. -/
def hexRows (width start : Nat) : List UInt8 → List String
  | [] => []
  | byte :: bytes =>
    if width = 0 then []
    else
      ("0x" ++ String.ofList (zeroFill 4 (hexDigits start)) ++ "  " ++
        " ".intercalate (((byte :: bytes).take width).map hexByte)) ::
        hexRows width (start + width) (bytes.drop (width - 1))
termination_by bytes => bytes.length
decreasing_by simp only [List.length_cons, List.length_drop]; omega

/-- The lines of a pool whose first constant has a given index. -/
def poolLines (index : Nat) : List Binary64 → List String
  | [] => []
  | value :: rest =>
    ("  #" ++ padRight 3 (decimalText index) ++ " " ++ value.constantText) ::
      poolLines (index + 1) rest

def Program.listing (p : Program) : String :=
  let bytes := p.bytes
  "\n".intercalate <|
    ["=== Bytecode Disassembly ===",
      "Size: " ++ decimalText bytes.length ++ " bytes",
      "Instructions: " ++ decimalText p.instructions.length ++
        "  Constants: " ++ decimalText p.constants.length ++
        "  Max stack: " ++ integerText p.maxStack,
      "",
      "IDX   ADDR    OP  INSTRUCTION"] ++
    p.lines ++
    ["", "=== Constant Pool ==="] ++
    (if p.constants.isEmpty then ["  (empty)"] else poolLines 0 p.constants) ++
    ["", "=== Hex Dump ==="] ++
    hexRows 16 0 bytes

end StackCalc
