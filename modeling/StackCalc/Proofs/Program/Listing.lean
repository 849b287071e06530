import Mathlib
import StackCalc.Proofs.Program.Canonical
import StackCalc.Proofs.Program.Layout
import StackCalc.Proofs.Text.Fields

/-!
# Listings agree with the bytes

A line of a listing begins with the index, the address and the opcode byte of its instruction, and
a row of bytes begins with the address of its first byte.  All of them are read back here from the
texts alone, past the widths of their fields and from last rows that are not full.

A row has room for `width` bytes, so the byte at an address stands in row `address / width`, in
place `address % width`.  Together with the layout of the bytes this finds the opcode of each
instruction at the address that its line shows.
-/

namespace StackCalc

/-! ## Lines -/

/-- The index, the address and the byte that a line begins with. -/
def readLine? (line : String) : Option (Nat × Nat × UInt8) :=
  match words line.toList with
  | index :: address :: byte :: _ => do
      let index ← readNumber? 10 index
      let address ← readAddress? address
      let byte ← readByte? byte
      some (index, address, byte)
  | _ => none

theorem toList_zeroFillSigned (width : Nat) (digits : Nat → List Char) (n : Nat) :
    (zeroFillSigned width digits n).toList = zeroFill width (digits n) := by
  have hsign : ¬ (n : Int) < 0 := by omega
  rw [zeroFillSigned, if_neg hsign, Int.natAbs_natCast, String.toList_ofList]

/-- The front of a line, up to the mnemonic. -/
def lineFront (index address code : Nat) : List Char :=
  zeroFill 4 (decimalDigits index) ++ ' ' :: ' ' ::
    (addressField address ++ ' ' :: ' ' :: (zeroFill 2 (hexDigits code) ++ [' ', ' ']))

theorem exists_line_eq (i : Instruction) (index address : Nat) (constants : List Binary64) :
    ∃ tail : String, i.line index address constants =
      trimRight (String.ofList (lineFront index address i.opcode.code) ++ tail) := by
  have hstart : zeroFillSigned 4 decimalDigits index ++ "  0x" ++
      zeroFillSigned 4 hexDigits address ++ "  " ++
      String.ofList (zeroFill 2 (hexDigits i.opcode.code)) ++ "  " =
        String.ofList (lineFront index address i.opcode.code) := by
    rw [← String.toList_inj]
    simp [toList_zeroFillSigned, lineFront, addressField]
  rw [Instruction.line, hstart]
  cases i.operand with
  | none => exact ⟨_, rfl⟩
  | some operand =>
      refine ⟨padRight 11 i.opcode.mnemonic ++ " " ++ padRight 4 (integerText operand) ++
        i.remark operand constants, ?_⟩
      simp only [String.append_assoc]

theorem words_lineFront_append (index address code : Nat) (tail : List Char) :
    words (lineFront index address code ++ tail) =
      zeroFill 4 (decimalDigits index) :: addressField address ::
        zeroFill 2 (hexDigits code) :: words tail := by
  have hindex := words_of_readNumber? (readNumber?_decimalDigits 4 index)
  have haddress := words_addressField address
  have hcode := words_of_readNumber? (readNumber?_hexDigits 2 code)
  simp [lineFront, hindex, haddress, hcode]

/-- The line of an instruction with an assigned opcode is read back. -/
theorem readLine?_line {i : Instruction} (h : i.opcode ∈ Opcode.assigned) (index address : Nat)
    (constants : List Binary64) :
    readLine? (i.line index address constants) =
      some (index, address, UInt8.ofNat i.opcode.code) := by
  obtain ⟨tail, hline⟩ := exists_line_eq i index address constants
  have hbyte : readByte? (zeroFill 2 (hexDigits i.opcode.code)) =
      some (UInt8.ofNat i.opcode.code) := by
    have hread := readByte?_hexByte (UInt8.ofNat i.opcode.code)
    rwa [hexByte, String.toList_ofList, Opcode.toNat_ofNat_code h] at hread
  rw [readLine?, hline, words_trimRight, String.toList_append, String.toList_ofList,
    words_lineFront_append]
  simp [readNumber?_decimalDigits, readAddress?_addressField, hbyte]

/-! ## Rows -/

/-- The row of bytes of which the first has a given address. -/
def hexRow (start : Nat) (bytes : List UInt8) : String :=
  "0x" ++ String.ofList (zeroFill 4 (hexDigits start)) ++ "  " ++
    " ".intercalate (bytes.map hexByte)

/-- The address and the bytes of a row. -/
def readRow? (row : String) : Option (Nat × List UInt8) :=
  match words row.toList with
  | address :: bytes => do
      let address ← readAddress? address
      let bytes ← bytes.mapM readByte?
      some (address, bytes)
  | [] => none

/-- The bytes of rows, in order. -/
def readRows? (rows : List String) : Option (List UInt8) :=
  (rows.mapM readRow?).map (·.flatMap Prod.snd)

theorem mapM_readByte? (bytes : List UInt8) :
    (bytes.map fun byte => (hexByte byte).toList).mapM readByte? = some bytes := by
  induction bytes with
  | nil => rfl
  | cons byte bytes ih =>
      rw [List.map_cons, List.mapM_cons, readByte?_hexByte, ih]
      rfl

theorem readRow?_hexRow (start : Nat) (bytes : List UInt8) :
    readRow? (hexRow start bytes) = some (start, bytes) := by
  have htext : (hexRow start bytes).toList =
      addressField start ++ ' ' :: ' ' ::
        [' '].intercalate (bytes.map fun byte => (hexByte byte).toList) := by
    simp [hexRow, addressField, Function.comp_def]
  have hbytes : words ([' '].intercalate (bytes.map fun byte => (hexByte byte).toList)) =
      bytes.map fun byte => (hexByte byte).toList := by
    apply words_intercalate
    intro w hw
    obtain ⟨byte, -, rfl⟩ := List.mem_map.mp hw
    exact words_hexByte byte
  rw [readRow?, htext, words_append_space, words_space, words_addressField, hbytes,
    List.singleton_append]
  simp only [readAddress?_addressField, mapM_readByte?]
  rfl

/-! ## All rows of some bytes -/

section Rows

variable {width : Nat}

theorem hexRows_nil (width start : Nat) : hexRows width start [] = [] := by
  rw [hexRows]

theorem hexRows_of_ne_nil (hwidth : 0 < width) (start : Nat) {data : List UInt8}
    (hdata : data ≠ []) :
    hexRows width start data =
      hexRow start (data.take width) :: hexRows width (start + width) (data.drop width) := by
  obtain ⟨byte, bytes, rfl⟩ := List.exists_cons_of_ne_nil hdata
  have hdrop : (byte :: bytes).drop width = bytes.drop (width - 1) :=
    List.drop_cons hwidth
  rw [hexRows, if_neg (Nat.ne_of_gt hwidth), hexRow, hdrop]

/-- Induction that takes the first row off the data. -/
theorem row_induction {motive : List UInt8 → Prop} (hwidth : 0 < width) (nil : motive [])
    (row : ∀ data, data ≠ [] → motive (data.drop width) → motive data) (data : List UInt8) :
    motive data := by
  induction hlength : data.length using Nat.strongRecOn generalizing data with
  | ind length ih =>
      by_cases hdata : data = []
      · rw [hdata]
        exact nil
      · have hpos := List.length_pos_of_ne_nil hdata
        refine row data hdata (ih (data.drop width).length ?_ _ rfl)
        rw [List.length_drop]
        omega

theorem ceilDiv_eq_succ (hwidth : 0 < width) {length : Nat} (hlength : 0 < length) :
    length ⌈/⌉ width = (length - width) ⌈/⌉ width + 1 := by
  rw [Nat.ceilDiv_eq_add_pred_div, Nat.ceilDiv_eq_add_pred_div, ← Nat.add_div_right _ hwidth]
  by_cases hle : width ≤ length
  · congr 1
    omega
  · -- The only row is not full: one row on the left, and none after it on the right.
    have hsplit : length + width - 1 = length - 1 + width := by omega
    have hnone : length - width + width - 1 + width = width - 1 + width := by omega
    rw [hsplit, hnone, Nat.add_div_right _ hwidth, Nat.add_div_right _ hwidth,
      Nat.div_eq_of_lt (by omega), Nat.div_eq_of_lt (by omega)]

theorem hexRows_eq_map_range (hwidth : 0 < width) (start : Nat) (data : List UInt8) :
    hexRows width start data =
      (List.range (data.length ⌈/⌉ width)).map fun r =>
        hexRow (start + r * width) ((data.drop (r * width)).take width) := by
  induction data using row_induction hwidth generalizing start with
  | nil =>
      have hnone : ([] : List UInt8).length ⌈/⌉ width = 0 := zero_ceilDiv width
      rw [hexRows_nil, hnone, List.range_zero, List.map_nil]
  | row data hdata ih =>
      have hrows := ceilDiv_eq_succ hwidth (List.length_pos_of_ne_nil hdata)
      rw [hexRows_of_ne_nil hwidth start hdata, ih, hrows, List.range_succ_eq_map,
        List.map_cons, List.map_map, List.length_drop, Nat.zero_mul, Nat.add_zero,
        List.drop_zero, List.cons_inj_right]
      -- A row of the rest has one number more among all rows.
      apply List.map_congr_left
      intro r _
      have hstart : start + width + r * width = start + (r + 1) * width := by
        rw [Nat.succ_mul, Nat.add_assoc, Nat.add_comm width]
      have hdrop : (data.drop width).drop (r * width) = data.drop ((r + 1) * width) := by
        rw [List.drop_drop, Nat.succ_mul, Nat.add_comm width]
      rw [Function.comp_apply, hstart, hdrop]

theorem length_hexRows (hwidth : 0 < width) (start : Nat) (data : List UInt8) :
    (hexRows width start data).length = data.length ⌈/⌉ width := by
  rw [hexRows_eq_map_range hwidth, List.length_map, List.length_range]

/-- A row is labelled with the address of its first byte and has the bytes that follow. -/
theorem readRow?_of_getElem? (hwidth : 0 < width) {start r : Nat} {data : List UInt8}
    {row : String} (h : (hexRows width start data)[r]? = some row) :
    readRow? row = some (start + r * width, (data.drop (r * width)).take width) := by
  obtain ⟨hlt, hrow⟩ := List.getElem?_eq_some_iff.mp h
  simp only [hexRows_eq_map_range hwidth, List.getElem_map, List.getElem_range] at hrow
  rw [← hrow, readRow?_hexRow]

/-- The bytes of all rows are the data. -/
theorem readRows?_hexRows (hwidth : 0 < width) (start : Nat) (data : List UInt8) :
    readRows? (hexRows width start data) = some data := by
  induction data using row_induction hwidth generalizing start with
  | nil =>
      rw [hexRows_nil]
      rfl
  | row data hdata ih =>
      obtain ⟨rows, hrows, hbytes⟩ := Option.map_eq_some_iff.mp (ih (start + width))
      have hmapM : (hexRows width start data).mapM readRow? =
          some ((start, data.take width) :: rows) := by
        rw [hexRows_of_ne_nil hwidth start hdata, List.mapM_cons, readRow?_hexRow, hrows]
        rfl
      rw [readRows?, hmapM, Option.map_some, List.flatMap_cons, hbytes, List.take_append_drop]

theorem exists_row_of_getElem? (hwidth : 0 < width) {data : List UInt8} {address : Nat}
    {byte : UInt8} (h : data[address]? = some byte) :
    ∃ row bytes,
      (hexRows width 0 data)[address / width]? = some row ∧
      readRow? row = some (address / width * width, bytes) ∧
      bytes[address % width]? = some byte := by
  obtain ⟨hlt, -⟩ := List.getElem?_eq_some_iff.mp h
  have hrow : address / width < (hexRows width 0 data).length := by
    rw [length_hexRows hwidth, ← Nat.succ_le_iff, Nat.ceilDiv_eq_add_pred_div,
      Nat.le_div_iff_mul_le hwidth, Nat.succ_mul]
    have hdiv := Nat.div_mul_le_self address width
    omega
  have hread := readRow?_of_getElem? hwidth (List.getElem?_eq_getElem hrow)
  rw [Nat.zero_add] at hread
  refine ⟨_, _, List.getElem?_eq_getElem hrow, hread, ?_⟩
  rw [List.getElem?_take_of_lt (Nat.mod_lt address hwidth), List.getElem?_drop,
    Nat.div_add_mod', h]

end Rows

/-! ## Listings and bytes -/

theorem Program.Encodable.exists_line {p : Program} (h : p.Encodable) {index : Nat}
    {i : Instruction} (hi : p.instructions[index]? = some i) :
    ∃ address byte line,
      p.addresses[index]? = some address ∧
      address = (p.take index).bytes.length ∧
      p.bytes[address]? = some byte ∧
      byte.toNat = i.opcode.code ∧
      p.lines[index]? = some line ∧
      readLine? line = some (index, address, byte) := by
  have hassigned := h.assigned i (List.mem_of_getElem? hi)
  have hlt : index < p.instructions.length := (List.getElem?_eq_some_iff.mp hi).1
  exact ⟨_, _, _, Program.addresses_getElem? hlt, rfl, Program.bytes_getElem? hi,
    Opcode.toNat_ofNat_code hassigned, Program.lines_getElem? hi,
    readLine?_line hassigned index _ p.constants⟩

/-- A listing agrees with the bytes.  Every instruction of a program that can be encoded has one
line, in order, from which its index, its address and its opcode byte are read back; the address
is the number of bytes that the instructions before it are written in, and the byte is found there,
in the bytes and in their rows.  The rows of any data, `width` bytes to a row, are labelled with
the multiples of `width` and are read back as the data. -/
theorem listing_agrees_with_bytes :
    (∀ p : Program, p.Encodable →
      p.addresses.length = p.instructions.length ∧
      p.lines.length = p.instructions.length ∧
      (p.instructions.map Instruction.size).sum = p.bytes.length ∧
      ∀ index i, p.instructions[index]? = some i →
        ∃ address byte line,
          p.addresses[index]? = some address ∧
          address = (p.take index).bytes.length ∧
          p.bytes[address]? = some byte ∧
          byte.toNat = i.opcode.code ∧
          p.lines[index]? = some line ∧
          readLine? line = some (index, address, byte) ∧
          ∀ width, 1 ≤ width → ∃ row bytes,
            (hexRows width 0 p.bytes)[address / width]? = some row ∧
            readRow? row = some (address / width * width, bytes) ∧
            bytes[address % width]? = some byte) ∧
    ∀ (width : Nat) (data : List UInt8), 1 ≤ width →
      (hexRows width 0 data).length = data.length ⌈/⌉ width ∧
      (∀ r row, (hexRows width 0 data)[r]? = some row →
        readRow? row = some (r * width, (data.drop (r * width)).take width)) ∧
      readRows? (hexRows width 0 data) = some data := by
  constructor
  · intro p h
    refine ⟨length_addressesFrom 0 p.instructions, length_linesFrom p.constants 0 0 _,
      p.length_bytes.symm, ?_⟩
    intro index i hi
    obtain ⟨address, byte, line, haddress, hbefore, hbyte, hcode, hline, hread⟩ :=
      h.exists_line hi
    exact ⟨address, byte, line, haddress, hbefore, hbyte, hcode, hline, hread,
      fun width hwidth => exists_row_of_getElem? hwidth hbyte⟩
  · intro width data hwidth
    refine ⟨length_hexRows hwidth 0 data, ?_, readRows?_hexRows hwidth 0 data⟩
    intro r row hrow
    rw [readRow?_of_getElem? hwidth hrow, Nat.zero_add]

/-- The last instruction of a constant, an array and its sum: its line shows address 18, and the
third byte of the second row is its opcode. -/
theorem listing_agrees_with_bytes_sum :
    let p : Program :=
      { instructions := [⟨.pushConst, some 0⟩, ⟨.buildArray, some 1⟩, ⟨.reduce .sum, none⟩]
        constants := [Binary64.zero] }
    p.Encodable ∧
    (∃ line, p.lines[2]? = some line ∧ readLine? line = some (2, 18, 0x40)) ∧
    (∃ row bytes, (hexRows 16 0 p.bytes)[1]? = some row ∧ readRow? row = some (16, bytes) ∧
      bytes[2]? = some 0x40) ∧
    readRows? (hexRows 16 0 p.bytes) = some p.bytes := by
  intro p
  have hasks : p.Asks [.push Binary64.zero, .build 1, .reduce .sum] :=
    .cons (.push rfl) (.cons (.build 1) (.cons (.reduce .sum none) .nil))
  obtain ⟨-, -, -, hlines⟩ := listing_agrees_with_bytes.1 p hasks.encodable
  obtain ⟨address, byte, line, haddress, -, -, hcode, hline, hread, hrows⟩ := hlines 2 _ rfl
  have haddress' : address = 18 := (Option.some.inj haddress).symm
  have hbyte : byte = 0x40 := UInt8.toNat_inj.mp hcode
  subst haddress' hbyte
  exact ⟨hasks.encodable, ⟨line, hline, hread⟩, hrows 16 (by decide),
    (listing_agrees_with_bytes.2 16 p.bytes (by decide)).2.2⟩

end StackCalc
