import Mathlib
import StackCalc.Proofs.Program.Encoding

/-!
# Bytes that cannot be read

Reading goes on from instruction to instruction.  It stops at a byte that is the number of no
opcode, or at an opcode whose operand is not all there.  Up to this place the bytes can be read by
themselves, and there is no other such place.

The two reasons differ in what would help: nothing that may follow makes sense of an unknown byte,
while an operand that is cut off is completed by any bytes that are as many as are missing.
-/

namespace StackCalc

/-! ## Places where reading stops -/

/-- The bytes are those of a program. -/
def Readable (data : List UInt8) : Prop := ∃ p, Program.ofBytes data = .ok p

/-- At the place there is a byte that is the number of no opcode. -/
def UnknownAt (data : List UInt8) (place : Nat) (byte : UInt8) : Prop :=
  data[place]? = some byte ∧ ∀ op ∈ Opcode.assigned, op.code ≠ byte.toNat

/-- At the place there is an opcode with an operand, and fewer than eight bytes after it. -/
def TruncatedAt (data : List UInt8) (place : Nat) (op : Opcode) : Prop :=
  op.hasOperand = true ∧ data[place]? = some (UInt8.ofNat op.code) ∧
    (data.drop (place + 1)).length < 8

variable {data rest : List UInt8} {place : Nat} {byte : UInt8} {op : Opcode} {e : DecodeError}

theorem readable_iff :
    Readable data ↔ ∃ actions : List Action, data = actions.flatMap Action.bytes := by
  simp only [Readable, Program.ofBytes_eq_ok_iff]
  constructor
  · rintro ⟨p, actions, hbytes, -⟩
    exact ⟨actions, hbytes⟩
  · rintro ⟨actions, hbytes⟩
    exact ⟨_, actions, hbytes, rfl⟩

theorem Opcode.ofCode?_eq_none_iff {code : Nat} :
    ofCode? code = none ↔ ∀ op ∈ assigned, op.code ≠ code := by
  simp [ofCode?, List.find?_eq_none]

theorem Builder.exists_decode_operand (b : Builder) (address : Nat) (hop : op.hasOperand = true)
    (hrest : rest.length = 8) :
    ∃ final, b.decode address (UInt8.ofNat op.code :: rest) = .ok final := by
  have hlong : ¬ rest.length < 8 := by omega
  have hend : rest.drop 8 = [] := List.drop_eq_nil_of_le hrest.le
  rw [decode, Opcode.ofCode?_byte (Opcode.mem_assigned_of_hasOperand hop)]
  simp only [if_pos hop, if_neg hlong, hend, decode]
  exact ⟨_, rfl⟩

/-! ## Where reading stops -/

theorem exists_ofBytes_eq
    (hread : Readable (data.take place)) (hbyte : data[place]? = some byte) :
    ∃ b : Builder, Program.ofBytes data =
      (b.decode place (byte :: data.drop (place + 1))).map Builder.build := by
  obtain ⟨actions, hfront⟩ := readable_iff.mp hread
  obtain ⟨hplace, hvalue⟩ := List.getElem?_eq_some_iff.mp hbyte
  have hlength : (actions.flatMap Action.bytes).length = place := by
    rw [← hfront, List.length_take_of_le hplace.le]
  have hdata : data = actions.flatMap Action.bytes ++ byte :: data.drop (place + 1) := by
    rw [← hfront, ← hvalue, ← List.drop_eq_getElem_cons hplace, List.take_append_drop]
  refine ⟨actions.foldl Builder.add ⟨[], [], []⟩, ?_⟩
  conv_lhs => rw [hdata]
  rw [Program.ofBytes, Builder.decode_flatMap_bytes, hlength, Nat.zero_add]

theorem ofBytes_of_unknownAt
    (hread : Readable (data.take place)) (h : UnknownAt data place byte) :
    Program.ofBytes data = .error (.unknownOpcode byte place) := by
  obtain ⟨b, hbytes⟩ := exists_ofBytes_eq hread h.1
  rw [hbytes, Builder.decode_unknown (Opcode.ofCode?_eq_none_iff.mpr h.2)]
  rfl

theorem ofBytes_of_truncatedAt
    (hread : Readable (data.take place)) (h : TruncatedAt data place op) :
    Program.ofBytes data = .error (.truncated op (place + 1)) := by
  obtain ⟨b, hbytes⟩ := exists_ofBytes_eq hread h.2.1
  rw [hbytes, Builder.decode_truncated h.1 h.2.2]
  rfl

/-- Bytes that cannot be read have a place at which reading stops. -/
theorem exists_place_of_ofBytes (h : Program.ofBytes data = .error e) :
    ∃ place, Readable (data.take place) ∧
      ((∃ byte, UnknownAt data place byte) ∨ ∃ op, TruncatedAt data place op) := by
  obtain ⟨actions, tail, rfl, htail⟩ := Builder.exists_actions data
  cases tail with
  | nil =>
      obtain ⟨p, hp⟩ := readable_iff.mpr ⟨actions, rfl⟩
      rw [List.append_nil, hp] at h
      cases h
  | cons byte rest =>
      refine ⟨(actions.flatMap Action.bytes).length, ?_, ?_⟩
      · rw [List.take_left]
        exact readable_iff.mpr ⟨actions, rfl⟩
      · rcases htail byte rest rfl with hunknown | ⟨op, hop, rfl, hrest⟩
        · exact Or.inl ⟨byte, by simp, Opcode.ofCode?_eq_none_iff.mp hunknown⟩
        · refine Or.inr ⟨op, hop, by simp, ?_⟩
          rw [List.length_drop, List.length_append, List.length_cons]
          omega

/-- There is no other place at which reading stops. -/
theorem place_unique {other : Nat}
    (hread : Readable (data.take place)) (hother : Readable (data.take other))
    (h : (∃ byte, UnknownAt data place byte) ∨ ∃ op, TruncatedAt data place op)
    (h' : (∃ byte, UnknownAt data other byte) ∨ ∃ op, TruncatedAt data other op) :
    other = place := by
  rcases h with ⟨byte, h⟩ | ⟨op, h⟩ <;> rcases h' with ⟨byte', h'⟩ | ⟨op', h'⟩
  · have hsame := (ofBytes_of_unknownAt hother h').symm.trans (ofBytes_of_unknownAt hread h)
    cases hsame
    rfl
  · have hsame := (ofBytes_of_truncatedAt hother h').symm.trans (ofBytes_of_unknownAt hread h)
    cases hsame
  · have hsame := (ofBytes_of_unknownAt hother h').symm.trans (ofBytes_of_truncatedAt hread h)
    cases hsame
  · have hsame := (ofBytes_of_truncatedAt hother h').symm.trans (ofBytes_of_truncatedAt hread h)
    cases hsame
    rfl

/-! ## What may follow -/

theorem not_readable_of_unknownAt
    (hread : Readable (data.take place)) (h : UnknownAt data place byte) (rest : List UInt8) :
    ¬ Readable (data.take (place + 1) ++ rest) := by
  have hplace := (List.getElem?_eq_some_iff.mp h.1).1
  have hlength : (data.take (place + 1)).length = place + 1 := List.length_take_of_le hplace
  have hfront : (data.take (place + 1) ++ rest).take place = data.take place := by
    rw [List.take_append_of_le_length (by omega), List.take_take]
    congr 1
    omega
  have hbyte : UnknownAt (data.take (place + 1) ++ rest) place byte := by
    refine ⟨?_, h.2⟩
    rw [List.getElem?_append_left (by omega), List.getElem?_take_of_lt (Nat.lt_succ_self place)]
    exact h.1
  rintro ⟨p, hp⟩
  rw [ofBytes_of_unknownAt (by rwa [hfront]) hbyte] at hp
  cases hp

/-- An operand that is cut off is completed by any bytes that are as many as are missing. -/
theorem readable_of_truncatedAt
    (hread : Readable (data.take place)) (h : TruncatedAt data place op) {more : List UInt8}
    (hmore : data.length + more.length = place + 9) : Readable (data ++ more) := by
  have hplace := (List.getElem?_eq_some_iff.mp h.2.1).1
  have hfront : Readable ((data ++ more).take place) := by
    rwa [List.take_append_of_le_length hplace.le]
  have hbyte : (data ++ more)[place]? = some (UInt8.ofNat op.code) := by
    rw [List.getElem?_append_left hplace]
    exact h.2.1
  have hrest : ((data ++ more).drop (place + 1)).length = 8 := by
    rw [List.length_drop, List.length_append]
    omega
  obtain ⟨b, hbytes⟩ := exists_ofBytes_eq hfront hbyte
  obtain ⟨final, hfinal⟩ := b.exists_decode_operand place h.1 hrest
  exact ⟨final.build, by rw [hbytes, hfinal]; rfl⟩

/-- If bytes cannot be read, there is exactly one place up to which they can and from which reading
does not go on, and the message names it.  Either the byte there is the number of no opcode, and
nothing that begins with these bytes can be read, or the operand of the opcode there is cut off, and
the missing bytes may be any. -/
theorem ofBytes_error_exact (h : Program.ofBytes data = .error e) :
    ∃ place < data.length, Readable (data.take place) ∧
      (∀ other, Readable (data.take other) →
        ((∃ byte, UnknownAt data other byte) ∨ ∃ op, TruncatedAt data other op) →
          other = place) ∧
      ((∃ byte, UnknownAt data place byte ∧
          e.message = "Unknown opcode 0x" ++ hexByte byte ++ " at byte " ++ decimalText place ∧
          ∀ rest, ¬ Readable (data.take (place + 1) ++ rest)) ∨
        ∃ op, TruncatedAt data place op ∧
          e.message = "Truncated " ++ op.mnemonic ++ " operand at byte " ++
            decimalText (place + 1) ∧
          ∀ more : List UInt8, data.length + more.length = place + 9 →
            Readable (data ++ more)) := by
  obtain ⟨place, hread, hstops⟩ := exists_place_of_ofBytes h
  have hunique : ∀ other, Readable (data.take other) →
      ((∃ byte, UnknownAt data other byte) ∨ ∃ op, TruncatedAt data other op) → other = place :=
    fun other hother hstops' => place_unique hread hother hstops hstops'
  rcases hstops with ⟨byte, hunknown⟩ | ⟨op, htruncated⟩
  · have hsame := h.symm.trans (ofBytes_of_unknownAt hread hunknown)
    cases hsame
    exact ⟨place, (List.getElem?_eq_some_iff.mp hunknown.1).1, hread, hunique,
      Or.inl ⟨byte, hunknown, rfl, not_readable_of_unknownAt hread hunknown⟩⟩
  · have hsame := h.symm.trans (ofBytes_of_truncatedAt hread htruncated)
    cases hsame
    exact ⟨place, (List.getElem?_eq_some_iff.mp htruncated.2.1).1, hread, hunique,
      Or.inr ⟨op, htruncated, rfl, fun more => readable_of_truncatedAt hread htruncated⟩⟩

/-- After an addition, a count of which the last byte is missing. -/
theorem ofBytes_error_exact_seven_bytes :
    let data : List UInt8 := [0x10, 0x04, 5, 0, 0, 0, 0, 0, 0]
    Program.ofBytes data = .error (.truncated .buildArray 2) ∧ TruncatedAt data 1 .buildArray ∧
      ∀ byte, Readable (data ++ [byte]) := by
  intro data
  have hread : Readable (data.take 1) := readable_iff.mpr ⟨[.binary .add], rfl⟩
  have htruncated : TruncatedAt data 1 .buildArray := ⟨rfl, rfl, by decide⟩
  have h : Program.ofBytes data = .error (.truncated .buildArray 2) :=
    ofBytes_of_truncatedAt hread htruncated
  obtain ⟨place, -, -, hunique, hreason⟩ := ofBytes_error_exact h
  have hplace : 1 = place := hunique 1 hread (Or.inr ⟨_, htruncated⟩)
  subst hplace
  refine ⟨h, htruncated, fun byte => ?_⟩
  rcases hreason with ⟨found, ⟨hfound, hnone⟩, -⟩ | ⟨op, -, -, hmore⟩
  · cases hfound
    exact absurd rfl (hnone .buildArray (by decide))
  · exact hmore [byte] rfl

end StackCalc
