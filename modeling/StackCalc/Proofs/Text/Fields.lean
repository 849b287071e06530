import Mathlib
import StackCalc.Text.Forms

/-!
# Reading fields back

A line is made of words with spaces between them, and some of its words are numbers in base ten or
sixteen, filled up with zeros to a least width.  This file reads such words, without any use of the
functions that write them: a number is what its digits add up to, however many there are, and a
word is a longest run of characters that are not spaces.

A word that reads as a number has no space in it, so numbers in a line stay apart.
-/

namespace StackCalc

/-! ## Words -/

/-- The words of a text, which are the runs of characters between its spaces. -/
def words (text : List Char) : List (List Char) :=
  (text.splitOnP (· == ' ')).filter (· ≠ [])

@[simp]
theorem words_append_space (text rest : List Char) :
    words (text ++ ' ' :: rest) = words text ++ words rest := by
  unfold words
  rw [List.splitOnP_append_cons text rest (by rfl), List.filter_append]

@[simp]
theorem words_nil : words [] = [] := by simp [words, List.splitOnP_nil]

@[simp]
theorem words_space (rest : List Char) : words (' ' :: rest) = words rest := by
  have happend := words_append_space [] rest
  rwa [words_nil] at happend

theorem words_of_no_space {word : List Char} (hne : word ≠ []) (hspace : ' ' ∉ word) :
    words word = [word] := by
  have hsplit : word.splitOnP (· == ' ') = [word] := by
    apply List.splitOnP_eq_singleton
    intro c hc
    rw [beq_eq_false_iff_ne]
    rintro rfl
    exact hspace hc
  rw [words, hsplit, List.filter_singleton]
  simp [hne]

theorem words_append_replicate (text : List Char) (count : Nat) :
    words (text ++ List.replicate count ' ') = words text := by
  induction count with
  | zero => rw [List.replicate_zero, List.append_nil]
  | succ count ih =>
      rw [List.replicate_succ', ← List.append_assoc, words_append_space, ih, words_nil,
        List.append_nil]

theorem words_trimRight (text : String) : words (trimRight text).toList = words text.toList := by
  have hspaces : (text.toList.rtakeWhile (· == ' ')) =
      List.replicate (text.toList.rtakeWhile (· == ' ')).length ' ' := by
    rw [List.eq_replicate_iff]
    refine ⟨rfl, fun c hc => ?_⟩
    have hspace := List.mem_rtakeWhile_imp hc
    exact beq_iff_eq.mp hspace
  have htrim : (trimRight text).toList = text.toList.rdropWhile (· == ' ') :=
    String.toList_ofList
  calc
    words (trimRight text).toList
        = words (text.toList.rdropWhile (· == ' ') ++ text.toList.rtakeWhile (· == ' ')) := by
          rw [htrim, hspaces, words_append_replicate]
    _ = words text.toList := by rw [List.rdropWhile_append_rtakeWhile]

/-- Words that are put in a row with spaces between them are read back. -/
theorem words_intercalate {ws : List (List Char)} (h : ∀ w ∈ ws, words w = [w]) :
    words ([' '].intercalate ws) = ws := by
  induction ws with
  | nil => exact words_nil
  | cons w ws ih =>
      have hfirst := h w List.mem_cons_self
      have hrest := ih fun v hv => h v (List.mem_cons_of_mem w hv)
      by_cases hws : ws = []
      · rw [hws, List.intercalate_singleton, hfirst]
      · rw [List.intercalate_cons_of_ne_nil hws, List.append_assoc, List.singleton_append,
          words_append_space, hfirst, hrest, List.singleton_append]

/-! ## Numbers -/

/-- The digits of the bases up to sixteen, in the order of their values. -/
def digitSymbols : List Char :=
  ['0', '1', '2', '3', '4', '5', '6', '7', '8', '9', 'A', 'B', 'C', 'D', 'E', 'F']

/-- The value of a digit in a base up to sixteen. -/
def digitValue? (base : Nat) (c : Char) : Option Nat := (digitSymbols.take base).idxOf? c

/-- The number that has one more digit at its end. -/
def appendDigit? (base value : Nat) (c : Char) : Option Nat :=
  (digitValue? base c).map (value * base + ·)

/-- The number that is written by one or more digits. -/
def readNumber? (base : Nat) (word : List Char) : Option Nat :=
  if word = [] then none else word.foldlM (appendDigit? base) 0

variable {base n : Nat} {word : List Char}

theorem digitValue?_space (base : Nat) : digitValue? base ' ' = none := by
  have hspace : ' ' ∉ digitSymbols := by decide
  rw [digitValue?, List.idxOf?_eq_none_iff]
  exact fun hmem => hspace (List.mem_of_mem_take hmem)

theorem foldlM_appendDigit?_eq_none (hspace : ' ' ∈ word) (value : Nat) :
    word.foldlM (appendDigit? base) value = none := by
  induction word generalizing value with
  | nil => cases hspace
  | cons c cs ih =>
      rw [List.foldlM_cons]
      rcases List.mem_cons.mp hspace with rfl | htail
      · rw [appendDigit?, digitValue?_space]
        rfl
      · cases appendDigit? base value c with
        | none => rfl
        | some next => exact ih htail next

theorem no_space_of_readNumber? (h : readNumber? base word = some n) : ' ' ∉ word := by
  intro hspace
  rw [readNumber?, if_neg (List.ne_nil_of_mem hspace), foldlM_appendDigit?_eq_none hspace] at h
  cases h

theorem ne_nil_of_readNumber? (h : readNumber? base word = some n) : word ≠ [] := by
  rintro rfl
  cases h

/-- Digits in a base, in any characters that the base knows them by, write their number. -/
theorem foldlM_toDigits {render : Char → Char} (hbase : 1 < base)
    (hrender : ∀ d < base, digitValue? base (render d.digitChar) = some d) (n : Nat) :
    ((Nat.toDigits base n).map render).foldlM (appendDigit? base) 0 = some n := by
  -- Digits are written and read with the lowest one last, so this one is split off.
  induction n using Nat.strongRecOn with
  | ind n ih =>
      by_cases hlt : n < base
      · rw [Nat.toDigits_of_lt_base hlt]
        simp [appendDigit?, hrender n hlt]
      · have hlast := hrender (n % base) (Nat.mod_lt n (by omega))
        have hrest := ih (n / base) (Nat.div_lt_self (by omega) hbase)
        rw [Nat.toDigits_of_base_le hbase (by omega), List.map_append, List.foldlM_append, hrest]
        simp [appendDigit?, hlast, Nat.div_add_mod']

theorem foldlM_zeros (hzero : digitValue? base '0' = some 0) (count : Nat) :
    (List.replicate count '0').foldlM (appendDigit? base) 0 = some 0 := by
  induction count with
  | zero => rfl
  | succ count ih => simpa [List.replicate_succ, appendDigit?, hzero] using ih

theorem readNumber?_zeroFill (hzero : digitValue? base '0' = some 0) (width : Nat)
    (hword : word ≠ []) :
    readNumber? base (zeroFill width word) = word.foldlM (appendDigit? base) 0 := by
  rw [readNumber?, zeroFill, if_neg (List.append_ne_nil_of_right_ne_nil _ hword),
    List.foldlM_append, foldlM_zeros hzero]
  rfl

/-- A number in base ten is read back from a field of any width. -/
theorem readNumber?_decimalDigits (width n : Nat) :
    readNumber? 10 (zeroFill width (decimalDigits n)) = some n := by
  have hdigits : ∀ d < 10, digitValue? 10 (id d.digitChar) = some d := by decide
  have hread := foldlM_toDigits (by decide) hdigits n
  have hne : decimalDigits n ≠ [] := Nat.toDigits_ne_nil
  rw [List.map_id] at hread
  rw [readNumber?_zeroFill (by decide) width hne, decimalDigits, hread]

theorem hexDigits_ne_nil (n : Nat) : hexDigits n ≠ [] := by
  rw [hexDigits, Ne, List.map_eq_nil_iff]
  exact Nat.toDigits_ne_nil

/-- A number in base sixteen is read back from a field of any width. -/
theorem readNumber?_hexDigits (width n : Nat) :
    readNumber? 16 (zeroFill width (hexDigits n)) = some n := by
  have hdigits : ∀ d < 16, digitValue? 16 (Char.toUpper d.digitChar) = some d := by decide
  rw [readNumber?_zeroFill (by decide) width (hexDigits_ne_nil n)]
  exact foldlM_toDigits (by decide) hdigits n

/-! ## Addresses and bytes -/

/-- An address in base sixteen with a prefix, in a field of four or more digits. -/
def addressField (address : Nat) : List Char := '0' :: 'x' :: zeroFill 4 (hexDigits address)

/-- The address that is written by a prefix and a number in base sixteen. -/
def readAddress? : List Char → Option Nat
  | '0' :: 'x' :: word => readNumber? 16 word
  | _ => none

/-- The byte that is written by two digits in base sixteen. -/
def readByte? (word : List Char) : Option UInt8 :=
  if word.length = 2 then (readNumber? 16 word).map UInt8.ofNat else none

theorem readAddress?_addressField (address : Nat) :
    readAddress? (addressField address) = some address :=
  readNumber?_hexDigits 4 address

theorem length_zeroFill (width : Nat) (digits : List Char) :
    (zeroFill width digits).length = max width digits.length := by
  rw [zeroFill, List.length_append, List.length_replicate]
  omega

theorem length_hexByte (byte : UInt8) : (hexByte byte).toList.length = 2 := by
  have hdigits : (hexDigits byte.toNat).length ≤ 2 := by
    rw [hexDigits, List.length_map, Nat.length_toDigits_le_iff (by decide) (by decide)]
    exact byte.toNat_lt
  rw [hexByte, String.toList_ofList, length_zeroFill, max_eq_left hdigits]

theorem readByte?_hexByte (byte : UInt8) : readByte? (hexByte byte).toList = some byte := by
  rw [readByte?, if_pos (length_hexByte byte), hexByte, String.toList_ofList,
    readNumber?_hexDigits, Option.map_some, UInt8.ofNat_toNat]

/-! ## Numbers are words -/

theorem words_of_readNumber? (h : readNumber? base word = some n) : words word = [word] :=
  words_of_no_space (ne_nil_of_readNumber? h) (no_space_of_readNumber? h)

theorem words_addressField (address : Nat) :
    words (addressField address) = [addressField address] := by
  have hspace := no_space_of_readNumber? (readNumber?_hexDigits 4 address)
  apply words_of_no_space (List.cons_ne_nil _ _)
  simpa [addressField] using hspace

theorem words_hexByte (byte : UInt8) : words (hexByte byte).toList = [(hexByte byte).toList] := by
  rw [hexByte, String.toList_ofList]
  exact words_of_readNumber? (readNumber?_hexDigits 2 byte.toNat)

end StackCalc
