import Mathlib
import StackCalc.Proofs.Decimal.Shortest
import StackCalc.Proofs.Token.Numerals

/-!
# Positional decimals are numerals

A decimal in positional notation is a numeral, and reading the numeral gives the value of the
decimal.  So the text of a finite number denotes the number if the decimals of the library do.
-/

namespace StackCalc

open Nat (ofDigitChars)

/-! ## Digits -/

theorem allDigits_decimalDigits (n : Nat) : AllDigits (decimalDigits n) := by
  intro c hc
  exact Nat.isDigit_of_mem_toDigits (by decide) (by decide) hc

theorem allDigits_replicate_zero (n : Nat) : AllDigits (List.replicate n '0') := by
  intro c hc
  rw [List.eq_of_mem_replicate hc]
  decide

theorem AllDigits.append {cs ds : List Char} (h : AllDigits cs) (h' : AllDigits ds) :
    AllDigits (cs ++ ds) := by
  intro c hc
  rcases List.mem_append.mp hc with hleft | hright
  · exact h c hleft
  · exact h' c hright

theorem AllDigits.ne_point {cs : List Char} (h : AllDigits cs) : ∀ c ∈ cs, (c != '.') = true := by
  intro c hc
  have hdigit := h c hc
  rw [bne_iff_ne]
  rintro rfl
  cases hdigit

namespace Decimal

variable {d : Decimal} {digits : List Char}

/-! ## Values of numerals -/

theorem ofNumeral_whole (h : AllDigits digits) :
    ofNumeral digits = ⟨ofDigitChars 10 digits 0, 0⟩ := by
  have hwhole : digits.takeWhile (· != '.') = digits :=
    List.takeWhile_eq_self_iff.mpr h.ne_point
  have hrest : digits.dropWhile (· != '.') = [] :=
    List.dropWhile_eq_nil_iff.mpr h.ne_point
  simp only [ofNumeral, hwhole, hrest, List.drop_nil, List.append_nil, List.length_nil]
  rfl

theorem ofNumeral_point (h : AllDigits digits) (fraction : List Char) :
    ofNumeral (digits ++ '.' :: fraction) =
      ⟨ofDigitChars 10 (digits ++ fraction) 0, -(fraction.length : Int)⟩ := by
  have hwhole : (digits ++ '.' :: fraction).takeWhile (· != '.') = digits := by
    rw [List.takeWhile_append_of_pos h.ne_point]
    simp
  have hrest : (digits ++ '.' :: fraction).dropWhile (· != '.') = '.' :: fraction := by
    rw [List.dropWhile_append_of_pos h.ne_point]
    simp
  simp only [ofNumeral, hwhole, hrest, List.drop_succ_cons, List.drop_zero]

theorem ofDigitChars_zeros (zeros n : Nat) :
    ofDigitChars 10 (List.replicate zeros '0' ++ decimalDigits n) 0 = n := by
  rw [Nat.ofDigitChars_append, Nat.ofDigitChars_replicate_zero, Nat.mul_zero]
  exact Nat.ofDigitChars_ten_toDigits

/-! ## Positional notation -/

/-- The positional notation of a decimal is a numeral. -/
theorem isNumeral_positional (d : Decimal) : IsNumeral d.positional := by
  have hdigits := allDigits_decimalDigits d.digits
  rw [positional]
  simp only
  by_cases hexponent : 0 ≤ d.exponent
  · rw [if_pos hexponent]
    refine .whole (hdigits.append (allDigits_replicate_zero _)) ?_
    exact List.append_ne_nil_of_left_ne_nil Nat.toDigits_ne_nil _
  · rw [if_neg hexponent]
    by_cases hplaces : d.exponent.natAbs < (decimalDigits d.digits).length
    · rw [if_pos hplaces]
      refine .point (fun c hc => hdigits c (List.mem_of_mem_take hc))
        (fun c hc => hdigits c (List.mem_of_mem_drop hc)) ?_
      rw [Ne, List.drop_eq_nil_iff]
      omega
    · rw [if_neg hplaces, ← List.singleton_append]
      refine .point ?_ ((allDigits_replicate_zero _).append hdigits) ?_
      · intro c hc
        rw [List.mem_singleton.mp hc]
        decide
      · exact List.append_ne_nil_of_right_ne_nil _ Nat.toDigits_ne_nil

theorem ofNumeral_positional_of_neg (h : d.exponent < 0) : ofNumeral d.positional = d := by
  have hdigits := allDigits_decimalDigits d.digits
  have hvalue : ofDigitChars 10 (decimalDigits d.digits) 0 = d.digits :=
    Nat.ofDigitChars_ten_toDigits
  have hexponent : -(d.exponent.natAbs : Int) = d.exponent := by omega
  rw [positional]
  simp only
  rw [if_neg (by omega)]
  by_cases hplaces : d.exponent.natAbs < (decimalDigits d.digits).length
  · have hlength : ((decimalDigits d.digits).drop
        ((decimalDigits d.digits).length - d.exponent.natAbs)).length = d.exponent.natAbs := by
      rw [List.length_drop]
      omega
    rw [if_pos hplaces, ofNumeral_point (fun c hc => hdigits c (List.mem_of_mem_take hc)),
      List.take_append_drop, hvalue, hlength, hexponent]
  · have hlength : (List.replicate (d.exponent.natAbs - (decimalDigits d.digits).length) '0' ++
        decimalDigits d.digits).length = d.exponent.natAbs := by
      rw [List.length_append, List.length_replicate]
      omega
    have hzero : AllDigits ['0'] := by
      intro c hc
      rw [List.mem_singleton.mp hc]
      decide
    have hnothing : ofDigitChars 10 ['0'] 0 = 0 := by
      decide
    rw [if_neg hplaces, ← List.singleton_append, ofNumeral_point hzero, hlength, hexponent,
      Nat.ofDigitChars_append, hnothing, ofDigitChars_zeros]

theorem ofNumeral_positional_of_nonneg (h : 0 ≤ d.exponent) :
    ofNumeral d.positional = ⟨d.digits * 10 ^ d.exponent.toNat, 0⟩ := by
  have hdigits := allDigits_decimalDigits d.digits
  have hvalue : ofDigitChars 10 (decimalDigits d.digits) 0 = d.digits :=
    Nat.ofDigitChars_ten_toDigits
  have habs : d.exponent.natAbs = d.exponent.toNat := by omega
  rw [positional]
  simp only
  rw [if_pos h, ofNumeral_whole (hdigits.append (allDigits_replicate_zero _)),
    Nat.ofDigitChars_append, hvalue, Nat.ofDigitChars_replicate_zero, habs, Nat.mul_comm]

/-- Reading the positional notation of a decimal gives its value. -/
theorem toBinary64_ofNumeral_positional (d : Decimal) :
    (ofNumeral d.positional).toBinary64 = d.toBinary64 := by
  by_cases h : 0 ≤ d.exponent
  · have hplaces : (-d.exponent).toNat = 0 := by omega
    rw [ofNumeral_positional_of_nonneg h, toBinary64_eq]
    refine Eq.trans ?_ (toBinary64_eq d.digits d.exponent).symm
    rw [hplaces]
    simp
  · rw [ofNumeral_positional_of_neg (by omega)]

end Decimal

namespace Binary64

variable [Library] {x : Binary64}

/-- The text of a number without its sign. -/
def magnitudeText (x : Binary64) : List Char :=
  if x.isZero then ['0'] else (Library.decimal x).positional

theorem isNumeral_magnitudeText (x : Binary64) : IsNumeral x.magnitudeText := by
  rw [magnitudeText]
  split
  · exact .whole (allDigits_replicate_zero 1) (List.cons_ne_nil _ _)
  · exact Decimal.isNumeral_positional _

theorem ofNumeral_magnitudeText [Library.Lawful] (h : x.isFinite = true) :
    ofNumeral (String.ofList x.magnitudeText) = x.abs := by
  cases hzero : x.isZero with
  | true =>
      have hnumeral : ofNumeral "0" = zero := by decide
      rw [magnitudeText, if_pos hzero, abs_of_isZero hzero]
      exact hnumeral
  | false =>
      rw [magnitudeText, hzero, if_neg Bool.false_ne_true, ofNumeral, String.toList_ofList,
        Decimal.toBinary64_ofNumeral_positional, Library.Lawful.toBinary64_decimal h hzero]

/-- The text of a finite number is its magnitude after a minus sign, if it is less than zero. -/
theorem toList_text (h : x.isFinite = true) :
    x.text.toList =
      (if x.negative && !x.isZero then ['-'] else []) ++ x.magnitudeText := by
  rw [text, String.toList_ofList, h, magnitudeText]
  cases hzero : x.isZero with
  | true => simp
  | false => simp [signText]

end Binary64

end StackCalc
