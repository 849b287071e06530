import Mathlib
import StackCalc.Proofs.Decimal.Positional
import StackCalc.Proofs.Token.Separation

/-!
# Floating decimals

The floating notation of a decimal can be read back: it is a numeral, with an exponent after it or
not.  Since the shortest decimal of a finite number has the value of its magnitude, different finite
numbers are written differently.
-/

namespace StackCalc

open Nat (ofDigitChars)

namespace Decimal

variable {d : Decimal} {cs : List Char}

/-! ## Reading -/

/-- The exponent that signed digits denote; nothing stands for zero. -/
def readExponent : List Char → Int
  | '-' :: digits => -(ofDigitChars 10 digits 0 : Int)
  | '+' :: digits => ofDigitChars 10 digits 0
  | _ => 0

/-- The decimal that an unsigned numeral with or without an exponent denotes. -/
def ofFloating (cs : List Char) : Decimal :=
  let mantissa := ofNumeral (cs.takeWhile (· != 'e'))
  ⟨mantissa.digits, mantissa.exponent + readExponent ((cs.dropWhile (· != 'e')).drop 1)⟩

theorem ne_exponentMark_of_isNumeral (h : IsNumeral cs) : ∀ c ∈ cs, (c != 'e') = true := by
  intro c hc
  rw [bne_iff_ne]
  rintro rfl
  rcases h.isDigit_of_mem hc with hdigit | hpoint
  · cases hdigit
  · cases hpoint

theorem ofFloating_numeral (h : IsNumeral cs) : ofFloating cs = ofNumeral cs := by
  have hmark := ne_exponentMark_of_isNumeral h
  have hmantissa : cs.takeWhile (· != 'e') = cs := List.takeWhile_eq_self_iff.mpr hmark
  have hrest : cs.dropWhile (· != 'e') = [] := List.dropWhile_eq_nil_iff.mpr hmark
  simp only [ofFloating, hmantissa, hrest, List.drop_nil, readExponent, Int.add_zero]

theorem ofFloating_exponent (h : IsNumeral cs) (exponent : List Char) :
    ofFloating (cs ++ 'e' :: exponent) =
      ⟨(ofNumeral cs).digits, (ofNumeral cs).exponent + readExponent exponent⟩ := by
  have hmark := ne_exponentMark_of_isNumeral h
  have hmantissa : (cs ++ 'e' :: exponent).takeWhile (· != 'e') = cs := by
    rw [List.takeWhile_append_of_pos hmark]
    simp
  have hrest : (cs ++ 'e' :: exponent).dropWhile (· != 'e') = 'e' :: exponent := by
    rw [List.dropWhile_append_of_pos hmark]
    simp
  simp only [ofFloating, hmantissa, hrest, List.drop_succ_cons, List.drop_zero]

/-! ## Scientific notation -/

/-- The digits of a decimal with a point after the first, unless it is the only one. -/
def mantissa (d : Decimal) : List Char :=
  match decimalDigits d.digits with
  | [] => []
  | [first] => [first]
  | first :: rest => first :: '.' :: rest

/-- The exponent after its mark. -/
def exponentText (exponent : Int) : List Char :=
  (if exponent < 0 then '-' else '+') ::
    (List.replicate (2 - (decimalDigits exponent.natAbs).length) '0' ++
      decimalDigits exponent.natAbs)

theorem scientific_eq (d : Decimal) :
    d.scientific = d.mantissa ++ 'e' :: exponentText d.scientificExponent := rfl

theorem readExponent_exponentText (exponent : Int) :
    readExponent (exponentText exponent) = exponent := by
  rw [exponentText]
  by_cases h : exponent < 0
  · rw [if_pos h, readExponent, ofDigitChars_zeros]
    omega
  · rw [if_neg h, readExponent, ofDigitChars_zeros]
    omega

theorem isNumeral_mantissa (d : Decimal) :
    IsNumeral d.mantissa ∧
      ofNumeral d.mantissa = ⟨d.digits, 1 - ((decimalDigits d.digits).length : Int)⟩ := by
  have hdigits := allDigits_decimalDigits d.digits
  have hvalue : ofDigitChars 10 (decimalDigits d.digits) 0 = d.digits :=
    Nat.ofDigitChars_ten_toDigits
  have hne : decimalDigits d.digits ≠ [] := Nat.toDigits_ne_nil
  rw [mantissa]
  generalize decimalDigits d.digits = digits at *
  match digits, hne with
  | [first], _ =>
      refine ⟨.whole hdigits (List.cons_ne_nil _ _), ?_⟩
      rw [ofNumeral_whole hdigits, hvalue]
      rfl
  | first :: second :: rest, _ =>
      have hfirst : AllDigits [first] := by
        intro c hc
        rw [List.mem_singleton.mp hc]
        exact hdigits first List.mem_cons_self
      have hrest : AllDigits (second :: rest) :=
        fun c hc => hdigits c (List.mem_cons_of_mem first hc)
      refine ⟨.point hfirst hrest (List.cons_ne_nil _ _), ?_⟩
      have hnumeral := ofNumeral_point hfirst (second :: rest)
      rw [List.singleton_append, List.singleton_append, hvalue] at hnumeral
      rw [hnumeral]
      simp only [List.length_cons, mk.injEq, true_and]
      omega

theorem ofFloating_scientific (d : Decimal) : ofFloating d.scientific = d := by
  obtain ⟨hnumeral, hvalue⟩ := d.isNumeral_mantissa
  rw [scientific_eq, ofFloating_exponent hnumeral, hvalue, readExponent_exponentText,
    scientificExponent]
  obtain ⟨digits, exponent⟩ := d
  simp only [mk.injEq, true_and]
  omega

/-! ## Floating notation -/

theorem isNumeral_positional_place (h : 0 ≤ d.exponent) :
    IsNumeral (d.positional ++ ['.', '0']) ∧
      ofNumeral (d.positional ++ ['.', '0']) = ⟨d.digits * 10 ^ d.exponent.toNat * 10, -1⟩ := by
  have hdigits : AllDigits d.positional := by
    rw [positional]
    simp only [if_pos h]
    exact (allDigits_decimalDigits _).append (allDigits_replicate_zero _)
  have hzero : AllDigits ['0'] := allDigits_replicate_zero 1
  refine ⟨.point hdigits hzero (List.cons_ne_nil _ _), ?_⟩
  have hwhole := ofNumeral_positional_of_nonneg h
  rw [ofNumeral_whole hdigits, mk.injEq] at hwhole
  have hplace : ['0'] = List.replicate 1 '0' := rfl
  rw [ofNumeral_point hdigits, Nat.ofDigitChars_append, hwhole.1, hplace,
    Nat.ofDigitChars_replicate_zero, Nat.pow_one, Nat.mul_comm 10]
  rfl

/-- Reading the floating notation of a decimal gives its value. -/
theorem toBinary64_ofFloating_floating (d : Decimal) :
    (ofFloating d.floating).toBinary64 = d.toBinary64 := by
  rw [floating]
  split
  · rw [ofFloating_scientific]
  · split
    · rename_i hexponent
      obtain ⟨hnumeral, hvalue⟩ := isNumeral_positional_place hexponent
      rw [ofFloating_numeral hnumeral, hvalue, toBinary64_mul_ten,
        ← toBinary64_ofNumeral_positional d, ofNumeral_positional_of_nonneg hexponent]
      rfl
    · rw [ofFloating_numeral d.isNumeral_positional, toBinary64_ofNumeral_positional]

theorem mem_floating {c : Char} (h : c ∈ d.floating) :
    c.isDigit = true ∨ c ∈ ['.', 'e', '+', '-'] := by
  have hnumeral {cs : List Char} (hcs : IsNumeral cs) (hc : c ∈ cs) :
      c.isDigit = true ∨ c ∈ ['.', 'e', '+', '-'] := by
    rcases hcs.isDigit_of_mem hc with hdigit | rfl
    · exact Or.inl hdigit
    · exact Or.inr (by decide)
  rw [floating] at h
  split at h
  · rw [scientific_eq, exponentText, List.mem_append, List.mem_cons, List.mem_cons] at h
    rcases h with hmantissa | rfl | rfl | hexponent
    · exact hnumeral d.isNumeral_mantissa.1 hmantissa
    · exact Or.inr (by decide)
    · refine Or.inr ?_
      split <;> decide
    · exact Or.inl ((allDigits_replicate_zero _).append (allDigits_decimalDigits _) c hexponent)
  · split at h
    · rename_i hexponent
      exact hnumeral (isNumeral_positional_place hexponent).1 h
    · exact hnumeral d.isNumeral_positional h

theorem exists_floating_eq_cons (d : Decimal) :
    ∃ c cs, d.floating = c :: cs ∧ (c.isDigit = true ∨ c = '.') := by
  have hnumeral {cs : List Char} (hcs : IsNumeral cs) (rest : List Char) :
      ∃ c tail, cs ++ rest = c :: tail ∧ (c.isDigit = true ∨ c = '.') := by
    obtain ⟨c, tail, rfl, hc⟩ := hcs.exists_cons
    exact ⟨c, tail ++ rest, rfl, hc.imp_right And.left⟩
  rw [floating]
  split
  · rw [scientific_eq]
    exact hnumeral d.isNumeral_mantissa.1 _
  · rw [← List.append_nil (ite _ _ _)]
    split
    · rename_i hexponent
      exact hnumeral (isNumeral_positional_place hexponent).1 []
    · exact hnumeral d.isNumeral_positional []

end Decimal

namespace Binary64

variable {x y : Binary64}

theorem toList_literalText (h : x.isFinite = true) :
    x.literalText.toList = x.signText ++ x.shortestDecimal.floating := by
  rw [literalText, String.toList_ofList, if_pos h]

theorem head?_literalText (h : x.isFinite = true) :
    x.literalText.toList.head? = some '-' ↔ x.negative = true := by
  obtain ⟨c, cs, hcons, hc⟩ := x.shortestDecimal.exists_floating_eq_cons
  rw [toList_literalText h, signText, hcons]
  cases x.negative with
  | true => simp
  | false =>
      have hne : c ≠ '-' := by
        rintro rfl
        exact absurd hc (by decide)
      simp [hne]

/-- Different finite numbers have different literals. -/
theorem eq_of_literalText_eq (hx : x.isFinite = true) (hy : y.isFinite = true)
    (h : x.literalText = y.literalText) : x = y := by
  have hsign : x.negative = y.negative := by
    rw [Bool.eq_iff_iff, ← head?_literalText hx, ← head?_literalText hy, h]
  have hfloating : x.shortestDecimal.floating = y.shortestDecimal.floating := by
    have hlist := congrArg String.toList h
    rw [toList_literalText hx, toList_literalText hy, signText, signText, hsign] at hlist
    exact List.append_cancel_left hlist
  have habs : x.abs = y.abs := by
    rw [← toBinary64_shortestDecimal hx, ← toBinary64_shortestDecimal hy,
      ← Decimal.toBinary64_ofFloating_floating, hfloating, Decimal.toBinary64_ofFloating_floating]
  have hcode : x.abs.code = y.abs.code := congrArg code habs
  exact eq_of_code_eq hsign hcode

end Binary64

end StackCalc
