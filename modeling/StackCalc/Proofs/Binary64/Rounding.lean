import Mathlib
import StackCalc.Binary64.Arithmetic
import StackCalc.Proofs.Binary64.Nearest

/-!
# Rounding and codes

A number of quanta that is a binary64 number rounds to the code of that number, so a finite
number is determined by its sign and its quanta.  A quotient may be reduced or extended before it
is rounded.
-/

namespace StackCalc

/-! ## Nearest integers -/

theorem nearestEven_mul (num den : Nat) {k : Nat} (hk : 0 < k) :
    nearestEven (num * k) (den * k) = nearestEven num den := by
  have hfloor : num * k / (den * k) = num / den := Nat.mul_div_mul_right num den hk
  have hrest : num * k % (den * k) = num % den * k := Nat.mul_mod_mul_right k num den
  have hlt : 2 * (num % den * k) < den * k ↔ 2 * (num % den) < den := by
    rw [← Nat.mul_assoc]
    exact Nat.mul_lt_mul_right hk
  have heq : 2 * (num % den * k) = den * k ↔ 2 * (num % den) = den := by
    rw [← Nat.mul_assoc]
    exact Nat.mul_left_inj hk.ne'
  simp only [nearestEven, hfloor, hrest, hlt, heq]

theorem nearestEven_eq_or (num den : Nat) :
    nearestEven num den = num / den ∨ nearestEven num den = num / den + 1 := by
  rw [nearestEven]
  split
  · exact Or.inl rfl
  · split
    · rcases Nat.mod_two_eq_zero_or_one (num / den) with h | h
      · exact Or.inl (by omega)
      · exact Or.inr (by omega)
    · exact Or.inr rfl

/-- The distance to the nearest integer is at most one half. -/
theorem abs_nearestEven_sub_le (num : Nat) {den : Nat} (hden : 0 < den) :
    |(nearestEven num den : ℚ) - num / den| ≤ 1 / 2 := by
  have hpos : (0 : ℚ) < den := by exact_mod_cast hden
  have hquotient : (num : ℚ) / den = (num / den : Nat) + (num % den : Nat) / den := by
    rw [eq_comm, eq_div_iff hpos.ne', add_mul, div_mul_cancel₀ _ hpos.ne']
    exact_mod_cast Nat.div_add_mod' num den
  have hnonneg : (0 : ℚ) ≤ (num % den : Nat) / den := by positivity
  have hone : ((num % den : Nat) : ℚ) / den < 1 := by
    rw [div_lt_one hpos]
    exact_mod_cast Nat.mod_lt num hden
  have hlt : 2 * (num % den) < den ↔ ((num % den : Nat) : ℚ) / den < 1 / 2 := by
    rw [div_lt_div_iff₀ hpos two_pos, one_mul, mul_comm _ (2 : ℚ)]
    exact_mod_cast Iff.rfl
  have heq : 2 * (num % den) = den ↔ ((num % den : Nat) : ℚ) / den = 1 / 2 := by
    rw [div_eq_div_iff hpos.ne' two_ne_zero, one_mul, mul_comm _ (2 : ℚ)]
    exact_mod_cast Iff.rfl
  rw [nearestEven, hquotient, abs_le]
  simp only [hlt, heq]
  split
  · constructor
    · linarith
    · linarith
  · split
    · rcases Nat.mod_two_eq_zero_or_one (num / den) with hzero | hodd
      · rw [hzero]
        push_cast
        constructor
        · linarith
        · linarith
      · rw [hodd]
        push_cast
        constructor
        · linarith
        · linarith
    · push_cast
      constructor
      · linarith
      · linarith

namespace Binary64

/-! ## Codes -/

theorem codeOfRatio_mul (num den : Nat) {k : Nat} (hk : 0 < k) :
    codeOfRatio (num * k) (den * k) = codeOfRatio num den := by
  have hquotient : num * k / (den * k) = num / den := Nat.mul_div_mul_right num den hk
  have hden : ∀ excess, (den * k) <<< excess = den <<< excess * k := by
    intro excess
    rw [Nat.shiftLeft_eq, Nat.shiftLeft_eq, Nat.mul_right_comm]
  simp only [codeOfRatio, hquotient, hden, nearestEven_mul _ _ hk]

/-! ## Quanta -/

variable {x y : Binary64}

theorem quanta_of_subnormal (h : x.code < hiddenBit) : x.quanta = x.code :=
  gridQuanta_of_lt h

/-- The significand and the shift of a normal number. -/
theorem exists_quanta_eq (h : hiddenBit ≤ x.code) :
    ∃ significand shift, hiddenBit ≤ significand ∧ significand < 2 * hiddenBit ∧
      x.code = shift * hiddenBit + significand ∧ x.quanta = significand * 2 ^ shift := by
  obtain ⟨significand, shift, hlow, hhigh, hcode⟩ := exists_shifted_eq h
  refine ⟨significand, shift, hlow, hhigh, hcode, ?_⟩
  rw [quanta_eq, hcode, gridQuanta_shifted hlow hhigh.le]

theorem codeOfRatio_quanta (x : Binary64) : codeOfRatio x.quanta 1 = x.code :=
  codeOfRatio_gridQuanta x.code

theorem eq_of_code_eq (hsign : x.negative = y.negative) (hcode : x.code = y.code) : x = y := by
  obtain ⟨negative, code, hlt⟩ := x
  obtain ⟨negative', code', hlt'⟩ := y
  cases hsign
  cases hcode
  rfl

theorem abs_of_isZero (h : x.isZero = true) : x.abs = zero := by
  rw [isZero, beq_iff_eq] at h
  exact eq_of_code_eq rfl h

/-- A number is determined by its sign and its quanta. -/
theorem eq_of_quanta_eq (hsign : x.negative = y.negative) (hquanta : x.quanta = y.quanta) :
    x = y := by
  apply eq_of_code_eq hsign
  rw [← codeOfRatio_quanta x, ← codeOfRatio_quanta y, hquanta]

theorem quanta_pos (h : x.isZero = false) : 0 < x.quanta := by
  rw [isZero, beq_eq_false_iff_ne] at h
  rw [Nat.pos_iff_ne_zero]
  intro hquanta
  apply h
  rw [← codeOfRatio_quanta x, hquanta]
  rfl

theorem isZero_of_quanta_pos (h : 0 < x.quanta) : x.isZero = false := by
  rw [isZero, beq_eq_false_iff_ne]
  intro hcode
  rw [quanta_eq, hcode] at h
  exact absurd h (by decide)

/-! ## Numbers of a code -/

theorem code_ofCode (negative : Bool) (code : Nat) :
    (ofCode negative code).code = min infinityCode code := rfl

theorem ofRatio_mul (negative : Bool) (num den : Nat) {k : Nat} (hk : 0 < k) :
    ofRatio negative (num * k) (den * k) = ofRatio negative num den := by
  rw [ofRatio, codeOfRatio_mul _ _ hk]
  rfl

/-! ## Finite and infinite numbers -/

theorem isFinite_iff :
    x.isFinite = true ↔ x.isNaN = false ∧ x.isInfinite = false := by
  simp only [isFinite, isNaN, isInfinite, decide_eq_true_eq, decide_eq_false_iff_not,
    beq_eq_false_iff_ne]
  omega

theorem isNaN_of_isInfinite (h : x.isInfinite = true) :
    x.isNaN = false := by
  simp only [isInfinite, isNaN, beq_iff_eq, decide_eq_false_iff_not] at h ⊢
  omega

/-! ## Nonzero numbers -/

theorem codeOfRatio_pos {num den : Nat} (h : den ≤ num) (hden : 0 < den) :
    0 < codeOfRatio num den := by
  have hone : (gridQuanta 1 : ℚ) ≤ num / den := by
    rw [gridQuanta_of_le (by decide), Nat.cast_one, one_le_div (by exact_mod_cast hden)]
    exact_mod_cast h
  exact (roundsTo_codeOfRatio num hden).le_of_ge hone

theorem isZero_ofRatio {negative : Bool} {num den : Nat} (h : den ≤ num) (hden : 0 < den) :
    (ofRatio negative num den).isZero = false := by
  have hcode := codeOfRatio_pos h hden
  have hinfinity : 0 < infinityCode := by decide
  rw [isZero, ofRatio, code_ofCode, beq_eq_false_iff_ne]
  omega

theorem isZero_ofNat {n : Nat} (h : 0 < n) : (ofNat n).isZero = false := by
  apply isZero_ofRatio _ Nat.one_pos
  exact Nat.mul_pos h (by decide)

end Binary64

end StackCalc
