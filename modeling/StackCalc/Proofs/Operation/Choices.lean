import Mathlib
import StackCalc.Proofs.Operation.CommonDivisors
import StackCalc.Proofs.Operation.RisingQuotients

/-!
# The range of a number of choices

The number of choices of `r` out of `n` things is a rising quotient of as many steps as the lesser
of `r` and `n - r`, rounded to an integer.  It is too large if the rising quotient is infinite,
which the product of the last step decides.  This product is the number of choices times the
number of steps, so the number of choices itself may be far below the range.
-/

namespace StackCalc

open Binary64 Operation

variable {a b : Binary64} {n r : Nat}

/-! ## Counts -/

theorem Binary64.isRounded_abs (hfinite : a.isFinite = true) (h : a.value = n) :
    IsRounded n a.abs := by
  have hmagnitude : a.abs.value = n := by
    have hquanta : a.abs.quanta = a.quanta := rfl
    rw [value_eq_quanta rfl, hquanta, quanta_of_natCast h, Nat.cast_mul,
      mul_div_cancel_right₀ _ cast_quantaPerOne_pos.ne']
  rw [← hmagnitude]
  exact isRounded_value hfinite rfl

theorem Binary64.code_eq_zero_of_nonneg (hsign : a.negative = true) (h : 0 ≤ a.value) :
    a.code = 0 := by
  have hquanta : a.value = -(a.quanta / quantaPerOne) := by
    rw [Binary64.value, signedQuanta, if_pos hsign]
    push_cast
    ring
  by_contra hne
  have hpos : (0 : ℚ) < a.quanta / quantaPerOne := by
    apply div_pos _ cast_quantaPerOne_pos
    exact_mod_cast quanta_pos (by simpa [isZero] using hne)
  linarith

theorem Binary64.less_zero_of_nonneg (h : 0 ≤ a.value) : a.less .zero = false := by
  have hrank : 0 ≤ a.rank := by
    rw [rank]
    split
    · rename_i hsign
      rw [code_eq_zero_of_nonneg hsign h]
      decide
    · exact Int.natCast_nonneg _
  have hzero : Binary64.zero.rank = 0 := by decide
  simp [less, hzero, hrank.not_gt]

theorem requireNatural_of_value (function : String) (hfinite : a.isFinite = true)
    (h : a.value = n) : requireNatural function a = .ok n := by
  have hquanta := quanta_of_natCast h
  have hless : a.less .zero = false := less_zero_of_nonneg (by rw [h]; exact n.cast_nonneg)
  have hinteger : a.isInteger = true := by
    simp [isInteger, hfinite, hquanta]
  have hwhole : a.wholePart = n := by
    rw [wholePart, hquanta, Nat.mul_div_cancel _ quantaPerOne_pos]
  simp [requireNatural, hless, hinteger, hwhole]

/-- Two numbers are the counts of things and of chosen things. -/
structure IsChoice (a b : Binary64) (n r : Nat) : Prop where
  total_finite : a.isFinite = true
  chosen_finite : b.isFinite = true
  total_value : a.value = n
  chosen_value : b.value = r
  le : r ≤ n

/-- The number of steps in which the number of choices is computed. -/
def choiceSteps (n r : Nat) : Nat := min r (n - r)

namespace IsChoice

/-! ## The operation -/

theorem add_choiceSteps (h : IsChoice a b n r) : n - choiceSteps n r + choiceSteps n r = n := by
  have hle := h.le
  rw [choiceSteps]
  omega

theorem choiceSteps_le (h : IsChoice a b n r) : choiceSteps n r ≤ n - choiceSteps n r := by
  have hle := h.le
  rw [choiceSteps]
  omega

theorem coefficient_eq (h : IsChoice a b n r) :
    coefficient (n - choiceSteps n r) (choiceSteps n r) = n.choose r := by
  rw [coefficient, h.add_choiceSteps, choiceSteps]
  rcases Nat.le_total r (n - r) with hle | hle
  · rw [Nat.min_eq_left hle]
  · rw [Nat.min_eq_right hle, Nat.choose_symm h.le]

theorem lt_overflowBound (h : IsChoice a b n r) :
    ((n - choiceSteps n r + choiceSteps n r : Nat) : ℚ) < overflowBound := by
  rw [h.add_choiceSteps]
  exact (isRounded_abs h.total_finite h.total_value).isFinite_iff.mp h.total_finite

theorem requireChoice_eq (h : IsChoice a b n r) (function : String) :
    requireChoice function a b = .ok (n, r) := by
  rw [requireChoice, requireNatural_of_value _ h.total_finite h.total_value,
    requireNatural_of_value _ h.chosen_finite h.chosen_value]
  exact if_neg h.le.not_gt

theorem apply_of_isInfinite [Library] (h : IsChoice a b n r)
    (hinfinite : (partialQuotient (n - choiceSteps n r) (choiceSteps n r)).isInfinite = true) :
    BinaryOperation.nCr.apply a b = .error .tooLarge := by
  have hcompute : BinaryOperation.nCr.compute a b =
      .ok (partialQuotient (n - choiceSteps n r) (choiceSteps n r)) := by
    rw [partialQuotient, choiceSteps] at hinfinite
    simp [BinaryOperation.compute, combinations, h.requireChoice_eq, Except.bind, bind, pure,
      Except.pure, partialQuotient, choiceSteps, hinfinite]
  rw [BinaryOperation.apply_of_compute hcompute, finiteResult_of_isInfinite hinfinite]

theorem apply_of_isFinite [Library] (h : IsChoice a b n r) {x : Binary64}
    (hx : partialQuotient (n - choiceSteps n r) (choiceSteps n r) = x)
    (hfinite : x.isFinite = true) :
    BinaryOperation.nCr.apply a b = .ok (.ofNat x.nearestEvenWhole) ∧
      (ofNat x.nearestEvenWhole).isFinite = true ∧
      (ofNat x.nearestEvenWhole).value = x.nearestEvenWhole := by
  have hcompute : BinaryOperation.nCr.compute a b = .ok (.ofNat x.nearestEvenWhole) := by
    have hinfinite := (Binary64.isFinite_iff.mp hfinite).2
    rw [partialQuotient, choiceSteps] at hx
    simp [BinaryOperation.compute, combinations, h.requireChoice_eq, Except.bind, bind, pure,
      Except.pure, hx, hinfinite]
  obtain ⟨hwhole, hquanta⟩ := quanta_ofNat_of_nextTo hfinite (nextTo_nearestEvenWhole x)
  refine ⟨?_, hwhole, ?_⟩
  · rw [BinaryOperation.apply_of_compute hcompute, finiteResult_of_isFinite hwhole]
  · rw [value_eq_quanta rfl, hquanta, Nat.cast_mul,
      mul_div_cancel_right₀ _ cast_quantaPerOne_pos.ne']

/-- The number of choices is off by the margin and the rounding to an integer, or it is too
large. -/
theorem exists_apply_or_tooLarge [Library] (h : IsChoice a b n r) :
    (∃ x m, BinaryOperation.nCr.apply a b = .ok x ∧ x.isFinite = true ∧ x.value = (m : Nat) ∧
        |(m : ℚ) - n.choose r| ≤ n.choose r * choiceMargin + 1 / 2) ∨
      BinaryOperation.nCr.apply a b = .error .tooLarge := by
  have hfactor := h.lt_overflowBound
  rcases Nat.lt_or_ge maxSteps (choiceSteps n r) with hmany | hfew
  · have hlarge := margin_le_product hmany h.choiceSteps_le
    exact Or.inr (h.apply_of_isInfinite (isInfinite_of_le h.choiceSteps_le hfactor hlarge))
  · have hsteps : choiceSteps n r ≤ 2 ^ 53 := by
      rw [maxSteps] at hfew
      omega
    rcases infinite_or_tracks hsteps hfactor with hinfinite | htracks
    · exact Or.inr (h.apply_of_isInfinite hinfinite)
    · left
      obtain ⟨hok, hfinite, hvalue⟩ := h.apply_of_isFinite rfl htracks.isFinite
      refine ⟨_, _, hok, hfinite, hvalue, ?_⟩
      have hwhole := abs_nearestEvenWhole_sub_le htracks.negative
      have herror := htracks.abs_sub_le (Nat.le_succ_of_le hfew)
      rw [h.coefficient_eq] at herror
      rw [add_comm]
      exact (abs_sub_le _ _ _).trans (add_le_add hwhole herror)

end IsChoice

/-- The number of choices is computed up to one part in `2 ^ 42` and the rounding to an integer,
or it is too large.  The exact product of the last step, the number of choices times the number of
steps, decides which: the result is finite below two to the power of 1024 and too large above it,
but for one part in `2 ^ 42`. -/
theorem choices_limited_by_last_product [Library] (h : IsChoice a b n r) :
    ((∃ x m, BinaryOperation.nCr.apply a b = .ok x ∧ x.isFinite = true ∧ x.value = (m : Nat) ∧
        |(m : ℚ) - n.choose r| ≤ n.choose r / 2 ^ 42 + 1 / 2) ∨
      BinaryOperation.nCr.apply a b = .error .tooLarge) ∧
    (((choiceSteps n r * n.choose r : Nat) : ℚ) ≤ (1 - 1 / 2 ^ 42) * 2 ^ 1024 →
      ∃ x, BinaryOperation.nCr.apply a b = .ok x ∧ x.isFinite = true) ∧
    ((1 + 1 / 2 ^ 42) * 2 ^ 1024 ≤ ((choiceSteps n r * n.choose r : Nat) : ℚ) →
      BinaryOperation.nCr.apply a b = .error .tooLarge) := by
  have hfactor := h.lt_overflowBound
  have hle := h.choiceSteps_le
  have hcases := h.exists_apply_or_tooLarge
  rw [choiceMargin, mul_one_div] at hcases
  refine ⟨hcases, ?_⟩
  rw [← h.coefficient_eq]
  constructor
  · intro hsmall
    have htracks := tracks_of_le hle hfactor hsmall
    obtain ⟨hok, hfinite, -⟩ := h.apply_of_isFinite rfl htracks.isFinite
    exact ⟨_, hok, hfinite⟩
  · intro hlarge
    exact h.apply_of_isInfinite (isInfinite_of_le hle hfactor hlarge)

theorem isChoice_ofNat (hn : n ≤ 2 ^ 53) (hle : r ≤ n) : IsChoice (ofNat n) (ofNat r) n r := by
  have htotal := isExact_ofNat hn
  have hchosen := isExact_ofNat (hle.trans hn)
  exact ⟨htotal.isFinite, hchosen.isFinite, htotal.value, hchosen.value, hle⟩

/-- The greatest central coefficient that is computed. -/
theorem choices_limited_of_central :
    IsChoice (ofNat 1020) (ofNat 510) 1020 510 ∧
      ((choiceSteps 1020 510 * Nat.choose 1020 510 : Nat) : ℚ) ≤ (1 - 1 / 2 ^ 42) * 2 ^ 1024 ∧
      ∃ x, BinaryOperation.nCr.apply (ofNat 1020) (ofNat 510) = .ok x ∧ x.isFinite = true := by
  have hchoice : IsChoice (ofNat 1020) (ofNat 510) 1020 510 :=
    isChoice_ofNat (by decide) (by decide)
  have hproduct : choiceSteps 1020 510 * Nat.choose 1020 510 * 2 ^ 42 ≤
      4398046511103 * 2 ^ 1024 := by
    rw [Nat.choose_eq_descFactorial_div_factorial]
    decide +kernel
  have hsmall : ((choiceSteps 1020 510 * Nat.choose 1020 510 : Nat) : ℚ) ≤
      (1 - 1 / 2 ^ 42) * 2 ^ 1024 := by
    have hcast : ((choiceSteps 1020 510 * Nat.choose 1020 510 : Nat) : ℚ) * 2 ^ 42 ≤
        4398046511103 * 2 ^ 1024 := by exact_mod_cast hproduct
    generalize (2 : ℚ) ^ 1024 = range at hcast ⊢
    linarith
  exact ⟨hchoice, hsmall, (choices_limited_by_last_product hchoice).2.1 hsmall⟩

/-- The number of choices of 496 out of 1021 things is far below the range, but the product of the
last step is not. -/
theorem choices_too_large_in_range :
    IsChoice (ofNat 1021) (ofNat 496) 1021 496 ∧
      (Nat.choose 1021 496 : ℚ) ≤ (ofCode false (infinityCode - 1)).value / 2 ∧
      BinaryOperation.nCr.apply (ofNat 1021) (ofNat 496) = .error .tooLarge ∧
      OperationError.tooLarge.message = "Result is too large to represent" := by
  have hchoice : IsChoice (ofNat 1021) (ofNat 496) 1021 496 :=
    isChoice_ofNat (by decide) (by decide)
  refine ⟨hchoice, ?_, ?_, rfl⟩
  · have hchoose : Nat.choose 1021 496 * 2 ^ 8 ≤ 2 ^ 1024 := by
      rw [Nat.choose_eq_descFactorial_div_factorial]
      decide +kernel
    have hcast : (Nat.choose 1021 496 : ℚ) * 2 ^ 8 ≤ 2 ^ 1024 := by exact_mod_cast hchoose
    rw [value_greatest]
    generalize (2 : ℚ) ^ 1024 = range at hcast ⊢
    linarith
  · have hproduct : 4398046511105 * 2 ^ 1024 ≤
        choiceSteps 1021 496 * Nat.choose 1021 496 * 2 ^ 42 := by
      rw [Nat.choose_eq_descFactorial_div_factorial]
      decide +kernel
    apply hchoice.apply_of_isInfinite
    apply isInfinite_of_le hchoice.choiceSteps_le hchoice.lt_overflowBound
    rw [hchoice.coefficient_eq, choiceMargin]
    have hcast : (4398046511105 : ℚ) * 2 ^ 1024 ≤
        (choiceSteps 1021 496 * Nat.choose 1021 496 : Nat) * 2 ^ 42 := by exact_mod_cast hproduct
    generalize (2 : ℚ) ^ 1024 = range at hcast ⊢
    linarith

end StackCalc
