import Mathlib
import StackCalc.Proofs.Binary64.Rounded
import StackCalc.Operation

/-!
# Rising quotients

The step with the number `i` of a rising quotient multiplies by `base + i` and divides by `i`, and
the exact number after it is a binomial coefficient.  Three numbers are rounded in a step: the
factor, the product and the quotient.  So the computed number stays within three roundings per step
of the coefficient.

A step is infinite if its product is, although the quotient may be in range.  The product of a step
is the coefficient after it times the number of the step, and it grows from step to step.  So the
product of the last step decides, up to the roundings.  If the base is not less than the number of
steps, at most 512 of them have a product in range, and their roundings together are less than one
part in `2 ^ 42`.
-/

namespace StackCalc

open Binary64

namespace Operation

variable {x y : Binary64} {base base' count count' : Nat}

/-! ## Steps -/

/-- The step of a rising quotient. -/
def nextQuotient (base step : Nat) (x : Binary64) : Binary64 :=
  (x.mul (.ofNat (base + step))).div (.ofNat step)

/-- The number after some steps. -/
def partialQuotient (base count : Nat) : Binary64 := risingQuotient .one base 1 count

theorem risingQuotient_eq (start : Binary64) (base step count : Nat) :
    risingQuotient start base step (count + 1) =
      if (nextQuotient base step start).isInfinite then nextQuotient base step start
      else risingQuotient (nextQuotient base step start) base (step + 1) count := rfl

/-- The last step may be taken apart instead of the first one. -/
theorem risingQuotient_succ {start : Binary64} (hstart : start.isInfinite = false)
    (base step count : Nat) :
    risingQuotient start base step (count + 1) =
      if (risingQuotient start base step count).isInfinite then risingQuotient start base step count
      else nextQuotient base (step + count) (risingQuotient start base step count) := by
  induction count generalizing start step with
  | zero => simp [risingQuotient, hstart, nextQuotient]
  | succ count ih =>
      rw [risingQuotient_eq start base step (count + 1), risingQuotient_eq start base step count]
      cases hnext : (nextQuotient base step start).isInfinite with
      | true => simp [hnext]
      | false => simp [ih hnext, Nat.add_assoc, Nat.add_comm 1 count]

theorem partialQuotient_succ (base count : Nat) :
    partialQuotient base (count + 1) =
      if (partialQuotient base count).isInfinite then partialQuotient base count
      else nextQuotient base (count + 1) (partialQuotient base count) := by
  rw [partialQuotient, risingQuotient_succ (by decide), Nat.add_comm 1 count]
  rfl

theorem partialQuotient_succ_of_isFinite (h : (partialQuotient base count).isFinite = true) :
    partialQuotient base (count + 1) =
      nextQuotient base (count + 1) (partialQuotient base count) := by
  have hinfinite := (Binary64.isFinite_iff.mp h).2
  rw [partialQuotient_succ, if_neg (by simp [hinfinite])]

theorem isInfinite_partialQuotient_of_le {i j : Nat}
    (h : (partialQuotient base i).isInfinite = true) (hle : i ≤ j) :
    (partialQuotient base j).isInfinite = true := by
  induction j, hle using Nat.le_induction with
  | base => exact h
  | succ j hle ih => rwa [partialQuotient_succ, if_pos ih]

/-! ## Coefficients -/

/-- The exact number after some steps. -/
def coefficient (base count : Nat) : Nat := (base + count).choose count

theorem coefficient_zero (base : Nat) : coefficient base 0 = 1 :=
  Nat.choose_zero_right _

theorem coefficient_pos (base count : Nat) : 0 < coefficient base count :=
  Nat.choose_pos (Nat.le_add_left count base)

theorem coefficient_le_coefficient (hbase : base ≤ base') (hcount : count ≤ count') :
    coefficient base count ≤ coefficient base' count' := by
  rw [coefficient, coefficient]
  calc
    (base + count).choose count ≤ (base' + count).choose count :=
      Nat.choose_le_choose count (Nat.add_le_add_right hbase count)
    _ = (base' + count).choose base' := (Nat.choose_symm_add).symm
    _ ≤ (base' + count').choose base' :=
      Nat.choose_le_choose base' (Nat.add_le_add_left hcount base')
    _ = (base' + count').choose count' := Nat.choose_symm_add

theorem succ_mul_coefficient (base count : Nat) :
    (count + 1) * coefficient base (count + 1) =
      coefficient base count * (base + (count + 1)) := by
  rw [coefficient, coefficient, Nat.mul_comm, Nat.mul_comm (Nat.choose (base + count) _)]
  exact (Nat.add_one_mul_choose_eq (base + count) count).symm

theorem mul_coefficient_le_succ (base count : Nat) :
    count * coefficient base count ≤ (count + 1) * coefficient base (count + 1) := by
  rw [succ_mul_coefficient, Nat.mul_comm]
  exact Nat.mul_le_mul_left _ (by omega)

/-- The products grow at least as powers of four, as long as no step has a number above the base. -/
theorem two_pow_le_product (hcount : 0 < count) (hle : count ≤ base) :
    2 ^ (2 * count) ≤ 2 * (count * coefficient base count) := by
  calc
    2 ^ (2 * count) = 4 ^ count := Nat.pow_mul 2 2 count
    _ ≤ 2 * count * count.centralBinom :=
      Nat.four_pow_le_two_mul_self_mul_centralBinom count hcount
    _ ≤ 2 * count * coefficient base count := by
      apply Nat.mul_le_mul_left
      rw [Nat.centralBinom, Nat.two_mul]
      exact coefficient_le_coefficient hle le_rfl
    _ = 2 * (count * coefficient base count) := Nat.mul_assoc _ _ _

/-! ## Errors -/

/-- A finite number is the exact one up to the roundings of the steps before. -/
structure Tracks (base count : Nat) (x : Binary64) : Prop where
  isFinite : x.isFinite = true
  negative : x.negative = false
  one_le : 1 ≤ x.value
  within : Within (3 * count) (coefficient base count) x.value

theorem tracks_one (base : Nat) : Tracks base 0 .one := by
  have hvalue : Binary64.one.value = 1 := by
    rw [value_eq_quanta rfl, quanta_one, div_self cast_quantaPerOne_pos.ne']
  refine ⟨by decide, rfl, hvalue.ge, ?_⟩
  rw [hvalue, coefficient_zero, Nat.cast_one]
  exact .refl 1

theorem tracks_div {product : ℚ} (hcount : count + 1 ≤ 2 ^ 53) (hy : IsRounded product y)
    (hfinite : y.isFinite = true) (hge : ((count + 1 : Nat) : ℚ) ≤ product)
    (hwithin : Within (3 * count + 1) ((count + 1) * coefficient base (count + 1) : Nat) product) :
    Tracks base (count + 1) (y.div (ofNat (count + 1))) := by
  have hone : (1 : ℚ) ≤ (count + 1 : Nat) := by exact_mod_cast Nat.le_add_left 1 count
  have hpos : (0 : ℚ) < (count + 1 : Nat) := zero_lt_one.trans_le hone
  obtain ⟨hquotient, hquotientFinite⟩ :=
    isRounded_div_ofNat hfinite hy.negative (Nat.succ_pos count) hcount
  have hquotientGe : ((1 : Nat) : ℚ) ≤ y.value / (count + 1 : Nat) := by
    rw [Nat.cast_one, one_le_div hpos]
    exact hy.le_value hfinite (onGrid_mul_quantaPerOne hcount) hge
  have hvalueGe :=
    hquotient.le_value hquotientFinite (onGrid_mul_quantaPerOne (by decide)) hquotientGe
  rw [Nat.cast_one] at hquotientGe hvalueGe
  refine ⟨hquotientFinite, hquotient.negative, hvalueGe, ?_⟩
  have hrounded := hwithin.trans (hy.within hfinite (hone.trans hge))
  have hexact : (((count + 1) * coefficient base (count + 1) : Nat) : ℚ) / (count + 1 : Nat) =
      coefficient base (count + 1) := by
    rw [Nat.cast_mul, mul_div_cancel_left₀ _ hpos.ne']
  rw [← hexact]
  exact (hrounded.div hpos.le).trans (hquotient.within hquotientFinite hquotientGe)

/-- A step is infinite if its product is out of range, and else adds three roundings. -/
theorem Tracks.step (h : Tracks base count x) (hcount : count + 1 ≤ 2 ^ 53)
    (hfactor : ((base + (count + 1) : Nat) : ℚ) < overflowBound) :
    ∃ product : ℚ,
      Within (3 * count + 1) ((count + 1) * coefficient base (count + 1) : Nat) product ∧
      (overflowBound ≤ product ∧ (nextQuotient base (count + 1) x).isInfinite = true ∨
        product < overflowBound ∧ Tracks base (count + 1) (nextQuotient base (count + 1) x)) := by
  have hround := isRounded_ofNat (base + (count + 1))
  have hfinite := hround.isFinite_iff.mpr hfactor
  have hproduct := isRounded_mul h.isFinite hfinite h.negative rfl
  -- The factor is at least the divisor, so neither the product nor the quotient is below one.
  have hone : (1 : ℚ) ≤ (count + 1 : Nat) := by exact_mod_cast Nat.le_add_left 1 count
  have hle : ((count + 1 : Nat) : ℚ) ≤ (base + (count + 1) : Nat) := by
    exact_mod_cast Nat.le_add_left _ base
  have hge := hround.le_value hfinite (onGrid_mul_quantaPerOne hcount) hle
  have hpos : 0 ≤ (ofNat (base + (count + 1))).value := value_nonneg rfl
  have hwithin : Within (3 * count + 1) ((count + 1) * coefficient base (count + 1) : Nat)
      (x.value * (ofNat (base + (count + 1))).value) := by
    rw [succ_mul_coefficient, Nat.cast_mul]
    exact h.within.mul (hround.within hfinite (hone.trans hle)) (Nat.cast_nonneg _)
      (Nat.cast_nonneg _) (value_nonneg h.negative) hpos
  refine ⟨_, hwithin, ?_⟩
  rcases le_or_gt overflowBound (x.value * (ofNat (base + (count + 1))).value) with hlarge | hsmall
  · have hinfinite := hproduct.isInfinite_iff.mpr hlarge
    exact Or.inl ⟨hlarge, isInfinite_div hinfinite (isExact_ofNat hcount).isFinite⟩
  · have hproductFinite := hproduct.isFinite_iff.mpr hsmall
    have hproductGe := hge.trans (le_mul_of_one_le_left hpos h.one_le)
    exact Or.inr ⟨hsmall, tracks_div hcount hproduct hproductFinite hproductGe hwithin⟩

/-! ## Runs -/

theorem cast_add_lt_of_succ (h : ((base + (count + 1) : Nat) : ℚ) < overflowBound) :
    ((base + count : Nat) : ℚ) < overflowBound :=
  lt_of_le_of_lt (by exact_mod_cast Nat.le_succ (base + count)) h

/-- The number is infinite after some steps, or it tracks the coefficient. -/
theorem infinite_or_tracks (hcount : count ≤ 2 ^ 53)
    (hfactor : ((base + count : Nat) : ℚ) < overflowBound) :
    (partialQuotient base count).isInfinite = true ∨
      Tracks base count (partialQuotient base count) := by
  induction count with
  | zero => exact Or.inr (tracks_one base)
  | succ count ih =>
      rcases ih (by omega) (cast_add_lt_of_succ hfactor) with hinfinite | htracks
      · exact Or.inl (isInfinite_partialQuotient_of_le hinfinite (Nat.le_succ count))
      · rw [partialQuotient_succ_of_isFinite htracks.isFinite]
        obtain ⟨product, -, ⟨-, hinfinite⟩ | ⟨-, hnext⟩⟩ := htracks.step hcount hfactor
        · exact Or.inl hinfinite
        · exact Or.inr hnext

theorem tracks_of_lt (hcount : count ≤ 2 ^ 53)
    (hfactor : ((base + count : Nat) : ℚ) < overflowBound)
    (hroom : ((count * coefficient base count : Nat) : ℚ) < overflowBound * loss (3 * count)) :
    Tracks base count (partialQuotient base count) := by
  have hbound : 0 ≤ overflowBound := (Nat.cast_nonneg _).trans hfactor.le
  induction count with
  | zero => exact tracks_one base
  | succ count ih =>
      have hloss : loss (3 * (count + 1)) ≤ loss (3 * count + 1) := loss_le_loss (by omega)
      have hroom' : (((count + 1) * coefficient base (count + 1) : Nat) : ℚ) <
          overflowBound * loss (3 * count + 1) :=
        hroom.trans_le (mul_le_mul_of_nonneg_left hloss hbound)
      have htracks : Tracks base count (partialQuotient base count) := by
        apply ih (by omega) (cast_add_lt_of_succ hfactor)
        calc
          ((count * coefficient base count : Nat) : ℚ)
            ≤ ((count + 1) * coefficient base (count + 1) : Nat) := by
            exact_mod_cast mul_coefficient_le_succ base count
          _ < overflowBound * loss (3 * count + 1) := hroom'
          _ ≤ overflowBound * loss (3 * count) :=
            mul_le_mul_of_nonneg_left (loss_le_loss (Nat.le_succ _)) hbound
      rw [partialQuotient_succ_of_isFinite htracks.isFinite]
      obtain ⟨product, hproduct, ⟨hlarge, -⟩ | ⟨-, hnext⟩⟩ := htracks.step hcount hfactor
      · have hle := (mul_le_mul_of_nonneg_right hlarge (loss_pos _).le).trans hproduct.upper
        exact absurd hroom' hle.not_gt
      · exact hnext

theorem isInfinite_succ_of_le (hcount : count + 1 ≤ 2 ^ 53)
    (hfactor : ((base + (count + 1) : Nat) : ℚ) < overflowBound)
    (hlarge : overflowBound ≤
      ((count + 1) * coefficient base (count + 1) : Nat) * loss (3 * count + 1)) :
    (partialQuotient base (count + 1)).isInfinite = true := by
  rcases infinite_or_tracks (by omega) (cast_add_lt_of_succ hfactor) with hinfinite | htracks
  · exact isInfinite_partialQuotient_of_le hinfinite (Nat.le_succ count)
  · rw [partialQuotient_succ_of_isFinite htracks.isFinite]
    obtain ⟨product, hproduct, ⟨-, hinfinite⟩ | ⟨hsmall, -⟩⟩ := htracks.step hcount hfactor
    · exact hinfinite
    · exact absurd (hlarge.trans hproduct.lower) hsmall.not_ge

/-! ## Range -/

/-- The part of the range by which the roundings of a number of choices may be off. -/
def choiceMargin : ℚ := 1 / 2 ^ 42

/-- The greatest number of steps whose products can be in range. -/
def maxSteps : Nat := 512

theorem le_loss {roundings : Nat} (h : roundings ≤ 3 * (maxSteps + 1)) :
    1 - 1539 * unitRoundoff ≤ loss roundings :=
  (one_sub_mul_le_loss 1539).trans (loss_le_loss h)

theorem margin_lt_overflowBound {roundings : Nat} (h : roundings ≤ 3 * (maxSteps + 1)) :
    (1 - choiceMargin) * 2 ^ 1024 < overflowBound * loss roundings := by
  have hloss := le_loss h
  have hfactor : 1 - choiceMargin < (1 - 1 / 2 ^ 54) * (1 - 1539 * unitRoundoff) := by
    norm_num [choiceMargin, unitRoundoff]
  have hrange : (0 : ℚ) < 2 ^ 1024 := by positivity
  rw [overflowBound_eq]
  generalize (2 : ℚ) ^ 1024 = range at hrange ⊢
  calc
    (1 - choiceMargin) * range < (1 - 1 / 2 ^ 54) * (1 - 1539 * unitRoundoff) * range :=
      mul_lt_mul_of_pos_right hfactor hrange
    _ ≤ (1 - 1 / 2 ^ 54) * loss roundings * range := by
      gcongr
    _ = (1 - 1 / 2 ^ 54) * range * loss roundings := by ring

theorem overflowBound_le_margin {roundings : Nat} (h : roundings ≤ 3 * (maxSteps + 1)) :
    overflowBound ≤ (1 + choiceMargin) * 2 ^ 1024 * loss roundings := by
  have hloss := le_loss h
  have hfactor : 1 - 1 / 2 ^ 54 ≤ (1 + choiceMargin) * (1 - 1539 * unitRoundoff) := by
    norm_num [choiceMargin, unitRoundoff]
  have hrange : (0 : ℚ) < 2 ^ 1024 := by positivity
  rw [overflowBound_eq]
  generalize (2 : ℚ) ^ 1024 = range at hrange ⊢
  calc
    (1 - 1 / 2 ^ 54) * range ≤ (1 + choiceMargin) * (1 - 1539 * unitRoundoff) * range :=
      mul_le_mul_of_nonneg_right hfactor hrange.le
    _ ≤ (1 + choiceMargin) * loss roundings * range := by
      gcongr
      norm_num [choiceMargin]
    _ = (1 + choiceMargin) * range * loss roundings := by ring

/-- More steps than the greatest number have a product beyond the margin. -/
theorem margin_le_product (hcount : maxSteps < count) (hle : count ≤ base) :
    (1 + choiceMargin) * 2 ^ 1024 ≤ (count * coefficient base count : Nat) := by
  have hproduct : 2 * 2 ^ exponentBound ≤ count * coefficient base count := by
    have hexponent : exponentBound + 2 ≤ 2 * count := by
      rw [maxSteps] at hcount
      rw [exponentBound]
      omega
    have hpow := Nat.pow_le_pow_right two_pos hexponent
    have hgrowth := hpow.trans (two_pow_le_product (by omega) hle)
    rw [Nat.pow_add] at hgrowth
    omega
  have hmargin : 1 + choiceMargin ≤ 2 := by norm_num [choiceMargin]
  calc
    (1 + choiceMargin) * 2 ^ exponentBound ≤ 2 * 2 ^ exponentBound :=
      mul_le_mul_of_nonneg_right hmargin (by positivity)
    _ ≤ (count * coefficient base count : Nat) := by exact_mod_cast hproduct

theorem isInfinite_of_le (hle : count ≤ base) (hfactor : ((base + count : Nat) : ℚ) < overflowBound)
    (hlarge : (1 + choiceMargin) * 2 ^ 1024 ≤ (count * coefficient base count : Nat)) :
    (partialQuotient base count).isInfinite = true := by
  -- The step with the first product that is known to be beyond the margin.
  obtain ⟨step, hstep, hsteps, hproduct⟩ : ∃ step, step + 1 ≤ count ∧ step ≤ maxSteps ∧
      (1 + choiceMargin) * 2 ^ 1024 ≤ ((step + 1) * coefficient base (step + 1) : Nat) := by
    rcases Nat.lt_or_ge maxSteps count with hmany | hfew
    · exact ⟨maxSteps, hmany, le_rfl,
        margin_le_product (Nat.lt_succ_self maxSteps) (Nat.le_trans hmany hle)⟩
    · cases count with
      | zero =>
          have hpos : (0 : ℚ) < (1 + choiceMargin) * 2 ^ 1024 := by
            rw [choiceMargin]
            positivity
          rw [Nat.zero_mul, Nat.cast_zero] at hlarge
          exact absurd hlarge hpos.not_ge
      | succ step => exact ⟨step, le_rfl, by omega, hlarge⟩
  have hfactor' : ((base + (step + 1) : Nat) : ℚ) < overflowBound :=
    lt_of_le_of_lt (by exact_mod_cast Nat.add_le_add_left hstep base) hfactor
  apply isInfinite_partialQuotient_of_le _ hstep
  apply isInfinite_succ_of_le (by rw [maxSteps] at hsteps; omega) hfactor'
  exact (overflowBound_le_margin (by omega)).trans
    (mul_le_mul_of_nonneg_right hproduct (loss_pos _).le)

theorem tracks_of_le (hle : count ≤ base) (hfactor : ((base + count : Nat) : ℚ) < overflowBound)
    (hsmall : ((count * coefficient base count : Nat) : ℚ) ≤ (1 - choiceMargin) * 2 ^ 1024) :
    Tracks base count (partialQuotient base count) := by
  have hcount : count ≤ maxSteps := by
    by_contra hnot
    have hlarge := (margin_le_product (Nat.lt_of_not_le hnot) hle).trans hsmall
    have hmargin : 1 - choiceMargin < 1 + choiceMargin := by norm_num [choiceMargin]
    exact absurd hlarge (mul_lt_mul_of_pos_right hmargin (by positivity)).not_ge
  apply tracks_of_lt (by rw [maxSteps] at hcount; omega) hfactor
  exact hsmall.trans_lt (margin_lt_overflowBound (by omega))

/-- A number that tracks the coefficient is off by the margin at most. -/
theorem Tracks.abs_sub_le (h : Tracks base count x) (hcount : count ≤ maxSteps + 1) :
    |x.value - coefficient base count| ≤ coefficient base count * choiceMargin := by
  have hloss := le_loss (Nat.mul_le_mul_left 3 hcount)
  have hcoefficient : (0 : ℚ) ≤ coefficient base count := Nat.cast_nonneg _
  have hmargin : 1 - choiceMargin ≤ 1 - 1539 * unitRoundoff := by
    norm_num [choiceMargin, unitRoundoff]
  have hproduct : 1 ≤ (1 + choiceMargin) * (1 - 1539 * unitRoundoff) := by
    norm_num [choiceMargin, unitRoundoff]
  have hpositive : (0 : ℚ) < 1 - 1539 * unitRoundoff := by
    norm_num [unitRoundoff]
  have hupper : x.value * (1 - 1539 * unitRoundoff) ≤
      coefficient base count * (1 + choiceMargin) * (1 - 1539 * unitRoundoff) := by
    calc
      x.value * (1 - 1539 * unitRoundoff) ≤ x.value * loss (3 * count) :=
        mul_le_mul_of_nonneg_left hloss (zero_le_one.trans h.one_le)
      _ ≤ coefficient base count * 1 := h.within.upper.trans_eq (mul_one _).symm
      _ ≤ coefficient base count * ((1 + choiceMargin) * (1 - 1539 * unitRoundoff)) :=
        mul_le_mul_of_nonneg_left hproduct hcoefficient
      _ = _ := (mul_assoc _ _ _).symm
  have hlower : coefficient base count * (1 - choiceMargin) ≤ x.value :=
    (mul_le_mul_of_nonneg_left (hmargin.trans hloss) hcoefficient).trans h.within.lower
  rw [abs_le]
  constructor
  · linarith
  · linarith [le_of_mul_le_mul_right hupper hpositive]

end Operation

end StackCalc
