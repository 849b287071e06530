import Mathlib
import StackCalc.Proofs.Operation.Choices

/-!
# Small numbers of choices are exact or next to exact

The computation of a number of choices is exact as long as its products have at most 53 bits.  The
product of a step may have more although the number after it has not.  Then it is rounded, and the
quotient is the exact number, the integer next to it or a number between both.

Beyond a base of 640 at most six steps stay in 53 bits, and only the product of the last one can
be rounded.  For a smaller base there are at most 28 steps, and the computation is followed step
by step.  So a number of choices of at most 53 bits is off by one at most, and it is exact up to a
third of `2 ^ 53`.
-/

namespace StackCalc

open Binary64

namespace Operation

variable {x : Binary64} {base count c m : Nat}

/-! ## Coefficients -/

theorem add_succ_le_coefficient (hbase : 0 < base) (count : Nat) :
    base + (count + 1) ≤ coefficient base (count + 1) := by
  have hcoefficient : count + 1 ≤ coefficient base count := by
    calc
      count + 1 = coefficient 1 count := by
        rw [coefficient, Nat.add_comm 1 count, Nat.choose_succ_self_right]
      _ ≤ coefficient base count := coefficient_le_coefficient hbase le_rfl
  have hproduct := succ_mul_coefficient base count
  apply Nat.le_of_mul_le_mul_left _ (Nat.succ_pos count)
  rw [Nat.succ_eq_add_one, hproduct]
  exact Nat.mul_le_mul_right _ hcoefficient

theorem mul_coefficient_le (h : count * (count + 1) ≤ base + (count + 1)) :
    count * coefficient base count ≤ coefficient base (count + 1) := by
  apply Nat.le_of_mul_le_mul_left _ (Nat.succ_pos count)
  rw [Nat.succ_eq_add_one, succ_mul_coefficient]
  calc
    (count + 1) * (count * coefficient base count) =
        coefficient base count * (count * (count + 1)) := by ring
    _ ≤ coefficient base count * (base + (count + 1)) := Nat.mul_le_mul_left _ h

/-! ## Exact steps -/

theorem isRounded_product (h : IsExact (coefficient base count) x)
    (hfactor : base + (count + 1) ≤ 2 ^ 53) :
    IsRounded ((count + 1) * coefficient base (count + 1) : Nat)
      (x.mul (.ofNat (base + (count + 1)))) := by
  have hexact := isExact_ofNat hfactor
  rw [succ_mul_coefficient, Nat.cast_mul, ← h.value, ← hexact.value]
  exact isRounded_mul h.isFinite hexact.isFinite h.negative hexact.negative

theorem isExact_nextQuotient (h : IsExact (coefficient base count) x)
    (hsmall : (count + 1) * coefficient base (count + 1) ≤ 2 ^ 53) :
    IsExact (coefficient base (count + 1)) (nextQuotient base (count + 1) x) := by
  have hfactor : base + (count + 1) ≤ 2 ^ 53 := by
    rw [succ_mul_coefficient] at hsmall
    exact (Nat.le_mul_of_pos_left _ (coefficient_pos base count)).trans hsmall
  have hproduct := (isRounded_product h hfactor).isExact hsmall
  apply hproduct.div_ofNat (Nat.succ_pos count)
  · exact (Nat.le_mul_of_pos_right _ (coefficient_pos base (count + 1))).trans hsmall
  · exact (Nat.le_mul_of_pos_left _ (Nat.succ_pos count)).trans hsmall

theorem isExact_zero (base : Nat) : IsExact (coefficient base 0) (partialQuotient base 0) := by
  have hone : Binary64.one = ofNat 1 := by decide +kernel
  rw [coefficient_zero, partialQuotient, risingQuotient, hone]
  exact isExact_ofNat (by decide)

/-- The number is exact as long as the products have at most 53 bits. -/
theorem isExact_partialQuotient (hsmall : count * coefficient base count ≤ 2 ^ 53) :
    IsExact (coefficient base count) (partialQuotient base count) := by
  induction count with
  | zero => exact isExact_zero base
  | succ count ih =>
      have hexact := ih ((mul_coefficient_le_succ base count).trans hsmall)
      rw [partialQuotient_succ_of_isFinite hexact.isFinite]
      exact isExact_nextQuotient hexact hsmall

/-! ## The last step -/

/-- An integer is a number of choices or next to it, and it is the number of choices up to a third
of `2 ^ 53`. -/
structure IsClose (c m : Nat) : Prop where
  le : m ≤ c + 1
  ge : c ≤ m + 1
  eq : 3 * c ≤ 2 ^ 53 → m = c

instance (c m : Nat) : Decidable (IsClose c m) :=
  decidable_of_iff (m ≤ c + 1 ∧ c ≤ m + 1 ∧ (3 * c ≤ 2 ^ 53 → m = c))
    ⟨fun ⟨hle, hge, heq⟩ => ⟨hle, hge, heq⟩, fun h => ⟨h.le, h.ge, h.eq⟩⟩

theorem le_succ_of_abs_sub_lt_two (h : |(m : ℚ) - c| < 2) : m ≤ c + 1 ∧ c ≤ m + 1 := by
  have hint : |(m : ℤ) - c| < 2 := by exact_mod_cast h
  obtain ⟨hlower, hupper⟩ := abs_lt.mp hint
  constructor
  · omega
  · omega

/-- The number after some steps is rounded to a close integer. -/
def EndsClose (base count : Nat) : Prop :=
  (partialQuotient base count).isFinite = true ∧
    IsClose (coefficient base count) (partialQuotient base count).nearestEvenWhole

theorem endsClose_of_isExact (h : IsExact (coefficient base count) (partialQuotient base count)) :
    EndsClose base count := by
  refine ⟨h.isFinite, ?_⟩
  rw [h.nearestEvenWhole_eq]
  exact ⟨Nat.le_succ _, Nat.le_succ _, fun _ => rfl⟩

theorem product_le (hcount : count ≤ 2 ^ 53) (hc : c ≤ 2 ^ 53) :
    2 * (count * c) ≤ 2 ^ exponentBound := by
  have hexponent : 107 ≤ exponentBound := by decide
  calc
    2 * (count * c) ≤ 2 * (2 ^ 53 * 2 ^ 53) := Nat.mul_le_mul_left 2 (Nat.mul_le_mul hcount hc)
    _ = 2 ^ 107 := by decide
    _ ≤ 2 ^ exponentBound := pow_le_pow_right₀ one_le_two hexponent

/-- The last step rounds an exact product and the quotient of it. -/
structure LastStep (base count : Nat) : Prop where
  base_pos : 0 < base
  exact : IsExact (coefficient base count) (partialQuotient base count)
  small : coefficient base (count + 1) ≤ 2 ^ 53

namespace LastStep

theorem factor_le (h : LastStep base count) : base + (count + 1) ≤ 2 ^ 53 :=
  (add_succ_le_coefficient h.base_pos count).trans h.small

theorem divisor_le (h : LastStep base count) : count + 1 ≤ 2 ^ 53 :=
  (Nat.le_add_left _ base).trans h.factor_le

theorem isExact_of_onGrid (h : LastStep base count)
    (hgrid : OnGrid ((count + 1) * coefficient base (count + 1) * quantaPerOne)) :
    IsExact (coefficient base (count + 1)) (partialQuotient base (count + 1)) := by
  have hrange := product_le h.divisor_le h.small
  have hpos : 0 < (count + 1) * coefficient base (count + 1) :=
    Nat.mul_pos (Nat.succ_pos count) (coefficient_pos base (count + 1))
  have hproduct := (isRounded_product h.exact h.factor_le).isExact_of_onGrid hgrid
    (lt_of_lt_of_le (by omega) hrange)
  rw [partialQuotient_succ_of_isFinite h.exact.isFinite]
  exact hproduct.div_ofNat (Nat.succ_pos count) h.divisor_le h.small

theorem exists_product (h : LastStep base count) :
    ∃ y : Binary64, y.isFinite = true ∧
      IsRounded ((count + 1) * coefficient base (count + 1) : Nat) y ∧
      IsRounded (y.value / (count + 1 : Nat)) (partialQuotient base (count + 1)) ∧
      (partialQuotient base (count + 1)).isFinite = true := by
  have hproduct := isRounded_product h.exact h.factor_le
  have hfinite := hproduct.isFinite_iff.mpr
    (cast_lt_overflowBound (product_le h.divisor_le h.small))
  rw [partialQuotient_succ_of_isFinite h.exact.isFinite]
  exact ⟨_, hfinite, hproduct,
    isRounded_div_ofNat hfinite hproduct.negative (Nat.succ_pos count) h.divisor_le⟩

theorem abs_quotient_sub_le {y error : ℚ}
    (hy : |y - ((count + 1) * c : Nat)| ≤ error * (count + 1 : Nat)) :
    |y / (count + 1 : Nat) - c| ≤ error := by
  have hpos : (0 : ℚ) < (count + 1 : Nat) := by exact_mod_cast Nat.succ_pos count
  have hsub : y / (count + 1 : Nat) - c = (y - ((count + 1) * c : Nat)) / (count + 1 : Nat) := by
    push_cast
    field_simp
  rwa [hsub, abs_div, abs_of_pos hpos, div_le_iff₀ hpos]

theorem abs_sub_le_one (h : LastStep base count) (hlt : coefficient base (count + 1) < 2 ^ 53) :
    |(partialQuotient base (count + 1)).value - coefficient base (count + 1)| ≤ 1 := by
  obtain ⟨y, hy, hproduct, hquotient, hfinite⟩ := h.exists_product
  obtain ⟨pred, hpred⟩ := Nat.exists_eq_add_of_lt (coefficient_pos base (count + 1))
  rw [Nat.zero_add] at hpred
  rw [hpred] at hlt hproduct ⊢
  have hsmall : ((pred + 1 : Nat) : ℚ) * unitRoundoff ≤ 1 := by
    have hcast : ((pred + 1 : Nat) : ℚ) ≤ 2 ^ 53 := by exact_mod_cast hlt.le
    rwa [unitRoundoff, mul_one_div, div_le_one (by positivity)]
  have herror : |y.value - ((count + 1) * (pred + 1) : Nat)| ≤ 1 * (count + 1 : Nat) := by
    apply (hproduct.abs_sub_le hy ?_).trans
    · rw [Nat.cast_mul, one_mul, mul_assoc]
      exact mul_le_of_le_one_right (Nat.cast_nonneg _) hsmall
    · exact_mod_cast Nat.mul_pos (Nat.succ_pos count) (Nat.succ_pos pred)
  obtain ⟨hlower, hupper⟩ := abs_le.mp (abs_quotient_sub_le herror)
  have hbelow : (pred : ℚ) ≤ y.value / (count + 1 : Nat) := by
    rw [Nat.cast_succ pred] at hlower
    linarith
  have habove : y.value / (count + 1 : Nat) ≤ (pred + 2 : Nat) := by
    rw [Nat.cast_succ pred] at hupper
    rw [Nat.cast_add pred 2]
    push_cast at hupper ⊢
    linarith
  have hge := hquotient.le_value hfinite (onGrid_mul_quantaPerOne (by omega)) hbelow
  have hle := hquotient.value_le hfinite (onGrid_mul_quantaPerOne hlt) habove
  push_cast at hle ⊢
  rw [abs_le]
  constructor
  · linarith
  · linarith

/-- The number is next to the coefficient if the product has at most 54 bits and there are more than
four steps. -/
theorem abs_sub_le_of_five (h : LastStep base count) (hcount : 5 ≤ count + 1)
    (hproduct : (count + 1) * coefficient base (count + 1) ≤ 2 ^ 54) :
    |(partialQuotient base (count + 1)).value - coefficient base (count + 1)| ≤ 2 / 5 := by
  obtain ⟨y, hy, hrounded, hquotient, hfinite⟩ := h.exists_product
  have herror : |y.value - ((count + 1) * coefficient base (count + 1) : Nat)| ≤
      1 / 5 * (count + 1 : Nat) := by
    apply (hrounded.abs_sub_le_one hy hproduct).trans
    have hcast : (5 : ℚ) ≤ (count + 1 : Nat) := by exact_mod_cast hcount
    linarith
  have hnear := abs_quotient_sub_le herror
  have hnearest := hquotient.nearest hfinite (onGrid_mul_quantaPerOne h.small)
  rw [abs_sub_comm (coefficient base (count + 1) : ℚ)] at hnearest
  apply (abs_sub_le _ (y.value / (count + 1 : Nat)) _).trans
  linarith

end LastStep

/-! ## Few steps -/

theorem isExact_of_dvd_four (hle : count ≤ base) (hdvd : count ∣ 4)
    (hsmall : coefficient base count ≤ 2 ^ 53) :
    IsExact (coefficient base count) (partialQuotient base count) := by
  by_cases hproduct : count * coefficient base count ≤ 2 ^ 53
  · exact isExact_partialQuotient hproduct
  · -- The product of the step before has at most 53 bits, and the last one has as many, trailing
    -- zeros aside.
    obtain ⟨shift, hshift, rfl⟩ := (Nat.dvd_prime_pow Nat.prime_two (m := 2)).mp hdvd
    obtain ⟨steps, hsteps⟩ := Nat.exists_eq_add_of_lt (Nat.two_pow_pos shift)
    rw [Nat.zero_add] at hsteps
    have hfour : 2 ^ shift ≤ 4 := Nat.pow_le_pow_right two_pos hshift
    have hbase : 8 ≤ base := by
      by_contra hnot
      have hbound := coefficient_le_coefficient (show base ≤ 7 by omega) hfour
      have hvalue : coefficient 7 4 = 330 := by decide
      apply hproduct
      calc
        2 ^ shift * coefficient base (2 ^ shift) ≤ 4 * 330 :=
          Nat.mul_le_mul hfour (hbound.trans_eq hvalue)
        _ ≤ 2 ^ 53 := by decide
    rw [hsteps] at hfour hsmall ⊢
    have hbefore : steps * (steps + 1) ≤ base + (steps + 1) := by
      have hthree : steps ≤ 3 := by omega
      interval_cases steps
      all_goals omega
    have hlast : LastStep base steps :=
      ⟨by omega, isExact_partialQuotient ((mul_coefficient_le hbefore).trans hsmall), hsmall⟩
    have hgrid := (onGrid_mul_quantaPerOne hsmall).mul_two_pow shift
    apply hlast.isExact_of_onGrid
    rwa [hsteps, Nat.mul_comm, ← Nat.mul_assoc] at hgrid

/-- Up to six steps with a large base round at most the product of the last step. -/
theorem endsClose_of_few (hbase : 640 < base) (hcount : count ≤ 6)
    (hsmall : coefficient base count ≤ 2 ^ 53) : EndsClose base count := by
  by_cases hproduct : count * coefficient base count ≤ 2 ^ 53
  · exact endsClose_of_isExact (isExact_partialQuotient hproduct)
  by_cases hdvd : count ∣ 4
  · exact endsClose_of_isExact (isExact_of_dvd_four (by omega) hdvd hsmall)
  obtain ⟨steps, rfl⟩ : ∃ steps, count = steps + 1 := by
    apply Nat.exists_eq_succ_of_ne_zero
    rintro rfl
    exact hproduct (by rw [Nat.zero_mul]; exact Nat.zero_le _)
  have hbefore : steps * (steps + 1) ≤ base + (steps + 1) := by
    have hmul : steps * (steps + 1) ≤ 5 * 6 := Nat.mul_le_mul (by omega) hcount
    omega
  have hlast : LastStep base steps :=
    ⟨by omega, isExact_partialQuotient ((mul_coefficient_le hbefore).trans hsmall), hsmall⟩
  rcases Nat.lt_or_eq_of_le hsmall with hlt | heq
  · obtain ⟨y, -, -, hquotient, hfinite⟩ := hlast.exists_product
    have hwhole := abs_nearestEvenWhole_sub_le hquotient.negative
    have hnear : |((partialQuotient base (steps + 1)).nearestEvenWhole : ℚ) -
        coefficient base (steps + 1)| < 2 :=
      (abs_sub_le _ _ _).trans_lt
        ((add_le_add hwhole (hlast.abs_sub_le_one hlt)).trans_lt (by norm_num))
    obtain ⟨hle, hge⟩ := le_succ_of_abs_sub_lt_two hnear
    refine ⟨hfinite, hle, hge, fun hthird => ?_⟩
    have hfive : 5 ≤ steps + 1 := by
      have hfour : steps + 1 ≠ 4 := fun heq => hdvd (by rw [heq])
      have hthree : ¬ steps + 1 ≤ 3 := fun hle =>
        hproduct ((Nat.mul_le_mul_right _ hle).trans hthird)
      omega
    have hbits : (steps + 1) * coefficient base (steps + 1) ≤ 2 ^ 54 := by
      have hmul := Nat.mul_le_mul_right (coefficient base (steps + 1)) hcount
      omega
    apply eq_of_abs_sub_lt_one
    exact (abs_sub_le _ _ _).trans_lt
      ((add_le_add hwhole (hlast.abs_sub_le_of_five hfive hbits)).trans_lt (by norm_num))
  · apply endsClose_of_isExact
    apply hlast.isExact_of_onGrid
    rw [heq, Nat.mul_right_comm]
    exact (onGrid_mul_quantaPerOne hlast.divisor_le).mul_two_pow 53

/-! ## Many steps -/

/-- The code of a quotient.  From one on the shift is read off the integer part, which is a small
number. -/
def codeOfQuotient (num den : Nat) : Nat :=
  if quantaPerOne ≤ num / den then
    let excess := (num / den / quantaPerOne).log2 + 1022
    excess * hiddenBit + nearestEven num (den <<< excess)
  else codeOfRatio num den

theorem log2_div_two_pow_add {n shift : Nat} (h : 2 ^ shift ≤ n) :
    (n / 2 ^ shift).log2 + shift = n.log2 := by
  have hpos := Nat.two_pow_pos shift
  have hquotient : n / 2 ^ shift ≠ 0 := (Nat.div_pos h hpos).ne'
  obtain ⟨hlower, hupper⟩ := (Nat.log2_eq_iff hquotient).mp rfl
  symm
  rw [Nat.log2_eq_iff (hpos.trans_le h).ne']
  constructor
  · rw [Nat.pow_add]
    exact (Nat.mul_le_mul_right _ hlower).trans (Nat.div_mul_le_self n _)
  · rw [Nat.add_right_comm, Nat.pow_add]
    exact (Nat.div_lt_iff_lt_mul hpos).mp hupper

theorem codeOfQuotient_eq (num den : Nat) : codeOfQuotient num den = codeOfRatio num den := by
  rw [codeOfQuotient]
  split
  · rename_i hone
    have hlarge : 2 * hiddenBit ≤ num / den := by
      have hle : 2 * hiddenBit ≤ quantaPerOne := by decide
      exact hle.trans hone
    have hexcess : (num / den / quantaPerOne).log2 + 1022 = excessBits (num / den) := by
      have hplaces : places = 1022 + 52 := rfl
      rw [quantaPerOne_eq_pow] at hone ⊢
      rw [excessBits, if_neg hlarge.not_gt, ← log2_div_two_pow_add hone, hplaces, ← Nat.add_assoc,
        Nat.add_sub_cancel]
    simp only [hexcess, codeOfRatio]
  · rfl

/-- Whether the numbers of the next steps stay close to their coefficients, from the quanta and the
coefficient before.  Coefficients of more than 53 bits are of no interest, and steps with a product
of at most 53 bits are exact. -/
def staysClose (base step quanta c : Nat) : (count : Nat) → Bool
  | 0 => true
  | count + 1 =>
    let next := c * (base + step) / step
    if 2 ^ 53 < next then true
    else if step * next ≤ 2 ^ 53 then
      staysClose base (step + 1) (next * quantaPerOne) next count
    else
      let product := codeOfQuotient (quanta * (base + step)) 1
      let quotient := codeOfQuotient (gridQuanta product) step
      decide (product < infinityCode) && decide (quotient < infinityCode) &&
        decide (IsClose next (nearestEven (gridQuanta quotient) quantaPerOne)) &&
        staysClose base (step + 1) (gridQuanta quotient) next count

/-- A finite number after some steps has some quanta. -/
structure HasQuanta (base count quanta : Nat) : Prop where
  isFinite : (partialQuotient base count).isFinite = true
  negative : (partialQuotient base count).negative = false
  quanta_eq : (partialQuotient base count).quanta = quanta

theorem hasQuanta_of_isExact (h : IsExact (coefficient base count) (partialQuotient base count)) :
    HasQuanta base count (coefficient base count * quantaPerOne) :=
  ⟨h.isFinite, h.negative, quanta_of_natCast h.value⟩

theorem HasQuanta.next {quanta product quotient : Nat} (h : HasQuanta base count quanta)
    (hfactor : base + (count + 1) ≤ 2 ^ 53)
    (hproduct : codeOfQuotient (quanta * (base + (count + 1))) 1 = product)
    (hquotient : codeOfQuotient (gridQuanta product) (count + 1) = quotient)
    (hproductLt : product < infinityCode) (hquotientLt : quotient < infinityCode) :
    HasQuanta base (count + 1) (gridQuanta quotient) := by
  have hmul : (partialQuotient base count).mul (ofNat (base + (count + 1))) =
      ofCode false product := by
    rw [mul_ofNat_eq h.isFinite h.negative hfactor, h.quanta_eq, ofRatio, ← codeOfQuotient_eq,
      hproduct]
  have hdiv : partialQuotient base (count + 1) = ofCode false quotient := by
    rw [partialQuotient_succ_of_isFinite h.isFinite, nextQuotient, hmul,
      div_ofNat_eq (isFinite_ofCode false hproductLt) rfl (Nat.succ_pos count)
        ((Nat.le_add_left _ base).trans hfactor),
      quanta_ofCode false hproductLt, ofRatio, ← codeOfQuotient_eq, hquotient]
  refine ⟨?_, ?_, ?_⟩
  · rw [hdiv]
    exact isFinite_ofCode false hquotientLt
  · rw [hdiv]
    rfl
  · rw [hdiv, quanta_ofCode false hquotientLt]

theorem endsClose_of_staysClose {steps quanta : Nat} (h : HasQuanta base steps quanta)
    (hrange : base + (steps + count) ≤ 2 ^ 53)
    (hcheck : staysClose base (steps + 1) quanta (coefficient base steps) count = true) :
    ∀ last, steps < last → last ≤ steps + count → coefficient base last ≤ 2 ^ 53 →
      EndsClose base last := by
  induction count generalizing steps quanta with
  | zero =>
      intro last hlt hle
      omega
  | succ count ih =>
      intro last hlt hle hsmall
      have hnext : coefficient base steps * (base + (steps + 1)) / (steps + 1) =
          coefficient base (steps + 1) := by
        rw [← succ_mul_coefficient, Nat.mul_div_cancel_left _ (Nat.succ_pos steps)]
      have hbits : coefficient base (steps + 1) ≤ 2 ^ 53 :=
        (coefficient_le_coefficient le_rfl (Nat.succ_le_of_lt hlt)).trans hsmall
      rw [staysClose] at hcheck
      simp only [hnext, if_neg hbits.not_gt] at hcheck
      split at hcheck
      · rename_i hproduct
        have hexact := isExact_partialQuotient hproduct
        rcases Nat.eq_or_lt_of_le (Nat.succ_le_of_lt hlt) with rfl | hlater
        · exact endsClose_of_isExact hexact
        · exact ih (hasQuanta_of_isExact hexact) (by omega) hcheck last hlater (by omega) hsmall
      · simp only [Bool.and_eq_true, decide_eq_true_eq] at hcheck
        obtain ⟨⟨⟨hproductLt, hquotientLt⟩, hclose⟩, hrest⟩ := hcheck
        have hquanta := h.next (by omega) rfl rfl hproductLt hquotientLt
        rcases Nat.eq_or_lt_of_le (Nat.succ_le_of_lt hlt) with rfl | hlater
        · refine ⟨hquanta.isFinite, ?_⟩
          rw [nearestEvenWhole, hquanta.quanta_eq]
          exact hclose
        · exact ih hquanta (by omega) hrest last hlater (by omega) hsmall

/-- All bases with more than six steps in 53 bits, and some with less. -/
theorem staysClose_of_small :
    ((List.range 641).all fun base => staysClose base 1 quantaPerOne 1 28) = true := by
  decide +kernel

theorem endsClose_of_small (hbase : base ≤ 640) (hcount : count ≤ 28)
    (hsmall : coefficient base count ≤ 2 ^ 53) : EndsClose base count := by
  have hstart := hasQuanta_of_isExact (isExact_zero base)
  have hcheck :
      staysClose base (0 + 1) (coefficient base 0 * quantaPerOne) (coefficient base 0) 28 =
        true := by
    rw [coefficient_zero, Nat.one_mul]
    exact List.all_eq_true.mp staysClose_of_small base (List.mem_range.mpr (by omega))
  rcases Nat.eq_zero_or_pos count with rfl | hpos
  · exact endsClose_of_isExact (isExact_zero base)
  · exact endsClose_of_staysClose hstart (by omega) hcheck count hpos (by omega) hsmall

/-- Every number of choices of at most 53 bits has a small base or few steps. -/
theorem small_or_few (hle : count ≤ base) (hsmall : coefficient base count ≤ 2 ^ 53) :
    base ≤ 640 ∧ count ≤ 28 ∨ 640 < base ∧ count ≤ 6 := by
  have hmany : 2 ^ 53 < coefficient 29 29 := by
    rw [coefficient, Nat.choose_eq_descFactorial_div_factorial]
    decide
  have hlarge : 2 ^ 53 < coefficient 641 7 := by
    rw [coefficient, Nat.choose_eq_descFactorial_div_factorial]
    decide
  rcases Nat.lt_or_ge 640 base with hbase | hbase
  · refine Or.inr ⟨hbase, ?_⟩
    by_contra hnot
    exact absurd (hlarge.trans_le (coefficient_le_coefficient hbase (by omega))) hsmall.not_gt
  · refine Or.inl ⟨hbase, ?_⟩
    by_contra hnot
    have hcount : 29 ≤ count := by omega
    exact absurd (hmany.trans_le (coefficient_le_coefficient (hcount.trans hle) hcount))
      hsmall.not_gt

theorem endsClose (hle : count ≤ base) (hsmall : coefficient base count ≤ 2 ^ 53) :
    EndsClose base count := by
  rcases small_or_few hle hsmall with ⟨hbase, hcount⟩ | ⟨hbase, hcount⟩
  · exact endsClose_of_small hbase hcount hsmall
  · exact endsClose_of_few hbase hcount hsmall

end Operation

open Operation

variable {a b : Binary64} {n r : Nat}

/-- A number of choices of at most 53 bits is computed, and it is off by one at most.  It is exact
up to a third of `2 ^ 53`, and if the number of steps divides four. -/
theorem choices_exact_or_next [Library] (h : IsChoice a b n r) (hsmall : n.choose r ≤ 2 ^ 53) :
    ∃ x m, BinaryOperation.nCr.apply a b = .ok x ∧ x.isFinite = true ∧ x.negative = false ∧
      x.value = (m : Nat) ∧ m ≤ n.choose r + 1 ∧ n.choose r ≤ m + 1 ∧
      (3 * n.choose r ≤ 2 ^ 53 ∨ choiceSteps n r ∣ 4 → m = n.choose r) := by
  rw [← h.coefficient_eq] at hsmall ⊢
  obtain ⟨hfinite, hclose⟩ := endsClose h.choiceSteps_le hsmall
  obtain ⟨hok, hresult, hvalue⟩ := h.apply_of_isFinite rfl hfinite
  refine ⟨_, _, hok, hresult, rfl, hvalue, hclose.le, hclose.ge, ?_⟩
  rintro (hthird | hdvd)
  · exact hclose.eq hthird
  · exact (isExact_of_dvd_four h.choiceSteps_le hdvd hsmall).nearestEvenWhole_eq

/-- The choices of half of fifty things are counted exactly. -/
theorem choices_exact_of_fifty :
    IsChoice (ofNat 50) (ofNat 25) 50 25 ∧ Nat.choose 50 25 ≤ 2 ^ 53 ∧
      ∃ x, BinaryOperation.nCr.apply (ofNat 50) (ofNat 25) = .ok x ∧
        x.value = Nat.choose 50 25 := by
  have hchoice : IsChoice (ofNat 50) (ofNat 25) 50 25 := isChoice_ofNat (by decide) (by decide)
  have hthird : 3 * Nat.choose 50 25 ≤ 2 ^ 53 := by
    rw [Nat.choose_eq_descFactorial_div_factorial]
    decide
  have hsmall : Nat.choose 50 25 ≤ 2 ^ 53 := (Nat.le_mul_of_pos_left _ (by decide)).trans hthird
  obtain ⟨x, m, hok, -, -, hvalue, -, -, hexact⟩ := choices_exact_or_next hchoice hsmall
  exact ⟨hchoice, hsmall, x, hok, by rw [hvalue, hexact (Or.inl hthird)]⟩

/-- Above a third of `2 ^ 53` a number of choices can be off by one.  The product of the third step
is rounded, and the quotient of it is in the middle between two integers. -/
theorem choices_off_by_one :
    IsChoice (ofNat 262147) (ofNat 3) 262147 3 ∧
      Nat.choose 262147 3 = 3002468471537665 ∧ 3002468471537665 ≤ 2 ^ 53 ∧
      ∃ x, BinaryOperation.nCr.apply (ofNat 262147) (ofNat 3) = .ok x ∧
        x.value = 3002468471537666 := by
  have hok : BinaryOperation.nCr.apply (ofNat 262147) (ofNat 3) = .ok (ofNat 3002468471537666) := by
    decide +kernel
  have hexact : IsExact 3002468471537666 (ofNat 3002468471537666) := isExact_ofNat (by decide)
  refine ⟨isChoice_ofNat (by decide) (by decide), ?_, by decide, _, hok, ?_⟩
  · rw [Nat.choose_eq_descFactorial_div_factorial]
    decide
  · exact_mod_cast hexact.value

end StackCalc
