import Mathlib
import StackCalc.Proofs.Expr.Finiteness
import StackCalc.Proofs.Reduction.SumTrees

/-!
# The range of a mean

The mean of finite numbers is in their range.  A finite sum is divided by the length, which never
takes it out of range.  If the sum is not finite, the elements are divided first.  Each quotient is
rounded once and the sum of the quotients at every level of its tree, so the computed mean can
exceed the mean magnitude by about a thousand parts in `2 ^ 53`.

This is never enough for a NaN.  But it is too much if the mean magnitude is within this distance of
two to the power of 1024.  A third of the greatest number rounds up, and three times the quotient is
infinite.

The sums are those of the standard library, whose order keeps the trees low.
-/

namespace StackCalc

open Binary64

/-! ## Counts -/

namespace Binary64

variable {x : Binary64} {n : Nat}

/-- A count is infinite, or it is rounded to at least one with a relative error. -/
theorem ofNat_cases (hn : 0 < n) :
    (ofNat n).isInfinite = true ∨
      (ofNat n).isFinite = true ∧ n < 2 ^ exponentBound ∧ quantaPerOne ≤ (ofNat n).quanta ∧
        n * quantaPerOne * (1 - unitRoundoff) ≤ (ofNat n).quanta := by
  have hrounds := roundsTo_codeOfRatio_one (n * quantaPerOne)
  have herror := (abs_le.mp (abs_gridQuanta_codeOfRatio_one_sub_le (n * quantaPerOne))).1
  have hofNat : ofNat n = ofCode false (codeOfRatio (n * quantaPerOne) 1) := rfl
  rw [hofNat]
  rcases Nat.lt_or_ge (codeOfRatio (n * quantaPerOne) 1) infinityCode with hlt | hge
  · right
    rw [quanta_ofCode false hlt]
    refine ⟨isFinite_ofCode false hlt, ?_, ?_, ?_⟩
    · have hrange : n * quantaPerOne < gridQuanta infinityCode := by
        by_contra hge
        have hcode := hrounds.le_of_ge (by exact_mod_cast Nat.le_of_not_lt hge)
        exact absurd hcode (Nat.not_le_of_lt hlt)
      rw [gridQuanta_infinityCode] at hrange
      exact Nat.lt_of_mul_lt_mul_right hrange
    · have hone : gridQuanta one.code ≤ n * quantaPerOne := by
        rw [← quanta_eq, quanta_one]
        exact Nat.le_mul_of_pos_left _ hn
      rw [← quanta_one, quanta_eq]
      exact gridQuanta_strictMono.monotone (hrounds.le_of_ge (by exact_mod_cast hone))
    · push_cast at herror ⊢
      linarith
  · left
    rw [isInfinite, code_ofCode, Nat.min_eq_left hge]
    exact beq_self_eq_true _

theorem div_of_isInfinite {y : Binary64} (hx : x.isFinite = true) (hy : y.isInfinite = true) :
    x.div y = ofCode (x.negative != y.negative) 0 := by
  obtain ⟨hnan, hinfinite⟩ := isFinite_iff.mp hx
  simp [div, hnan, hinfinite, isNaN_of_isInfinite hy, hy]

theorem quotient_finite {y : Binary64} (hx : x.isFinite = true) (hy : y.isFinite = true)
    (hone : quantaPerOne ≤ y.quanta) :
    (x.div y).isFinite = true ∧
      ((x.div y).quanta : ℚ) ≤
        x.quanta * quantaPerOne / y.quanta * (1 + unitRoundoff) + 1 / 2 := by
  have hypos : 0 < y.quanta := quantaPerOne_pos.trans_le hone
  have hzero := isZero_of_quanta_pos hypos
  have hrounds := roundsTo_codeOfRatio (x.quanta * quantaPerOne) hypos
  have herror :=
    (abs_le.mp (abs_gridQuanta_codeOfRatio_sub_le (x.quanta * quantaPerOne) hypos)).2
  have hle : ((x.quanta * quantaPerOne : Nat) : ℚ) / y.quanta ≤ gridQuanta x.code := by
    rw [← quanta_eq, div_le_iff₀ (by exact_mod_cast hypos)]
    exact_mod_cast Nat.mul_le_mul_left x.quanta hone
  have hcode : codeOfRatio (x.quanta * quantaPerOne) y.quanta < infinityCode :=
    (hrounds.le_of_le hle).trans_lt (by simpa [isFinite] using hx)
  rw [div_of_isFinite hx hy hzero, ofRatio, quanta_ofCode _ hcode]
  refine ⟨isFinite_ofCode _ hcode, ?_⟩
  push_cast at herror
  linarith

theorem mul_div_mul_le {m unit count divisor : ℚ} (hm : 0 ≤ m) (hunit : 0 ≤ unit)
    (hcount : 0 < count) (hdivisor : 0 < divisor)
    (hlower : count * unit * (1 - unitRoundoff) ≤ divisor) :
    m * unit / divisor * (1 + unitRoundoff) ≤ m / count * (1 + 3 * unitRoundoff) := by
  have hpos := unitRoundoff_pos
  have hfactor : 1 + unitRoundoff ≤ (1 + 3 * unitRoundoff) * (1 - unitRoundoff) := by
    norm_num [unitRoundoff]
  rw [div_mul_eq_mul_div, div_mul_eq_mul_div, div_le_div_iff₀ hdivisor hcount]
  calc
    m * unit * (1 + unitRoundoff) * count
      ≤ m * unit * ((1 + 3 * unitRoundoff) * (1 - unitRoundoff)) * count := by gcongr
    _ = m * (1 + 3 * unitRoundoff) * (count * unit * (1 - unitRoundoff)) := by ring
    _ ≤ m * (1 + 3 * unitRoundoff) * divisor := by gcongr

/-- The quotient by a count is rounded with a relative error, or by half a quantum. -/
theorem quanta_quotient_le (hn : 0 < n) (hx : x.isFinite = true)
    (hcount : (ofNat n).isFinite = true) :
    (x.div (ofNat n)).isFinite = true ∧
      ((x.div (ofNat n)).quanta : ℚ) ≤ x.quanta / n * (1 + 3 * unitRoundoff) + 1 / 2 := by
  have hcases := (ofNat_cases hn).resolve_left (by simp [(isFinite_iff.mp hcount).2])
  obtain ⟨-, -, hone, hlower⟩ := hcases
  obtain ⟨hfinite, hquanta⟩ := quotient_finite hx hcount hone
  refine ⟨hfinite, hquanta.trans ?_⟩
  have hnpos : (0 : ℚ) < n := by exact_mod_cast hn
  have hcountPos : (0 : ℚ) < (ofNat n).quanta := by
    exact_mod_cast quantaPerOne_pos.trans_le hone
  have hscale := mul_div_mul_le x.quanta.cast_nonneg cast_quantaPerOne_pos.le hnpos hcountPos hlower
  linarith

end Binary64

namespace Reduction

variable {xs : List Binary64} {n : Nat}

/-! ## Quotients -/

theorem mass_quotients_le (hn : 0 < n) (hxs : AllFinite xs) (hcount : (ofNat n).isFinite = true) :
    AllFinite (xs.map (·.div (ofNat n))) ∧
      (mass (xs.map (·.div (ofNat n))) : ℚ) ≤
        mass xs / n * (1 + 3 * unitRoundoff) + xs.length / 2 := by
  induction xs with
  | nil => exact ⟨hxs, by simp [mass]⟩
  | cons x xs ih =>
      obtain ⟨hx, hxle⟩ := quanta_quotient_le hn (hxs x List.mem_cons_self) hcount
      obtain ⟨hrest, hrestle⟩ := ih fun y hy => hxs y (List.mem_cons_of_mem _ hy)
      constructor
      · rw [List.map_cons]
        exact List.forall_mem_cons.mpr ⟨hx, hrest⟩
      · rw [List.map_cons, mass_cons, mass_cons, List.length_cons]
        push_cast
        rw [add_div, add_mul, add_div]
        linarith

theorem mass_quotients_of_isInfinite (hxs : AllFinite xs) (hcount : (ofNat n).isInfinite = true) :
    AllFinite (xs.map (·.div (ofNat n))) ∧ mass (xs.map (·.div (ofNat n))) = 0 := by
  have hcode : 0 < infinityCode := by decide
  induction xs with
  | nil => exact ⟨hxs, rfl⟩
  | cons x xs ih =>
      obtain ⟨hrest, hmass⟩ := ih fun y hy => hxs y (List.mem_cons_of_mem _ hy)
      rw [List.map_cons, div_of_isInfinite (hxs x List.mem_cons_self) hcount, mass_cons, hmass,
        quanta_ofCode _ hcode]
      exact ⟨List.forall_mem_cons.mpr ⟨isFinite_ofCode _ hcode, hrest⟩, rfl⟩

theorem mass_le (hxs : AllFinite xs) : (mass xs : ℚ) ≤ gridQuanta infinityCode * xs.length := by
  induction xs with
  | nil => simp [mass]
  | cons x xs ih =>
      have hx : (x.quanta : ℚ) ≤ gridQuanta infinityCode := by
        rw [gridQuanta_infinityCode]
        exact_mod_cast (quanta_lt (hxs x List.mem_cons_self)).le
      have hrest := ih fun y hy => hxs y (List.mem_cons_of_mem _ hy)
      rw [mass_cons, List.length_cons]
      push_cast
      linarith

theorem sum_abs_value (xs : List Binary64) :
    (xs.map fun x => |x.value|).sum = mass xs / quantaPerOne := by
  induction xs with
  | nil => simp [mass]
  | cons x xs ih =>
      rw [List.map_cons, List.sum_cons, ih, abs_value, mass_cons, Nat.cast_add, add_div]

/-! ## Growth of a mean -/

theorem growth_mul_le_one (height : Nat) : growth height * (1 - height * unitRoundoff) ≤ 1 := by
  induction height with
  | zero => simp [growth]
  | succ height ih =>
      have hgrowth := one_le_growth height
      have hstep : (1 + unitRoundoff) * (1 - (height + 1 : Nat) * unitRoundoff) ≤
          1 - height * unitRoundoff := by
        push_cast
        nlinarith [sq_nonneg unitRoundoff, mul_nonneg height.cast_nonneg (sq_nonneg unitRoundoff)]
      rw [growth, pow_succ, ← growth, mul_assoc]
      exact (mul_le_mul_of_nonneg_left hstep (by linarith)).trans ih

/-- How often the length of an array can be doubled until its count is infinite. -/
def meanDoublings : Nat := 1018

/-- The height of the tree of an array whose count is finite. -/
def meanHeight : Nat := 26 + meanDoublings

theorem length_le_of_lt {n : Nat} (h : n < 2 ^ exponentBound) :
    n ≤ 15 + 113 * 2 ^ meanDoublings := by
  have hexponent : exponentBound = 6 + meanDoublings := rfl
  rw [hexponent, Nat.pow_add] at h
  omega

/-- The part of the range that the growth of a mean may exceed. -/
def meanMargin : ℚ := 1 / 2 ^ 42

theorem growth_meanHeight_le : growth meanHeight ≤ 1 + 1045 * unitRoundoff := by
  have hle := growth_mul_le_one meanHeight
  have hpos : (0 : ℚ) < 1 - meanHeight * unitRoundoff := by
    norm_num [meanHeight, meanDoublings, unitRoundoff]
  have hproduct : 1 ≤ (1 + 1045 * unitRoundoff) * (1 - meanHeight * unitRoundoff) := by
    norm_num [meanHeight, meanDoublings, unitRoundoff]
  exact le_of_mul_le_mul_right (hle.trans hproduct) hpos

theorem growth_meanHeight_mul_lt {m average range part bound : ℚ} (hm : 0 ≤ m) (hrange : 0 < range)
    (hmass : m ≤ average * (1 + 3 * unitRoundoff) + unitRoundoff * range)
    (haverage : average ≤ part * range)
    (hbound : (1 + 1045 * unitRoundoff) * (part * (1 + 3 * unitRoundoff) + unitRoundoff) < bound) :
    growth meanHeight * m < bound * range := by
  have hpos := unitRoundoff_pos
  calc
    growth meanHeight * m ≤ (1 + 1045 * unitRoundoff) * m := by
      gcongr
      exact growth_meanHeight_le
    _ ≤ (1 + 1045 * unitRoundoff) *
        (part * range * (1 + 3 * unitRoundoff) + unitRoundoff * range) := by
      gcongr
      exact hmass.trans (by gcongr)
    _ = (1 + 1045 * unitRoundoff) * (part * (1 + 3 * unitRoundoff) + unitRoundoff) * range := by
      ring
    _ < bound * range := mul_lt_mul_of_pos_right hbound hrange

theorem half_length_le {n : Nat} (h : n < 2 ^ exponentBound) :
    (n : ℚ) / 2 ≤ unitRoundoff * gridQuanta infinityCode := by
  have hunit : 1 ≤ unitRoundoff * quantaPerOne := by
    have hle : 2 ^ 53 ≤ quantaPerOne := by
      have hplaces : 53 ≤ places := by decide
      rw [quantaPerOne_eq_pow]
      exact pow_le_pow_right₀ one_le_two hplaces
    rw [unitRoundoff, one_div_mul_eq_div, one_le_div (by positivity)]
    exact_mod_cast hle
  have hn : (n : ℚ) ≤ 2 ^ exponentBound := by
    exact_mod_cast h.le
  have hgrid : (gridQuanta infinityCode : ℚ) = 2 ^ exponentBound * quantaPerOne := by
    rw [gridQuanta_infinityCode]
    push_cast
    rfl
  have hnonneg : (0 : ℚ) ≤ n := n.cast_nonneg
  rw [hgrid]
  calc
    (n : ℚ) / 2 ≤ 2 ^ exponentBound * 1 := by linarith
    _ ≤ 2 ^ exponentBound * (unitRoundoff * quantaPerOne) :=
      mul_le_mul_of_nonneg_left hunit (hnonneg.trans hn)
    _ = unitRoundoff * (2 ^ exponentBound * quantaPerOne) := by ring

/-- The sum of the quotients is not a NaN, and it is finite unless the mean magnitude is within the
margin of the range. -/
theorem sum_quotients (hne : xs ≠ []) (hxs : AllFinite xs) :
    (sum (xs.map (·.div (ofNat xs.length)))).isNaN = false ∧
      ((mass xs : ℚ) / xs.length ≤ (1 - meanMargin) * gridQuanta infinityCode →
        (sum (xs.map (·.div (ofNat xs.length)))).isFinite = true) := by
  have hn : 0 < xs.length := List.length_pos_iff.mpr hne
  have hnpos : (0 : ℚ) < xs.length := by exact_mod_cast hn
  have hrange : (0 : ℚ) < gridQuanta infinityCode := by
    exact (Nat.cast_nonneg _).trans_lt (cast_gridQuanta_lt (show 0 < infinityCode by decide))
  have hlength : (xs.map (·.div (ofNat xs.length))).length = xs.length := List.length_map _
  rcases ofNat_cases hn with hinfinite | ⟨hcount, hlt, -, -⟩
  · obtain ⟨hfinite, hmass⟩ := mass_quotients_of_isInfinite hxs hinfinite
    have hle : xs.length ≤ 15 + 113 * 2 ^ xs.length := by
      have hpow : xs.length < 2 ^ xs.length := Nat.lt_two_pow_self
      omega
    have hsum := isSum_sum xs.length hfinite (hlength.trans_le hle)
    rw [hmass] at hsum
    have hok := (hsum.finite (by rwa [Nat.cast_zero, mul_zero])).1
    exact ⟨(isFinite_iff.mp hok).1, fun _ => hok⟩
  · obtain ⟨hfinite, hmass⟩ := mass_quotients_le hn hxs hcount
    have hsum : IsSum meanHeight _ _ :=
      isSum_sum meanDoublings hfinite (hlength.trans_le (length_le_of_lt hlt))
    have hmass' := hmass.trans (add_le_add_right (half_length_le hlt) _)
    have hnonneg : (0 : ℚ) ≤ mass (xs.map (·.div (ofNat xs.length))) := Nat.cast_nonneg _
    constructor
    · apply hsum.isNaN_eq_false
      have haverage : (mass xs : ℚ) / xs.length ≤ 1 * gridQuanta infinityCode := by
        rw [one_mul, div_le_iff₀ hnpos]
        exact mass_le hxs
      exact growth_meanHeight_mul_lt hnonneg hrange hmass' haverage (by norm_num [unitRoundoff])
    · intro haverage
      refine (hsum.finite ?_).1
      rw [← one_mul (gridQuanta infinityCode : ℚ)]
      exact growth_meanHeight_mul_lt hnonneg hrange hmass' haverage
        (by norm_num [unitRoundoff, meanMargin])

/-! ## The mean -/

theorem mean_eq (xs : List Binary64) :
    mean xs =
      if (sum xs).isFinite = true then (sum xs).div (ofNat xs.length)
      else sum (xs.map (·.div (ofNat xs.length))) := rfl

/-- A finite sum is divided without leaving the range. -/
theorem isFinite_mean_of_isFinite_sum (hne : xs ≠ []) (hsum : (sum xs).isFinite = true) :
    (mean xs).isFinite = true := by
  have hn : 0 < xs.length := List.length_pos_iff.mpr hne
  rw [mean_eq, if_pos hsum]
  rcases ofNat_cases hn with hinfinite | ⟨hcount, -, hone, -⟩
  · rw [div_of_isInfinite hsum hinfinite]
    exact isFinite_ofCode _ (by decide)
  · exact (quotient_finite hsum hcount hone).1

theorem mean_eq_of_not_isFinite (hsum : (sum xs).isFinite = false) :
    mean xs = sum (xs.map (·.div (ofNat xs.length))) := by
  rw [mean_eq, if_neg (by simp [hsum])]

theorem isNaN_mean (hne : xs ≠ []) (hxs : AllFinite xs) : (mean xs).isNaN = false := by
  cases hsum : (sum xs).isFinite with
  | true => exact (isFinite_iff.mp (isFinite_mean_of_isFinite_sum hne hsum)).1
  | false =>
      rw [mean_eq_of_not_isFinite hsum]
      exact (sum_quotients hne hxs).1

theorem isFinite_mean_of_le (hne : xs ≠ []) (hxs : AllFinite xs)
    (hle : (mass xs : ℚ) / xs.length ≤ (1 - meanMargin) * gridQuanta infinityCode) :
    (mean xs).isFinite = true := by
  cases hsum : (sum xs).isFinite with
  | true => exact isFinite_mean_of_isFinite_sum hne hsum
  | false =>
      rw [mean_eq_of_not_isFinite hsum]
      exact (sum_quotients hne hxs).2 hle

theorem apply_avg (hne : xs ≠ []) : Reducer.avg.apply xs = Operation.finiteResult (mean xs) := by
  have hempty : xs.isEmpty = false := List.isEmpty_eq_false_iff.mpr hne
  rw [Reducer.apply, hempty]
  rfl

/-- The mean of finite numbers is a number.  It is too large only if neither their sum is finite nor
their mean magnitude is below the margin of the range. -/
theorem mean_finite_or_near_limit (hne : xs ≠ []) (hxs : ∀ x ∈ xs, x.isFinite = true) :
    (∃ r, Reducer.avg.apply xs = .ok r ∧ r.isFinite = true) ∨
      Reducer.avg.apply xs = .error .tooLarge ∧ (sum xs).isFinite = false ∧
        (1 - 1 / 2 ^ 42) * 2 ^ 1024 * xs.length < (xs.map fun x => |x.value|).sum := by
  have hn : (0 : ℚ) < xs.length := by exact_mod_cast List.length_pos_iff.mpr hne
  rw [apply_avg hne]
  cases hmean : (mean xs).isFinite with
  | true => exact Or.inl ⟨mean xs, Operation.finiteResult_of_isFinite hmean, hmean⟩
  | false =>
      refine Or.inr ⟨Operation.finiteResult_of_isInfinite ?_, ?_, ?_⟩
      · by_contra hinfinite
        rw [isFinite_iff.mpr ⟨isNaN_mean hne hxs, by simpa using hinfinite⟩] at hmean
        cases hmean
      · by_contra hsum
        rw [isFinite_mean_of_isFinite_sum hne (by simpa using hsum)] at hmean
        cases hmean
      · by_contra hle
        rw [isFinite_mean_of_le hne hxs ?_] at hmean
        · cases hmean
        · rw [sum_abs_value, not_lt, div_le_iff₀ cast_quantaPerOne_pos] at hle
          rw [div_le_iff₀ hn, cast_gridQuanta_infinityCode, meanMargin]
          generalize (2 : ℚ) ^ 1024 = range at hle ⊢
          exact hle.trans_eq (by ring)

/-- The greatest finite number. -/
def greatest : Binary64 := ofCode false (infinityCode - 1)

theorem blockedSum_of_short (h : xs.length < 8) : blockedSum xs = sumFrom zero.neg xs := by
  rw [blockedSum, if_pos h]

/-- The sum of the first two numbers is infinite, but the mean is not. -/
theorem mean_finite_with_infinite_sum :
    [greatest, greatest, zero] ≠ [] ∧ (∀ x ∈ [greatest, greatest, zero], x.isFinite = true) ∧
      (sum [greatest, greatest, zero]).isFinite = false ∧
      ∃ r, Reducer.avg.apply [greatest, greatest, zero] = .ok r ∧ r.isFinite = true := by
  have hne : [greatest, greatest, zero] ≠ [] := List.cons_ne_nil _ _
  have hxs : ∀ x ∈ [greatest, greatest, zero], x.isFinite = true := by decide +kernel
  have hsum : (sum [greatest, greatest, zero]).isFinite = false := by
    rw [sum, blockedSum_of_short (by decide)]
    decide +kernel
  have hmean : (mean [greatest, greatest, zero]).isFinite = true := by
    rw [mean_eq_of_not_isFinite hsum, sum, blockedSum_of_short (by decide)]
    decide +kernel
  refine ⟨hne, hxs, hsum, ?_⟩
  rcases mean_finite_or_near_limit hne hxs with hok | ⟨herror, -⟩
  · exact hok
  · rw [apply_avg hne, Operation.finiteResult_of_isFinite hmean] at herror
    cases herror

/-- The mean of three copies of the greatest number is this number, but it is too large when it is
computed. -/
theorem mean_of_greatest_too_large :
    [greatest, greatest, greatest] ≠ [] ∧
      (∀ x ∈ [greatest, greatest, greatest], x.isFinite = true) ∧
      (greatest.value + greatest.value + greatest.value) / 3 = greatest.value ∧
      Reducer.avg.apply [greatest, greatest, greatest] = .error .tooLarge := by
  have hne : [greatest, greatest, greatest] ≠ [] := List.cons_ne_nil _ _
  have hsum : (sum [greatest, greatest, greatest]).isFinite = false := by
    rw [sum, blockedSum_of_short (by decide)]
    decide +kernel
  refine ⟨hne, by decide +kernel, by ring, ?_⟩
  rw [apply_avg hne, mean_eq_of_not_isFinite hsum, sum, blockedSum_of_short (by decide)]
  decide +kernel

end Reduction

end StackCalc
