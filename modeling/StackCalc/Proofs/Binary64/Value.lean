import Mathlib
import StackCalc.Proofs.Binary64.Rounding

/-!
# Values

The value of a finite number is the rational that it denotes.  A whole number of quanta that is on
the grid and in range is the magnitude of a number, so an integer whose magnitude is on the grid is
converted without an error.
-/

namespace StackCalc

namespace Binary64

/-- The rational that a finite number denotes. -/
def value (x : Binary64) : ℚ := x.signedQuanta / quantaPerOne

variable {x y : Binary64} {n : Nat}

theorem cast_quantaPerOne_pos : (0 : ℚ) < quantaPerOne := by
  exact_mod_cast quantaPerOne_pos

theorem two_pow_div_quantaPerOne (shift : Nat) :
    (2 : ℚ) ^ shift / quantaPerOne = 2 ^ (((shift + 1 : Nat) : ℤ) - 1075) := by
  have hone : (quantaPerOne : ℚ) = 2 ^ (places : ℤ) := by
    rw [quantaPerOne_eq_pow, Nat.cast_pow, Nat.cast_ofNat, zpow_natCast]
  have hexponent : ((shift + 1 : Nat) : ℤ) - 1075 = shift - places := by
    rw [places]
    push_cast
    ring
  rw [hone, hexponent, zpow_sub₀ two_ne_zero, zpow_natCast, zpow_natCast]

/-- The value in terms of the fields of a word.  The exponent of the subnormal numbers is that of
the least normal ones. -/
theorem value_eq (x : Binary64) :
    x.value = (if x.negative then -1 else 1) *
      (if x.code / hiddenBit = 0 then x.code else hiddenBit + x.code % hiddenBit : Nat) *
        2 ^ ((max (x.code / hiddenBit) 1 : Nat) - 1075 : ℤ) := by
  have hsign : x.value = (if x.negative then -1 else 1) * (x.quanta / quantaPerOne) := by
    rw [value, signedQuanta]
    split
    · push_cast
      ring
    · push_cast
      ring
  have hquanta : (x.quanta : ℚ) =
      (if x.code / hiddenBit = 0 then x.code else hiddenBit + x.code % hiddenBit : Nat) *
        2 ^ (max (x.code / hiddenBit) 1 - 1) := by
    rw [quanta]
    by_cases hfield : x.code / hiddenBit = 0
    · simp [hfield]
    · have hmax : max (x.code / hiddenBit) 1 = x.code / hiddenBit :=
        Nat.max_eq_left (Nat.one_le_iff_ne_zero.mpr hfield)
      simp [hfield, hmax, Nat.shiftLeft_eq]
  obtain ⟨shift, hshift⟩ : ∃ shift, max (x.code / hiddenBit) 1 = shift + 1 :=
    Nat.exists_eq_add_of_le' (le_max_right _ _)
  rw [hsign, hquanta, mul_div_assoc, hshift, Nat.add_sub_cancel, two_pow_div_quantaPerOne,
    mul_assoc]

theorem quanta_one : one.quanta = quantaPerOne := by
  decide +kernel

/-! ## Magnitudes -/

theorem value_eq_quanta (h : x.negative = false) : x.value = x.quanta / quantaPerOne := by
  simp [value, signedQuanta, h]

theorem value_nonneg (h : x.negative = false) : 0 ≤ x.value := by
  rw [value_eq_quanta h]
  exact div_nonneg (Nat.cast_nonneg _) (Nat.cast_nonneg _)

theorem value_withSignOf (x y : Binary64) :
    (x.withSignOf y).value = (if y.negative then -1 else 1) * (x.quanta / quantaPerOne) := by
  have hquanta : (x.withSignOf y).quanta = x.quanta := rfl
  rw [value, signedQuanta, hquanta]
  cases hsign : y.negative with
  | false => simp [withSignOf, hsign]
  | true =>
      simp [withSignOf, hsign]
      ring

theorem abs_value (x : Binary64) : |x.value| = x.quanta / quantaPerOne := by
  have hnonneg : (0 : ℚ) ≤ x.quanta / quantaPerOne := by positivity
  rw [value, signedQuanta]
  split
  · rw [Int.cast_neg, neg_div, abs_neg]
    exact abs_of_nonneg hnonneg
  · exact abs_of_nonneg hnonneg

theorem quanta_of_natCast (h : x.value = n) : x.quanta = n * quantaPerOne := by
  have habs := abs_value x
  rw [h, Nat.abs_cast, eq_div_iff cast_quantaPerOne_pos.ne'] at habs
  exact_mod_cast habs.symm

/-! ## Exact conversions -/

theorem quanta_lt (h : x.isFinite = true) : x.quanta < 2 ^ exponentBound * quantaPerOne :=
  lt_infinityCode_iff.mp (by simpa [isFinite] using h)

theorem onGrid_quanta (x : Binary64) : OnGrid x.quanta := ⟨x.code, rfl⟩

theorem code_ofCode_of_lt (negative : Bool) {code : Nat} (h : code < infinityCode) :
    (ofCode negative code).code = code := by
  rw [code_ofCode, Nat.min_eq_right h.le]

theorem isFinite_ofCode (negative : Bool) {code : Nat} (h : code < infinityCode) :
    (ofCode negative code).isFinite = true := by
  rw [isFinite, code_ofCode_of_lt negative h]
  exact decide_eq_true h

theorem quanta_ofCode (negative : Bool) {code : Nat} (h : code < infinityCode) :
    (ofCode negative code).quanta = gridQuanta code := by
  rw [quanta_eq, code_ofCode_of_lt negative h]

theorem value_greatest :
    (ofCode false (infinityCode - 1)).value = (1 - 1 / 2 ^ 53) * 2 ^ 1024 := by
  rw [value_eq_quanta rfl, quanta_ofCode false (by decide), cast_gridQuanta_greatest,
    cast_gridQuanta_infinityCode, ← mul_assoc, mul_div_cancel_right₀ _ cast_quantaPerOne_pos.ne']

/-- A number of quanta on the grid and in range is the magnitude of a number. -/
theorem ofRatio_of_onGrid (negative : Bool)
    (hgrid : OnGrid n) (hlt : n < 2 ^ exponentBound * quantaPerOne) :
    (ofRatio negative n 1).isFinite = true ∧ (ofRatio negative n 1).quanta = n := by
  obtain ⟨code, rfl⟩ := hgrid
  have hcode : code < infinityCode := lt_infinityCode_iff.mpr hlt
  rw [ofRatio, codeOfRatio_gridQuanta]
  exact ⟨isFinite_ofCode negative hcode, quanta_ofCode negative hcode⟩

theorem value_ofInt {k : Int} (hgrid : OnGrid (k.natAbs * quantaPerOne))
    (hlt : k.natAbs * quantaPerOne < 2 ^ exponentBound * quantaPerOne) :
    (ofInt k).isFinite = true ∧ (ofInt k).value = k := by
  obtain ⟨hfinite, hquanta⟩ := ofRatio_of_onGrid (decide (k < 0)) hgrid hlt
  refine ⟨hfinite, ?_⟩
  have hsign : (ofInt k).negative = decide (k < 0) := rfl
  have hpos := cast_quantaPerOne_pos
  have hsigned : (ofInt k).signedQuanta = k * quantaPerOne := by
    rw [signedQuanta, hsign, ofInt, hquanta]
    by_cases hneg : k < 0
    · simp only [hneg, decide_true, if_true]
      push_cast
      rw [abs_of_neg hneg]
      ring
    · simp only [hneg, decide_false, Bool.false_eq_true, if_false]
      push_cast
      rw [abs_of_nonneg (not_lt.mp hneg)]
  rw [value, hsigned, Int.cast_mul, Int.cast_natCast, mul_div_cancel_right₀ _ hpos.ne']

theorem roundsTo_ofNat (n : Nat) :
    RoundsTo (n * quantaPerOne) (codeOfRatio (n * quantaPerOne) 1) := by
  have hrounds := roundsTo_codeOfRatio_one (n * quantaPerOne)
  rwa [Nat.cast_mul] at hrounds

theorem ofNat_eq_ofInt (n : Nat) : ofNat n = ofInt n := by
  have hsign : decide ((n : Int) < 0) = false := decide_eq_false (by omega)
  rw [ofNat, ofInt, hsign, Int.natAbs_natCast]

/-! ## Nearest numbers -/

/-- A finite number is nearest to a rational, and has an even code if a number of another magnitude
is as near. -/
structure IsNearest (q : ℚ) (x : Binary64) : Prop where
  isFinite : x.isFinite = true
  nearest : ∀ z : Binary64, z.isFinite = true → |x.value - q| ≤ |z.value - q|
  even : ∀ z : Binary64, z.isFinite = true → z.code ≠ x.code →
    |z.value - q| = |x.value - q| → Even x.code

theorem abs_quanta_sub_div (x : Binary64) (q : ℚ) :
    |(x.quanta : ℚ) / quantaPerOne - q| =
      |(gridQuanta x.code : ℚ) - q * quantaPerOne| / quantaPerOne := by
  have hpos := cast_quantaPerOne_pos
  rw [quanta_eq, ← abs_of_pos hpos, ← abs_div, abs_of_pos hpos, sub_div,
    mul_div_cancel_right₀ _ hpos.ne']

/-- A rational that is not negative and rounds to a code in range has the number of this code as the
nearest one. -/
theorem RoundsTo.isNearest {q : ℚ} {code : Nat} (h : RoundsTo (q * quantaPerOne) code)
    (hq : 0 ≤ q) (hcode : code < infinityCode) : IsNearest q (ofCode false code) := by
  have hpos := cast_quantaPerOne_pos
  have heq := code_ofCode_of_lt false hcode
  have hvalue : |(ofCode false code).value - q| =
      |(gridQuanta code : ℚ) - q * quantaPerOne| / quantaPerOne := by
    rw [value_eq_quanta rfl, abs_quanta_sub_div, heq]
  -- The magnitude of a number is at least as near as the number.
  have hmagnitude : ∀ z : Binary64,
      |(gridQuanta z.code : ℚ) - q * quantaPerOne| / quantaPerOne ≤ |z.value - q| := by
    intro z
    rw [← abs_quanta_sub_div, ← abs_value]
    simpa [abs_of_nonneg hq] using abs_abs_sub_abs_le z.value q
  constructor
  · exact isFinite_ofCode false hcode
  · intro z _
    rw [hvalue]
    exact (div_le_div_of_nonneg_right (h.nearest z.code) hpos.le).trans (hmagnitude z)
  · intro z _ hne htie
    rw [heq] at hne ⊢
    apply h.even z.code hne
    have hle := hmagnitude z
    rw [htie, hvalue, div_le_div_iff_of_pos_right hpos] at hle
    exact le_antisymm hle (h.nearest z.code)

/-! ## Products and quotients -/

theorem mul_of_isFinite (hx : x.isFinite = true) (hy : y.isFinite = true) :
    x.mul y = ofRatio (x.negative != y.negative) (x.quanta * y.quanta) quantaPerOne := by
  obtain ⟨hnan, hinfinite⟩ := isFinite_iff.mp hx
  obtain ⟨hynan, hyinfinite⟩ := isFinite_iff.mp hy
  simp [mul, hnan, hinfinite, hynan, hyinfinite]

theorem div_of_isFinite (hx : x.isFinite = true) (hy : y.isFinite = true)
    (hzero : y.isZero = false) :
    x.div y = ofRatio (x.negative != y.negative) (x.quanta * quantaPerOne) y.quanta := by
  obtain ⟨hnan, hinfinite⟩ := isFinite_iff.mp hx
  obtain ⟨hynan, hyinfinite⟩ := isFinite_iff.mp hy
  simp [div, hnan, hinfinite, hynan, hyinfinite, hzero]

/-! ## Sums and differences -/

theorem natAbs_signedQuanta (x : Binary64) : x.signedQuanta.natAbs = x.quanta := by
  rw [signedQuanta]
  split
  · rw [Int.natAbs_neg, Int.natAbs_natCast]
  · rw [Int.natAbs_natCast]

theorem signedQuanta_neg (x : Binary64) : x.neg.signedQuanta = -x.signedQuanta := by
  have hquanta : x.neg.quanta = x.quanta := rfl
  rw [signedQuanta, signedQuanta, hquanta]
  cases hsign : x.negative with
  | false => simp [neg, hsign]
  | true => simp [neg, hsign]

theorem add_of_isFinite (hx : x.isFinite = true) (hy : y.isFinite = true) :
    x.add y = ofSignedQuanta (x.negative && y.negative) (x.signedQuanta + y.signedQuanta) := by
  obtain ⟨hnan, hinfinite⟩ := isFinite_iff.mp hx
  obtain ⟨hnan', hinfinite'⟩ := isFinite_iff.mp hy
  simp [add, hnan, hnan', hinfinite, hinfinite']

theorem ofSignedQuanta_natCast (n : Nat) : ofSignedQuanta false n = ofRatio false n 1 := by
  rw [ofSignedQuanta]
  split
  · rename_i hzero
    obtain rfl : n = 0 := by exact_mod_cast hzero
    rfl
  · have hsign : decide ((n : Int) < 0) = false := decide_eq_false (by omega)
    rw [hsign, Int.natAbs_natCast]

theorem isNaN_ofCode (negative : Bool) (code : Nat) : (ofCode negative code).isNaN = false := by
  rw [isNaN, code_ofCode]
  exact decide_eq_false (Nat.not_lt_of_le (Nat.min_le_left _ _))

theorem isNaN_ofSignedQuanta (zeroSign : Bool) (k : Int) :
    (ofSignedQuanta zeroSign k).isNaN = false := by
  rw [ofSignedQuanta]
  split
  · exact isNaN_ofCode _ _
  · exact isNaN_ofCode _ _

/-- Only the sum of two infinities makes a NaN of numbers. -/
theorem isNaN_add (hx : x.isNaN = false) (hy : y.isNaN = false)
    (hfinite : x.isFinite = true ∨ y.isFinite = true) : (x.add y).isNaN = false := by
  by_cases hxinf : x.isInfinite = true
  · have hyinf : y.isInfinite = false := by
      rcases hfinite with h | h
      · rw [(isFinite_iff.mp h).2] at hxinf
        cases hxinf
      · exact (isFinite_iff.mp h).2
    simp [add, hx, hy, hxinf, hyinf]
  · by_cases hyinf : y.isInfinite = true
    · simp [add, hx, hy, hxinf, hyinf]
    · simp [add, hx, hy, hxinf, hyinf, isNaN_ofSignedQuanta]

theorem ofSignedQuanta_finite (zeroSign : Bool) {k : Int}
    (hroom : k.natAbs * (1 + unitRoundoff) < gridQuanta infinityCode) :
    (ofSignedQuanta zeroSign k).isFinite = true ∧
      ((ofSignedQuanta zeroSign k).quanta : ℚ) ≤ k.natAbs * (1 + unitRoundoff) := by
  rw [ofSignedQuanta]
  split
  · rename_i hzero
    have hcode : 0 < infinityCode := by decide
    rw [quanta_ofCode _ hcode, hzero]
    refine ⟨isFinite_ofCode _ hcode, ?_⟩
    simp [gridQuanta]
  · have herror := (abs_le.mp (abs_gridQuanta_codeOfRatio_one_sub_le k.natAbs)).2
    have hle : (gridQuanta (codeOfRatio k.natAbs 1) : ℚ) ≤ k.natAbs * (1 + unitRoundoff) := by
      linarith
    have hcode : codeOfRatio k.natAbs 1 < infinityCode := by
      rw [← gridQuanta_strictMono.lt_iff_lt]
      exact_mod_cast hle.trans_lt hroom
    rw [ofRatio, quanta_ofCode _ hcode]
    exact ⟨isFinite_ofCode _ hcode, hle⟩

theorem add_finite (hx : x.isFinite = true) (hy : y.isFinite = true)
    (hroom : ((x.quanta : ℚ) + y.quanta) * (1 + unitRoundoff) < gridQuanta infinityCode) :
    (x.add y).isFinite = true ∧
      ((x.add y).quanta : ℚ) ≤ (x.quanta + y.quanta) * (1 + unitRoundoff) := by
  have hpos := unitRoundoff_pos
  have htriangle : (x.signedQuanta + y.signedQuanta).natAbs ≤ x.quanta + y.quanta := by
    rw [← natAbs_signedQuanta x, ← natAbs_signedQuanta y]
    exact Int.natAbs_add_le _ _
  have hle : ((x.signedQuanta + y.signedQuanta).natAbs : ℚ) * (1 + unitRoundoff) ≤
      (x.quanta + y.quanta) * (1 + unitRoundoff) := by
    apply mul_le_mul_of_nonneg_right _ (by linarith)
    exact_mod_cast htriangle
  rw [add_of_isFinite hx hy]
  obtain ⟨hfinite, hquanta⟩ := ofSignedQuanta_finite _ (hle.trans_lt hroom)
  exact ⟨hfinite, hquanta.trans hle⟩

end Binary64

end StackCalc
