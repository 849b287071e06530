import Mathlib
import StackCalc.Proofs.Binary64.Value

/-!
# Products and quotients are rounded once

The product and the quotient of finite numbers that are not negative are the exact results, rounded
once.  So they are infinite from the overflow bound on, their relative error is at most one part in
`2 ^ 53` from one on, and rounding never passes an integer that has at most 53 bits, trailing zeros
aside.
-/

namespace StackCalc

namespace Binary64

variable {x y : Binary64} {c d p q : ℚ} {i j n : Nat}

/-- The number that a rational rounds to, infinite if that is out of range. -/
def IsRounded (q : ℚ) (x : Binary64) : Prop :=
  ∃ code, RoundsTo (q * quantaPerOne) code ∧ x = ofCode false code

/-! ## Results -/

theorem isRounded_ofNat (n : Nat) : IsRounded n (ofNat n) :=
  ⟨_, roundsTo_ofNat n, rfl⟩

theorem isRounded_value (hx : x.isFinite = true) (hsign : x.negative = false) :
    IsRounded x.value x := by
  refine ⟨x.code, ?_, eq_of_code_eq hsign ?_⟩
  · rw [value_eq_quanta hsign, div_mul_cancel₀ _ cast_quantaPerOne_pos.ne']
    exact roundsTo_gridQuanta x.code
  · exact (code_ofCode_of_lt false (by simpa [isFinite] using hx)).symm

theorem isRounded_mul (hx : x.isFinite = true) (hy : y.isFinite = true)
    (hxsign : x.negative = false) (hysign : y.negative = false) :
    IsRounded (x.value * y.value) (x.mul y) := by
  have hone := cast_quantaPerOne_pos
  have hexact : x.value * y.value * quantaPerOne =
      ((x.quanta * y.quanta : Nat) : ℚ) / quantaPerOne := by
    rw [value_eq_quanta hxsign, value_eq_quanta hysign]
    push_cast
    field_simp
  refine ⟨codeOfRatio (x.quanta * y.quanta) quantaPerOne, ?_, ?_⟩
  · rw [hexact]
    exact roundsTo_codeOfRatio _ quantaPerOne_pos
  · rw [mul_of_isFinite hx hy, hxsign, hysign]
    rfl

theorem isRounded_div (hx : x.isFinite = true) (hy : y.isFinite = true)
    (hxsign : x.negative = false) (hysign : y.negative = false) (hpos : 0 < y.value) :
    IsRounded (x.value / y.value) (x.div y) := by
  have hone := cast_quantaPerOne_pos
  have hypos : 0 < y.quanta := by
    rwa [value_eq_quanta hysign, div_pos_iff_of_pos_right hone, Nat.cast_pos] at hpos
  have hexact : x.value / y.value * quantaPerOne =
      ((x.quanta * quantaPerOne : Nat) : ℚ) / y.quanta := by
    have hne : (y.quanta : ℚ) ≠ 0 := by exact_mod_cast hypos.ne'
    rw [value_eq_quanta hxsign, value_eq_quanta hysign]
    push_cast
    field_simp
  refine ⟨codeOfRatio (x.quanta * quantaPerOne) y.quanta, ?_, ?_⟩
  · rw [hexact]
    exact roundsTo_codeOfRatio _ hypos
  · rw [div_of_isFinite hx hy (isZero_of_quanta_pos hypos), hxsign, hysign]
    rfl

namespace IsRounded

theorem negative (h : IsRounded q x) : x.negative = false := by
  obtain ⟨code, -, rfl⟩ := h
  rfl

theorem unique (hx : IsRounded q x) (hy : IsRounded q y) : x = y := by
  obtain ⟨code, hcode, rfl⟩ := hx
  obtain ⟨code', hcode', rfl⟩ := hy
  rw [hcode.unique hcode']

/-! ## Range -/

theorem isInfinite_iff (h : IsRounded q x) : x.isInfinite = true ↔ overflowBound ≤ q := by
  obtain ⟨code, hcode, rfl⟩ := h
  have hbound := hcode.infinityCode_le_iff
  rw [mul_le_mul_iff_left₀ cast_quantaPerOne_pos] at hbound
  rw [← hbound, isInfinite, code_ofCode, beq_iff_eq, min_eq_left_iff]

theorem isFinite_iff (h : IsRounded q x) : x.isFinite = true ↔ q < overflowBound := by
  have hnan : x.isNaN = false := by
    obtain ⟨code, -, rfl⟩ := h
    exact isNaN_ofCode false code
  rw [Binary64.isFinite_iff, ← not_le, ← h.isInfinite_iff]
  simp [hnan]

/-! ## Errors -/

theorem exists_code (h : IsRounded q x) (hfinite : x.isFinite = true) :
    ∃ code, RoundsTo (q * quantaPerOne) code ∧ x.value = gridQuanta code / quantaPerOne := by
  have hbound := h.isFinite_iff.mp hfinite
  obtain ⟨code, hcode, rfl⟩ := h
  have hlt : code < infinityCode := by
    rw [← not_le, hcode.infinityCode_le_iff, mul_le_mul_iff_left₀ cast_quantaPerOne_pos, not_le]
    exact hbound
  exact ⟨code, hcode, by rw [value_eq_quanta rfl, quanta_ofCode false hlt]⟩

theorem abs_sub_le (h : IsRounded q x) (hfinite : x.isFinite = true) (hq : 1 ≤ q) :
    |x.value - q| ≤ q * unitRoundoff := by
  obtain ⟨code, hcode, hvalue⟩ := h.exists_code hfinite
  have hone := cast_quantaPerOne_pos
  have hnormal : (2 : ℚ) ^ 52 ≤ q * quantaPerOne := by
    have hle : 2 ^ 52 ≤ quantaPerOne := by
      have hplaces : 52 ≤ places := by decide
      rw [quantaPerOne_eq_pow]
      exact pow_le_pow_right₀ one_le_two hplaces
    calc
      (2 : ℚ) ^ 52 ≤ 1 * quantaPerOne := by exact_mod_cast hle
      _ ≤ q * quantaPerOne := mul_le_mul_of_nonneg_right hq hone.le
  have herror := hcode.abs_sub_le hnormal
  have hscale : x.value - q = (gridQuanta code - q * quantaPerOne) / quantaPerOne := by
    rw [hvalue]
    field_simp
  rw [hscale, abs_div, abs_of_pos hone, div_le_iff₀ hone]
  linarith

/-- No integer on the grid is nearer than the rounding. -/
theorem nearest (h : IsRounded q x) (hfinite : x.isFinite = true)
    (hn : OnGrid (n * quantaPerOne)) : |x.value - q| ≤ |n - q| := by
  obtain ⟨code, hcode, hvalue⟩ := h.exists_code hfinite
  obtain ⟨other, hother⟩ := hn
  have hone := cast_quantaPerOne_pos
  have hnearest := hcode.nearest other
  have hscale : ∀ grid : ℚ,
      |grid - q * quantaPerOne| = |grid / quantaPerOne - q| * quantaPerOne := by
    intro grid
    rw [← abs_of_pos hone, ← abs_mul, abs_of_pos hone, sub_mul, div_mul_cancel₀ _ hone.ne']
  rw [hother, hscale, hscale, mul_le_mul_iff_left₀ hone, Nat.cast_mul,
    mul_div_cancel_right₀ _ hone.ne'] at hnearest
  rw [hvalue]
  exact hnearest

theorem value_le (h : IsRounded q x) (hfinite : x.isFinite = true)
    (hn : OnGrid (n * quantaPerOne)) (hq : q ≤ n) : x.value ≤ n := by
  obtain ⟨code, hcode, hvalue⟩ := h.exists_code hfinite
  obtain ⟨other, hother⟩ := hn
  have hone := cast_quantaPerOne_pos
  have hle : code ≤ other := by
    apply hcode.le_of_le
    rw [hother, Nat.cast_mul]
    exact mul_le_mul_of_nonneg_right hq hone.le
  rw [hvalue, div_le_iff₀ hone]
  calc
    (gridQuanta code : ℚ) ≤ gridQuanta other := cast_gridQuanta_le hle
    _ = n * quantaPerOne := by rw [hother, Nat.cast_mul]

theorem le_value (h : IsRounded q x) (hfinite : x.isFinite = true)
    (hn : OnGrid (n * quantaPerOne)) (hq : n ≤ q) : n ≤ x.value := by
  obtain ⟨code, hcode, hvalue⟩ := h.exists_code hfinite
  obtain ⟨other, hother⟩ := hn
  have hone := cast_quantaPerOne_pos
  have hle : other ≤ code := by
    apply hcode.le_of_ge
    rw [hother, Nat.cast_mul]
    exact mul_le_mul_of_nonneg_right hq hone.le
  rw [hvalue, le_div_iff₀ hone]
  calc
    (n : ℚ) * quantaPerOne = gridQuanta other := by rw [hother, Nat.cast_mul]
    _ ≤ gridQuanta code := cast_gridQuanta_le hle

end IsRounded

/-! ## Exact integers -/

/-- A finite number is a natural number. -/
structure IsExact (n : Nat) (x : Binary64) : Prop where
  isFinite : x.isFinite = true
  negative : x.negative = false
  value : x.value = n

theorem IsRounded.isExact_of_onGrid (h : IsRounded n x) (hn : OnGrid (n * quantaPerOne))
    (hlt : n < 2 ^ exponentBound) : IsExact n x := by
  have hrange := Nat.mul_lt_mul_of_pos_right hlt quantaPerOne_pos
  obtain ⟨hfinite, hvalue⟩ := value_ofInt (k := n) hn hrange
  rw [h.unique (isRounded_ofNat n), ofNat_eq_ofInt]
  exact ⟨hfinite, rfl, hvalue⟩

theorem onGrid_mul_quantaPerOne (h : n ≤ 2 ^ 53) : OnGrid (n * quantaPerOne) := by
  rw [quantaPerOne_eq_pow]
  exact (onGrid_of_le (by simpa [hiddenBit] using h)).mul_two_pow places

theorem IsRounded.isExact (h : IsRounded n x) (hle : n ≤ 2 ^ 53) : IsExact n x :=
  h.isExact_of_onGrid (onGrid_mul_quantaPerOne hle)
    (hle.trans_lt (Nat.pow_lt_pow_right Nat.one_lt_two (by decide)))

theorem isExact_ofNat (h : n ≤ 2 ^ 53) : IsExact n (ofNat n) :=
  (isRounded_ofNat n).isExact h

theorem abs_nearestEvenWhole_sub_le (h : x.negative = false) :
    |(x.nearestEvenWhole : ℚ) - x.value| ≤ 1 / 2 := by
  rw [value_eq_quanta h]
  exact abs_nearestEven_sub_le x.quanta quantaPerOne_pos

theorem eq_of_abs_sub_lt_one {m n : Nat} (h : |(m : ℚ) - n| < 1) : m = n := by
  have hzero : |(m : ℤ) - n| < 1 := by exact_mod_cast h
  have hsub := Int.abs_lt_one_iff.mp hzero
  omega

theorem IsExact.nearestEvenWhole_eq (h : IsExact n x) : x.nearestEvenWhole = n := by
  have hwhole := abs_nearestEvenWhole_sub_le h.negative
  rw [h.value] at hwhole
  exact eq_of_abs_sub_lt_one (hwhole.trans_lt (by norm_num))

/-- Integers of at most 54 bits are rounded by one at most. -/
theorem IsRounded.abs_sub_le_one (h : IsRounded n x) (hfinite : x.isFinite = true)
    (hn : n ≤ 2 ^ 54) : |x.value - n| ≤ 1 := by
  have hgrid : OnGrid (2 * (n / 2) * quantaPerOne) := by
    rw [Nat.mul_assoc]
    exact (onGrid_mul_quantaPerOne (by omega)).double
  apply (h.nearest hfinite hgrid).trans
  have hlower : ((2 * (n / 2) : Nat) : ℚ) ≤ n := by exact_mod_cast Nat.mul_div_le n 2
  have hupper : (n : ℚ) ≤ (2 * (n / 2) : Nat) + 1 := by
    have hle : n ≤ 2 * (n / 2) + 1 := by omega
    exact_mod_cast hle
  rw [abs_le]
  constructor
  · linarith
  · linarith

/-- The quotient by an integer of at most 53 bits stays in range. -/
theorem isRounded_div_ofNat (hx : x.isFinite = true) (hsign : x.negative = false) (hpos : 0 < n)
    (hle : n ≤ 2 ^ 53) :
    IsRounded (x.value / n) (x.div (ofNat n)) ∧ (x.div (ofNat n)).isFinite = true := by
  have hexact := isExact_ofNat hle
  have hone : (1 : ℚ) ≤ n := by exact_mod_cast hpos
  have hquotient : IsRounded (x.value / n) (x.div (ofNat n)) := by
    have hdivisor : 0 < (ofNat n).value := by
      rw [hexact.value]
      linarith
    rw [← hexact.value]
    exact isRounded_div hx hexact.isFinite hsign hexact.negative hdivisor
  refine ⟨hquotient, hquotient.isFinite_iff.mpr ?_⟩
  have hrange := (isRounded_value hx hsign).isFinite_iff.mp hx
  exact (div_le_self (value_nonneg hsign) hone).trans_lt hrange

theorem IsExact.div_ofNat (h : IsExact (i * n) x) (hpos : 0 < i) (hi : i ≤ 2 ^ 53)
    (hn : n ≤ 2 ^ 53) : IsExact n (x.div (ofNat i)) := by
  obtain ⟨hquotient, -⟩ := isRounded_div_ofNat h.isFinite h.negative hpos hi
  have hne : (i : ℚ) ≠ 0 := by exact_mod_cast hpos.ne'
  rw [h.value, Nat.cast_mul, mul_div_cancel_left₀ _ hne] at hquotient
  exact hquotient.isExact hn

/-! ## Quanta -/

theorem mul_ofNat_eq (hx : x.isFinite = true) (hsign : x.negative = false) (hn : n ≤ 2 ^ 53) :
    x.mul (ofNat n) = ofRatio false (x.quanta * n) 1 := by
  have hexact := isExact_ofNat hn
  rw [mul_of_isFinite hx hexact.isFinite, hsign, hexact.negative,
    quanta_of_natCast hexact.value, ← Nat.mul_assoc,
    ← ofRatio_mul false (x.quanta * n) 1 quantaPerOne_pos, Nat.one_mul]
  rfl

theorem div_ofNat_eq (hx : x.isFinite = true) (hsign : x.negative = false) (hpos : 0 < n)
    (hn : n ≤ 2 ^ 53) : x.div (ofNat n) = ofRatio false x.quanta n := by
  have hexact := isExact_ofNat hn
  rw [div_of_isFinite hx hexact.isFinite (isZero_ofNat hpos), hsign, hexact.negative,
    quanta_of_natCast hexact.value, ← ofRatio_mul false x.quanta n quantaPerOne_pos]
  rfl

/-! ## Relative errors -/

/-- The part of a number that is left if each of some roundings takes as much as it can. -/
def loss (roundings : Nat) : ℚ := (1 - unitRoundoff) ^ roundings

theorem unitRoundoff_lt_one : unitRoundoff < 1 := by
  norm_num [unitRoundoff]

theorem loss_pos (i : Nat) : 0 < loss i :=
  pow_pos (sub_pos.mpr unitRoundoff_lt_one) i

theorem loss_add (i j : Nat) : loss (i + j) = loss i * loss j :=
  pow_add _ i j

theorem loss_le_loss (h : i ≤ j) : loss j ≤ loss i := by
  have hpos := unitRoundoff_pos
  have hlt := unitRoundoff_lt_one
  exact pow_le_pow_of_le_one (by linarith) (by linarith) h

theorem one_sub_mul_le_loss (i : Nat) : 1 - i * unitRoundoff ≤ loss i := by
  have hlt := unitRoundoff_lt_one
  have hbernoulli := one_add_mul_le_pow (show (-2 : ℚ) ≤ -unitRoundoff by linarith) i
  rw [loss, sub_eq_add_neg 1 unitRoundoff]
  linarith

/-- Two numbers differ by some roundings at most. -/
structure Within (roundings : Nat) (c x : ℚ) : Prop where
  lower : c * loss roundings ≤ x
  upper : x * loss roundings ≤ c

theorem Within.refl (c : ℚ) : Within 0 c c := by
  constructor
  · rw [loss, pow_zero, mul_one]
  · rw [loss, pow_zero, mul_one]

theorem Within.trans (h : Within i c p) (h' : Within j p q) : Within (i + j) c q := by
  constructor
  · calc
      c * loss (i + j) = c * loss i * loss j := by rw [loss_add, mul_assoc]
      _ ≤ p * loss j := mul_le_mul_of_nonneg_right h.lower (loss_pos j).le
      _ ≤ q := h'.lower
  · calc
      q * loss (i + j) = q * loss j * loss i := by rw [loss_add, mul_assoc, mul_comm (loss i)]
      _ ≤ p * loss i := mul_le_mul_of_nonneg_right h'.upper (loss_pos i).le
      _ ≤ c := h.upper

theorem Within.mul (h : Within i c p) (h' : Within j d q) (hc : 0 ≤ c) (hd : 0 ≤ d) (hp : 0 ≤ p)
    (hq : 0 ≤ q) : Within (i + j) (c * d) (p * q) := by
  have hi := loss_pos i
  have hj := loss_pos j
  constructor
  · calc
      c * d * loss (i + j) = c * loss i * (d * loss j) := by rw [loss_add]; ring
      _ ≤ p * q := mul_le_mul h.lower h'.lower (by positivity) hp
  · calc
      p * q * loss (i + j) = p * loss i * (q * loss j) := by rw [loss_add]; ring
      _ ≤ c * d := mul_le_mul h.upper h'.upper (by positivity) hc

theorem Within.div (h : Within i c p) (hd : 0 ≤ d) : Within i (c / d) (p / d) := by
  constructor
  · rw [div_mul_eq_mul_div]
    exact div_le_div_of_nonneg_right h.lower hd
  · rw [div_mul_eq_mul_div]
    exact div_le_div_of_nonneg_right h.upper hd

theorem IsRounded.within (h : IsRounded q x) (hfinite : x.isFinite = true) (hq : 1 ≤ q) :
    Within 1 q x.value := by
  have hpos := unitRoundoff_pos
  obtain ⟨hlower, hupper⟩ := abs_le.mp (h.abs_sub_le hfinite hq)
  constructor
  · rw [loss, pow_one]
    linarith
  · rw [loss, pow_one]
    calc
      x.value * (1 - unitRoundoff) ≤ q * (1 + unitRoundoff) * (1 - unitRoundoff) := by
        apply mul_le_mul_of_nonneg_right _ (sub_nonneg.mpr unitRoundoff_lt_one.le)
        linarith
      _ = q - q * unitRoundoff ^ 2 := by ring
      _ ≤ q := sub_le_self q (by positivity)

theorem isInfinite_div (hx : x.isInfinite = true) (hy : y.isFinite = true) :
    (x.div y).isInfinite = true := by
  obtain ⟨hnan, hinfinite⟩ := isFinite_iff.mp hy
  have hdiv : x.div y = ofCode (x.negative != y.negative) infinityCode := by
    simp [div, isNaN_of_isInfinite hx, hx, hnan, hinfinite]
  rw [hdiv, isInfinite, code_ofCode, Nat.min_self]
  exact beq_self_eq_true infinityCode

end Binary64

end StackCalc
