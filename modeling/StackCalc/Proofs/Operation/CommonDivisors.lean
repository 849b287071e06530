import Mathlib
import StackCalc.Proofs.Operation.WholeNumbers

/-!
# Common divisors are exact

A number whose value is an integer has at most 53 bits, trailing zeros aside, and so have its
divisors.  So a greatest common divisor is never rounded, however great the numbers are.

A least common multiple has up to as many bits as both numbers together.  It is rounded once, and is
too large if and only if the number nearest to it is infinite.
-/

namespace StackCalc

open Binary64 Operation

variable {a b : Binary64} {x y : ℤ}

/-! ## Integer values -/

theorem Binary64.value_eq_intCast_iff : a.value = x ↔ a.signedQuanta = x * quantaPerOne := by
  rw [value, div_eq_iff cast_quantaPerOne_pos.ne']
  exact_mod_cast Iff.rfl

theorem Binary64.quanta_of_value (h : a.value = x) : a.quanta = x.natAbs * quantaPerOne := by
  rw [← natAbs_signedQuanta, value_eq_intCast_iff.mp h, Int.natAbs_mul, Int.natAbs_natCast]

theorem Binary64.truncate_of_value (h : a.value = x) : a.truncate = x := by
  have hwhole : a.wholePart = x.natAbs := by
    rw [wholePart, quanta_of_value h, Nat.mul_div_cancel _ quantaPerOne_pos]
  have hsigned := value_eq_intCast_iff.mp h
  rw [signedQuanta, quanta_of_value h] at hsigned
  have hone : (quantaPerOne : ℤ) ≠ 0 := by exact_mod_cast quantaPerOne_pos.ne'
  rw [truncate, hwhole]
  apply mul_right_cancel₀ hone
  rw [← hsigned]
  split
  · push_cast
    ring
  · push_cast
    ring

theorem requireInteger_of_value (function : String) (hfinite : a.isFinite = true)
    (h : a.value = x) : requireInteger function a = .ok x := by
  have hinteger : a.isInteger = true := by
    simp [isInteger, hfinite, quanta_of_value h]
  rw [requireInteger, if_pos hinteger, truncate_of_value h]

/-! ## The operations on integers -/

theorem BinaryOperation.apply_of_compute [Library] {op : BinaryOperation} {r : Binary64}
    (hcompute : op.compute a b = .ok r) : op.apply a b = finiteResult r := by
  rw [BinaryOperation.apply, hcompute]
  rfl

/-- The greatest common divisor divides the quanta of one of the numbers, so it has no more bits. -/
theorem onGrid_gcd (ha : a.isFinite = true) (hb : b.isFinite = true)
    (hx : a.value = x) (hy : b.value = y) :
    OnGrid (x.gcd y * quantaPerOne) ∧
      x.gcd y * quantaPerOne < 2 ^ exponentBound * quantaPerOne := by
  by_cases hzero : x = 0
  · rw [hzero, Int.gcd_zero_left, ← quanta_of_value hy]
    exact ⟨b.onGrid_quanta, quanta_lt hb⟩
  · have hpos : 0 < a.quanta := by
      rw [quanta_of_value hx]
      exact Nat.mul_pos (Int.natAbs_pos.mpr hzero) quantaPerOne_pos
    have hdvd : x.gcd y * quantaPerOne ∣ a.quanta := by
      rw [quanta_of_value hx]
      exact Nat.mul_dvd_mul_right (Int.gcd_dvd_natAbs_left x y) quantaPerOne
    exact ⟨a.onGrid_quanta.of_dvd hpos hdvd, (Nat.le_of_dvd hpos hdvd).trans_lt (quanta_lt ha)⟩

theorem apply_gcd_eq [Library] (ha : a.isFinite = true) (hb : b.isFinite = true)
    (hx : a.value = x) (hy : b.value = y) :
    BinaryOperation.gcd.apply a b = finiteResult (.ofNat (x.gcd y)) := by
  apply BinaryOperation.apply_of_compute
  rw [BinaryOperation.compute, greatestCommonDivisor, requireInteger_of_value _ ha hx,
    requireInteger_of_value _ hb hy]
  rfl

theorem apply_lcm_eq [Library] (ha : a.isFinite = true) (hb : b.isFinite = true)
    (hx : a.value = x) (hy : b.value = y) :
    BinaryOperation.lcm.apply a b = finiteResult (.ofNat (x.lcm y)) := by
  apply BinaryOperation.apply_of_compute
  rw [BinaryOperation.compute, leastCommonMultiple, requireInteger_of_value _ ha hx,
    requireInteger_of_value _ hb hy]
  rfl

theorem exists_apply_gcd [Library] (ha : a.isFinite = true) (hb : b.isFinite = true)
    (hx : a.value = x) (hy : b.value = y) :
    ∃ r, BinaryOperation.gcd.apply a b = .ok r ∧ r.isFinite = true ∧ r.negative = false ∧
      r.value = x.gcd y := by
  obtain ⟨hgrid, hlt⟩ := onGrid_gcd ha hb hx hy
  obtain ⟨hfinite, hquanta⟩ := ofRatio_of_onGrid false hgrid hlt
  refine ⟨.ofNat (x.gcd y), ?_, hfinite, rfl, ?_⟩
  · rw [apply_gcd_eq ha hb hx hy]
    exact finiteResult_of_isFinite hfinite
  · rw [value_eq_quanta rfl, ofNat, hquanta, Nat.cast_mul,
      mul_div_cancel_right₀ _ cast_quantaPerOne_pos.ne']

/-- A whole number is rounded once, and is too large if it rounds to infinity. -/
theorem finiteResult_ofNat {n code : Nat} (h : RoundsTo (n * quantaPerOne) code) :
    (code < infinityCode →
      finiteResult (.ofNat n) = .ok (ofCode false code) ∧ IsNearest n (ofCode false code)) ∧
    (infinityCode ≤ code → finiteResult (.ofNat n) = .error .tooLarge) := by
  have hcode : codeOfRatio (n * quantaPerOne) 1 = code := (roundsTo_ofNat n).unique h
  rw [ofNat, ofRatio, hcode]
  constructor
  · intro hlt
    have hnearest := h.isNearest n.cast_nonneg hlt
    exact ⟨finiteResult_of_isFinite hnearest.isFinite, hnearest⟩
  · intro hge
    apply finiteResult_of_isInfinite
    rw [isInfinite, code_ofCode, Nat.min_eq_left hge]
    exact beq_self_eq_true infinityCode

/-- The greatest common divisor of integers is exact.  The least common multiple is the number
nearest to it, and is too large if and only if that is infinite. -/
theorem common_divisors_and_multiples [Library] (ha : a.isFinite = true) (hb : b.isFinite = true)
    (hx : a.value = x) (hy : b.value = y) :
    (∃ r, BinaryOperation.gcd.apply a b = .ok r ∧ r.isFinite = true ∧ r.negative = false ∧
      r.value = x.gcd y) ∧
    (∃ code, RoundsTo (x.lcm y * quantaPerOne) code) ∧
    (∀ code, RoundsTo (x.lcm y * quantaPerOne) code →
      (code < infinityCode →
        ∃ r, BinaryOperation.lcm.apply a b = .ok r ∧ r.negative = false ∧ r.code = code ∧
          IsNearest (x.lcm y) r) ∧
      (infinityCode ≤ code → BinaryOperation.lcm.apply a b = .error .tooLarge)) ∧
    (BinaryOperation.lcm.apply a b = .error .tooLarge ↔ overflowBound ≤ x.lcm y) ∧
    (x = 0 ∨ y = 0 → BinaryOperation.lcm.apply a b = .ok .zero) ∧
    OperationError.tooLarge.kind = .domainError ∧
    OperationError.tooLarge.message = "Result is too large to represent" := by
  have hrounds := roundsTo_ofNat (x.lcm y)
  rw [apply_lcm_eq ha hb hx hy]
  refine ⟨exists_apply_gcd ha hb hx hy, ⟨_, hrounds⟩, ?_, ?_, ?_, rfl, rfl⟩
  · intro code hcode
    obtain ⟨hfinite, hlarge⟩ := finiteResult_ofNat hcode
    refine ⟨fun hlt => ?_, hlarge⟩
    obtain ⟨hok, hnearest⟩ := hfinite hlt
    exact ⟨_, hok, rfl, code_ofCode_of_lt false hlt, hnearest⟩
  · have hbound : infinityCode ≤ codeOfRatio (x.lcm y * quantaPerOne) 1 ↔
        overflowBound ≤ x.lcm y := by
      rw [hrounds.infinityCode_le_iff, mul_le_mul_iff_left₀ cast_quantaPerOne_pos]
    obtain ⟨hfinite, hlarge⟩ := finiteResult_ofNat hrounds
    rw [← hbound]
    refine ⟨fun herror => ?_, hlarge⟩
    by_contra hcode
    rw [(hfinite (Nat.lt_of_not_le hcode)).1] at herror
    cases herror
  · intro hzero
    have hlcm : x.lcm y = 0 := Int.lcm_eq_zero_iff.mpr hzero
    rw [hlcm]
    rfl

/-- The numbers have a common divisor of 1023 bits and a least common multiple that is out of
range. -/
theorem gcd_exact_and_lcm_too_large :
    (∃ r,
      BinaryOperation.gcd.apply (ofBits 0xFFE0000000000000) (ofBits 0x7FE8000000000000) = .ok r ∧
      r.value = Int.gcd (-2 ^ 1023) (3 * 2 ^ 1022)) ∧
    Int.gcd (-2 ^ 1023) (3 * 2 ^ 1022) = 2 ^ 1022 ∧
    BinaryOperation.lcm.apply (ofBits 0xFFE0000000000000) (ofBits 0x7FE8000000000000) =
      .error .tooLarge ∧
    overflowBound ≤ Int.lcm (-2 ^ 1023) (3 * 2 ^ 1022) := by
  have ha : (ofBits 0xFFE0000000000000).isFinite = true := by decide
  have hb : (ofBits 0x7FE8000000000000).isFinite = true := by decide
  have hx : (ofBits 0xFFE0000000000000).value = (-2 ^ 1023 : ℤ) :=
    value_eq_intCast_iff.mpr (by decide +kernel)
  have hy : (ofBits 0x7FE8000000000000).value = (3 * 2 ^ 1022 : ℤ) :=
    value_eq_intCast_iff.mpr (by decide +kernel)
  obtain ⟨⟨r, hr, -, -, hvalue⟩, -, -, hlarge, -⟩ := common_divisors_and_multiples ha hb hx hy
  have herror : BinaryOperation.lcm.apply (ofBits 0xFFE0000000000000) (ofBits 0x7FE8000000000000) =
      .error .tooLarge := by
    decide +kernel
  exact ⟨⟨r, hr, hvalue⟩, by decide +kernel, herror, hlarge.mp herror⟩

end StackCalc
