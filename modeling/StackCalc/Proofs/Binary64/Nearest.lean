import Mathlib
import StackCalc.Proofs.Binary64.Grid

/-!
# Rounding gives the nearest number

A quotient lies between two neighbours on the grid of codes.  Rounding chooses the nearer one, or
the one with the even code if the quotient is in the middle, and no other number of the grid is as
near.  The distance is at most one part in `2 ^ 53` of the quotient, or half a quantum.
-/

namespace StackCalc

namespace Binary64

/-- The code stands for a number nearest to `q` quanta, and is even if another one is as near.
Codes from that of infinity on are not left out, so a number out of range is rounded as if
exponents had no bound. -/
structure RoundsTo (q : ℚ) (code : Nat) : Prop where
  nearest : ∀ other, |(gridQuanta code : ℚ) - q| ≤ |(gridQuanta other : ℚ) - q|
  even : ∀ other ≠ code, |(gridQuanta other : ℚ) - q| = |(gridQuanta code : ℚ) - q| → Even code

variable {q : ℚ} {low code other num den : Nat}

/-! ## Neighbours -/

theorem cast_gridQuanta_le (h : code ≤ other) : (gridQuanta code : ℚ) ≤ gridQuanta other := by
  exact_mod_cast gridQuanta_strictMono.monotone h

theorem cast_gridQuanta_lt (h : code < other) : (gridQuanta code : ℚ) < gridQuanta other := by
  exact_mod_cast gridQuanta_strictMono h

theorem roundsTo_lower (hlow : (gridQuanta low : ℚ) ≤ q)
    (hhalf : q - gridQuanta low ≤ gridQuanta (low + 1) - q)
    (heven : q - gridQuanta low = gridQuanta (low + 1) - q → Even low) : RoundsTo q low := by
  have hdist : |(gridQuanta low : ℚ) - q| = q - gridQuanta low := by
    rw [abs_sub_comm, abs_of_nonneg (by linarith)]
  constructor
  · intro other
    rw [hdist]
    rcases Nat.lt_or_ge low other with hlt | hge
    · have hother := cast_gridQuanta_le (Nat.succ_le_of_lt hlt)
      rw [abs_of_nonneg (by linarith)]
      linarith
    · have hother := cast_gridQuanta_le hge
      rw [abs_sub_comm, abs_of_nonneg (by linarith)]
      linarith
  · intro other hne heq
    rw [hdist] at heq
    rcases Nat.lt_or_gt_of_ne hne with hlt | hgt
    · have hother := cast_gridQuanta_lt hlt
      rw [abs_sub_comm, abs_of_nonneg (by linarith)] at heq
      linarith
    · have hother := cast_gridQuanta_le (Nat.succ_le_of_lt hgt)
      rw [abs_of_nonneg (by linarith)] at heq
      exact heven (by linarith)

theorem roundsTo_upper (hhigh : q ≤ gridQuanta (low + 1))
    (hhalf : gridQuanta (low + 1) - q ≤ q - gridQuanta low)
    (heven : gridQuanta (low + 1) - q = q - gridQuanta low → Even (low + 1)) :
    RoundsTo q (low + 1) := by
  have hdist : |(gridQuanta (low + 1) : ℚ) - q| = gridQuanta (low + 1) - q :=
    abs_of_nonneg (by linarith)
  constructor
  · intro other
    rw [hdist]
    rcases Nat.lt_or_ge low other with hlt | hge
    · have hother := cast_gridQuanta_le (Nat.succ_le_of_lt hlt)
      rw [abs_of_nonneg (by linarith)]
      linarith
    · have hother := cast_gridQuanta_le hge
      rw [abs_sub_comm, abs_of_nonneg (by linarith)]
      linarith
  · intro other hne heq
    rw [hdist] at heq
    rcases Nat.lt_or_gt_of_ne hne with hlt | hgt
    · have hother := cast_gridQuanta_le (Nat.le_of_lt_succ hlt)
      rw [abs_sub_comm, abs_of_nonneg (by linarith)] at heq
      exact heven (by linarith)
    · have hother := cast_gridQuanta_lt hgt
      rw [abs_of_nonneg (by linarith)] at heq
      linarith

/-- Two codes cannot both be the one that a number rounds to. -/
theorem RoundsTo.unique (h : RoundsTo q code) (hother : RoundsTo q other) : code = other := by
  have hsame : |(gridQuanta code : ℚ) - q| = |(gridQuanta other : ℚ) - q| :=
    le_antisymm (h.nearest other) (hother.nearest code)
  wlog hle : code ≤ other generalizing code other
  · exact (this hother h hsame.symm (Nat.le_of_not_le hle)).symm
  by_contra hne
  -- Both codes are even, so a code between them would be nearer.
  have heven : Even code := h.even other (Ne.symm hne) hsame.symm
  have heven' : Even other := hother.even code hne hsame
  have hlt : code + 1 < other := by
    rw [Nat.even_iff] at heven heven'
    omega
  have hbelow := cast_gridQuanta_lt (Nat.lt_succ_self code)
  have habove := cast_gridQuanta_lt hlt
  have hnearer := h.nearest (code + 1)
  have hmiddle : q - gridQuanta code = gridQuanta other - q := by
    rcases abs_eq_abs.mp hsame with heq | heq
    · linarith
    · linarith
  rw [abs_sub_comm, abs_of_nonneg (by linarith)] at hnearer
  rcases abs_cases ((gridQuanta (code + 1) : ℚ) - q) with ⟨habs, -⟩ | ⟨habs, -⟩
  · linarith
  · linarith

/-- Rounding does not pass a number of the grid. -/
theorem RoundsTo.le_of_le (h : RoundsTo q code) (hq : q ≤ gridQuanta other) : code ≤ other := by
  by_contra hlt
  have hgap := cast_gridQuanta_lt (Nat.lt_of_not_le hlt)
  have hnearest := h.nearest other
  rw [abs_of_nonneg (by linarith), abs_of_nonneg (by linarith)] at hnearest
  linarith

theorem RoundsTo.le_of_ge (h : RoundsTo q code) (hq : gridQuanta other ≤ q) : other ≤ code := by
  by_contra hlt
  have hgap := cast_gridQuanta_lt (Nat.lt_of_not_le hlt)
  have hnearest := h.nearest other
  rw [abs_of_nonpos (by linarith), abs_of_nonpos (by linarith)] at hnearest
  linarith

theorem roundsTo_gridQuanta (code : Nat) : RoundsTo (gridQuanta code) code := by
  have hgap := cast_gridQuanta_lt (Nat.lt_succ_self code)
  apply roundsTo_lower le_rfl
  · linarith
  · intro heq
    linarith

/-! ## Quotients -/

theorem div_excessBits (whole : Nat) :
    whole / 2 ^ excessBits whole < 2 * hiddenBit ∧
      (excessBits whole = 0 ∨ hiddenBit ≤ whole / 2 ^ excessBits whole) := by
  rw [excessBits]
  split
  · rename_i hlt
    exact ⟨by rwa [Nat.pow_zero, Nat.div_one], Or.inl rfl⟩
  · rename_i hge
    rw [hiddenBit_eq] at hge ⊢
    have hne : whole ≠ 0 := by omega
    obtain ⟨shift, hshift⟩ : ∃ shift, whole.log2 = 52 + shift := by
      have hlog : 52 ≤ whole.log2 := (Nat.le_log2 hne).mpr (by omega)
      exact Nat.exists_eq_add_of_le hlog
    obtain ⟨hle, hlt⟩ := (Nat.log2_eq_iff hne).mp hshift
    rw [hshift, Nat.add_sub_cancel_left]
    constructor
    · rw [Nat.div_lt_iff_lt_mul (Nat.two_pow_pos shift)]
      calc
        whole < 2 ^ (52 + shift + 1) := hlt
        _ = 2 * 2 ^ 52 * 2 ^ shift := by ring
    · right
      rw [Nat.le_div_iff_mul_le (Nat.two_pow_pos shift), ← Nat.pow_add]
      exact hle

/-- The neighbours of a quotient on the grid and the choice between them. -/
structure Bracket (num den shift floor rest : Nat) : Prop where
  num_eq : num = floor * 2 ^ shift * den + rest
  rest_lt : rest < 2 ^ shift * den
  normal : shift = 0 ∨ hiddenBit ≤ floor
  lower : gridQuanta (shift * hiddenBit + floor) = floor * 2 ^ shift
  upper : gridQuanta (shift * hiddenBit + floor + 1) = (floor + 1) * 2 ^ shift
  codeOfRatio_eq : codeOfRatio num den =
    shift * hiddenBit +
      if 2 * rest < 2 ^ shift * den then floor
      else if 2 * rest = 2 ^ shift * den then floor + floor % 2
      else floor + 1

theorem exists_bracket (num : Nat) (hden : 0 < den) :
    ∃ shift floor rest, Bracket num den shift floor rest := by
  obtain ⟨hlt, hnormal⟩ := div_excessBits (num / den)
  generalize hshift : excessBits (num / den) = shift at hlt hnormal
  have hunit : den <<< shift = 2 ^ shift * den := by
    rw [Nat.shiftLeft_eq, Nat.mul_comm]
  have hfloor : num / den / 2 ^ shift = num / (2 ^ shift * den) := by
    rw [Nat.div_div_eq_div_mul, Nat.mul_comm]
  rw [hfloor] at hlt hnormal
  refine ⟨shift, num / (2 ^ shift * den), num % (2 ^ shift * den), ?_, ?_, hnormal, ?_, ?_, ?_⟩
  · rw [Nat.mul_assoc, Nat.div_add_mod']
  · exact Nat.mod_lt _ (Nat.mul_pos (Nat.two_pow_pos shift) hden)
  · rcases hnormal with hzero | hge
    · rw [hzero] at hlt ⊢
      rw [Nat.zero_mul, Nat.zero_add, gridQuanta_of_le hlt.le, Nat.pow_zero, Nat.mul_one]
    · exact gridQuanta_shifted hge hlt.le shift
  · rcases hnormal with hzero | hge
    · rw [hzero] at hlt ⊢
      rw [Nat.zero_mul, Nat.zero_add, gridQuanta_of_le hlt, Nat.pow_zero, Nat.mul_one]
    · rw [Nat.add_assoc]
      exact gridQuanta_shifted (by omega) hlt shift
  · rw [codeOfRatio, hshift, hunit, nearestEven]

namespace Bracket

variable {shift floor rest : Nat}

theorem sub_lower (h : Bracket num den shift floor rest) (hden : 0 < den) :
    (num / den : ℚ) - gridQuanta (shift * hiddenBit + floor) = rest / den := by
  have hne : (den : ℚ) ≠ 0 := by exact_mod_cast hden.ne'
  rw [h.lower, h.num_eq]
  push_cast
  field_simp
  ring

theorem upper_sub (h : Bracket num den shift floor rest) (hden : 0 < den) :
    (gridQuanta (shift * hiddenBit + floor + 1) : ℚ) - num / den = 2 ^ shift - rest / den := by
  have hlower := h.sub_lower hden
  rw [h.lower] at hlower
  rw [h.upper]
  push_cast at hlower ⊢
  linarith

theorem rest_div_mem (h : Bracket num den shift floor rest) (hden : 0 < den) :
    (0 : ℚ) ≤ rest / den ∧ (rest / den : ℚ) ≤ 2 ^ shift := by
  have hpos : (0 : ℚ) < den := by exact_mod_cast hden
  refine ⟨by positivity, ?_⟩
  rw [div_le_iff₀ hpos]
  exact_mod_cast h.rest_lt.le

theorem two_mul_rest_lt_iff (hden : 0 < den) :
    2 * rest < 2 ^ shift * den ↔ (rest / den : ℚ) < 2 ^ shift - rest / den := by
  have hpos : (0 : ℚ) < den := by exact_mod_cast hden
  rw [lt_sub_iff_add_lt, ← two_mul, ← mul_div_assoc, div_lt_iff₀ hpos]
  exact_mod_cast Iff.rfl

theorem two_mul_rest_eq_iff (hden : 0 < den) :
    2 * rest = 2 ^ shift * den ↔ (rest / den : ℚ) = 2 ^ shift - rest / den := by
  have hpos : (den : ℚ) ≠ 0 := by exact_mod_cast hden.ne'
  rw [eq_sub_iff_add_eq, ← two_mul, ← mul_div_assoc, div_eq_iff hpos]
  exact_mod_cast Iff.rfl

theorem even_add_iff (shift floor : Nat) :
    Even (shift * hiddenBit + floor) ↔ floor % 2 = 0 := by
  have heven : hiddenBit = 2 * (hiddenBit / 2) := by decide
  rw [Nat.even_iff, heven, Nat.mul_left_comm, Nat.mul_add_mod]

theorem roundsTo (h : Bracket num den shift floor rest) (hden : 0 < den) :
    RoundsTo (num / den) (codeOfRatio num den) := by
  have hlow := h.sub_lower hden
  have hhigh := h.upper_sub hden
  obtain ⟨hrest, hlt⟩ := h.rest_div_mem hden
  rw [h.codeOfRatio_eq]
  rcases lt_trichotomy (2 * rest) (2 ^ shift * den) with hless | hsame | hmore
  · rw [if_pos hless]
    rw [two_mul_rest_lt_iff hden] at hless
    apply roundsTo_lower
    · linarith
    · linarith
    · intro heq
      linarith
  · have hmiddle := (two_mul_rest_eq_iff hden).mp hsame
    rw [if_neg hsame.not_lt, if_pos hsame]
    rcases Nat.mod_two_eq_zero_or_one floor with hzero | hone
    · rw [hzero, Nat.add_zero]
      apply roundsTo_lower
      · linarith
      · linarith
      · exact fun _ => (even_add_iff shift floor).mpr hzero
    · rw [hone, ← Nat.add_assoc]
      apply roundsTo_upper
      · linarith
      · linarith
      · intro _
        rw [Nat.add_assoc, even_add_iff]
        omega
  · have hnot : ¬ 2 * rest < 2 ^ shift * den := by omega
    rw [if_neg hnot, if_neg hmore.ne', ← Nat.add_assoc]
    have hmost := mt (two_mul_rest_lt_iff hden).mpr hnot
    have hother := mt (two_mul_rest_eq_iff hden).mpr hmore.ne'
    apply roundsTo_upper
    · linarith
    · linarith
    · intro heq
      exact absurd (by linarith) hother

theorem abs_sub_le (h : Bracket num den shift floor rest) (hden : 0 < den) :
    |(gridQuanta (codeOfRatio num den) : ℚ) - num / den| ≤ 2 ^ shift / 2 := by
  have hlow := h.sub_lower hden
  have hhigh := h.upper_sub hden
  have hrounds := h.roundsTo hden
  obtain ⟨hrest, hlt⟩ := h.rest_div_mem hden
  have hlower := hrounds.nearest (shift * hiddenBit + floor)
  have hupper := hrounds.nearest (shift * hiddenBit + floor + 1)
  rw [abs_sub_comm (gridQuanta (shift * hiddenBit + floor) : ℚ), hlow, abs_of_nonneg hrest]
    at hlower
  have hgap : |(2 : ℚ) ^ shift - rest / den| = 2 ^ shift - rest / den :=
    abs_of_nonneg (by linarith)
  rw [hhigh, hgap] at hupper
  linarith

end Bracket

theorem roundsTo_codeOfRatio (num : Nat) (hden : 0 < den) :
    RoundsTo (num / den) (codeOfRatio num den) := by
  obtain ⟨shift, floor, rest, hbracket⟩ := exists_bracket num hden
  exact hbracket.roundsTo hden

theorem roundsTo_codeOfRatio_one (n : Nat) : RoundsTo n (codeOfRatio n 1) := by
  have hrounds := roundsTo_codeOfRatio n Nat.one_pos
  rwa [Nat.cast_one, div_one] at hrounds

/-- A number of quanta on the grid rounds to its code. -/
theorem codeOfRatio_gridQuanta (code : Nat) : codeOfRatio (gridQuanta code) 1 = code :=
  (roundsTo_codeOfRatio_one (gridQuanta code)).unique (roundsTo_gridQuanta code)

/-! ## Errors -/

/-- The greatest relative error of a rounding to a normal number. -/
def unitRoundoff : ℚ := 1 / 2 ^ 53

theorem unitRoundoff_pos : 0 < unitRoundoff := by
  rw [unitRoundoff]
  positivity

/-- The gap above a quotient is relative to its size, unless the quotient is below the normal
numbers. -/
theorem Bracket.two_pow_le {shift floor rest : Nat} (h : Bracket num den shift floor rest)
    (hden : 0 < den) (hshift : shift ≠ 0) : (2 : ℚ) ^ shift / 2 ≤ num / den * unitRoundoff := by
  have hfloor : (2 : ℚ) ^ 52 ≤ floor := by
    have hhidden := h.normal.resolve_left hshift
    rw [hiddenBit_eq] at hhidden
    exact_mod_cast hhidden
  have hle : (2 : ℚ) ^ 52 * 2 ^ shift ≤ num / den := by
    have hlow := h.sub_lower hden
    have hrest := (h.rest_div_mem hden).1
    rw [h.lower] at hlow
    push_cast at hlow
    have hmul : (2 : ℚ) ^ 52 * 2 ^ shift ≤ floor * 2 ^ shift :=
      mul_le_mul_of_nonneg_right hfloor (by positivity)
    linarith
  calc
    (2 : ℚ) ^ shift / 2 = 2 ^ 52 * 2 ^ shift * unitRoundoff := by rw [unitRoundoff]; ring
    _ ≤ num / den * unitRoundoff := mul_le_mul_of_nonneg_right hle unitRoundoff_pos.le

theorem abs_gridQuanta_codeOfRatio_sub_le (num : Nat) (hden : 0 < den) :
    |(gridQuanta (codeOfRatio num den) : ℚ) - num / den| ≤ num / den * unitRoundoff + 1 / 2 := by
  obtain ⟨shift, floor, rest, h⟩ := exists_bracket num hden
  have hle := h.abs_sub_le hden
  by_cases hshift : shift = 0
  · have hpos := unitRoundoff_pos
    have hnonneg : (0 : ℚ) ≤ num / den * unitRoundoff := by positivity
    rw [hshift, pow_zero] at hle
    linarith
  · have hgap := h.two_pow_le hden hshift
    linarith

theorem abs_gridQuanta_codeOfRatio_one_sub_le (n : Nat) :
    |(gridQuanta (codeOfRatio n 1) : ℚ) - n| ≤ n * unitRoundoff := by
  obtain ⟨shift, floor, rest, h⟩ := exists_bracket n Nat.one_pos
  have hle := h.abs_sub_le Nat.one_pos
  rw [Nat.cast_one, div_one] at hle
  by_cases hshift : shift = 0
  · have hrest := h.rest_lt
    have hlower := h.lower
    have hn := h.num_eq
    rw [hshift, Nat.pow_zero] at hrest hlower hn
    obtain rfl : n = gridQuanta (0 * hiddenBit + floor) := by omega
    rw [codeOfRatio_gridQuanta, sub_self, abs_zero, unitRoundoff]
    positivity
  · have hgap := h.two_pow_le Nat.one_pos hshift
    rw [Nat.cast_one, div_one] at hgap
    linarith

theorem RoundsTo.abs_sub_le (h : RoundsTo q code) (hq : (2 : ℚ) ^ 52 ≤ q) :
    |(gridQuanta code : ℚ) - q| ≤ q * unitRoundoff := by
  obtain ⟨num, den, hden, rfl⟩ : ∃ num den : Nat, 0 < den ∧ q = num / den := by
    have hnonneg : 0 ≤ q := (by positivity : (0 : ℚ) ≤ 2 ^ 52).trans hq
    refine ⟨q.num.natAbs, q.den, q.den_pos, ?_⟩
    rw [Nat.cast_natAbs, abs_of_nonneg (Rat.num_nonneg.mpr hnonneg), Rat.num_div_den]
  rw [h.unique (roundsTo_codeOfRatio num hden)]
  obtain ⟨shift, floor, rest, hbracket⟩ := exists_bracket num hden
  have hle := hbracket.abs_sub_le hden
  by_cases hshift : shift = 0
  · rw [hshift, pow_zero] at hle
    calc
      _ ≤ (1 : ℚ) / 2 := hle
      _ = 2 ^ 52 * unitRoundoff := by norm_num [unitRoundoff]
      _ ≤ num / den * unitRoundoff := mul_le_mul_of_nonneg_right hq unitRoundoff_pos.le
  · exact hle.trans (hbracket.two_pow_le hden hshift)

/-! ## Overflow -/

/-- The least number that is rounded to infinity, the middle between the greatest finite number and
two to the power of 1024. -/
def overflowBound : ℚ := 2 ^ 1024 - 2 ^ 970

theorem overflowBound_eq : overflowBound = (1 - 1 / 2 ^ 54) * 2 ^ 1024 := by
  have hpow : (2 : ℚ) ^ 1024 = 2 ^ 54 * 2 ^ 970 := by
    have hexponent : 1024 = 54 + 970 := rfl
    rw [hexponent, pow_add]
  rw [overflowBound, hpow]
  generalize (2 : ℚ) ^ 970 = gap
  ring

theorem cast_gridQuanta_infinityCode : (gridQuanta infinityCode : ℚ) = 2 ^ 1024 * quantaPerOne := by
  rw [gridQuanta_infinityCode, Nat.cast_mul, Nat.cast_pow, Nat.cast_ofNat]
  rfl

theorem cast_gridQuanta_greatest :
    (gridQuanta (infinityCode - 1) : ℚ) = (1 - 1 / 2 ^ 53) * gridQuanta infinityCode := by
  have hcode : infinityCode = (exponentBound + 1021) * hiddenBit + 2 * hiddenBit := by decide
  have hpred : infinityCode - 1 =
      (exponentBound + 1021) * hiddenBit + (2 * hiddenBit - 1) := by decide
  have hsignificand :
      ((2 * hiddenBit - 1 : Nat) : ℚ) = (1 - 1 / 2 ^ 53) * (2 * hiddenBit : Nat) := by
    norm_num [hiddenBit]
  rw [hpred, gridQuanta_shifted (by decide) (by decide), hcode,
    gridQuanta_shifted (by decide) le_rfl, Nat.cast_mul, Nat.cast_mul, hsignificand, mul_assoc]

theorem overflowBound_mul_quantaPerOne :
    2 * (overflowBound * quantaPerOne) =
      gridQuanta (infinityCode - 1) + gridQuanta infinityCode := by
  rw [cast_gridQuanta_greatest, cast_gridQuanta_infinityCode, overflowBound_eq]
  generalize (2 : ℚ) ^ 1024 = range
  ring

theorem cast_lt_overflowBound {n : Nat} (h : 2 * n ≤ 2 ^ exponentBound) :
    (n : ℚ) < overflowBound := by
  have hcast : 2 * (n : ℚ) ≤ 2 ^ exponentBound := by exact_mod_cast h
  have hrange : (0 : ℚ) < 2 ^ 1024 := by positivity
  rw [exponentBound] at hcast
  rw [overflowBound_eq]
  generalize (2 : ℚ) ^ 1024 = range at hcast hrange ⊢
  linarith

/-- A number is rounded to infinity from the overflow bound on. -/
theorem RoundsTo.infinityCode_le_iff (h : RoundsTo q code) :
    infinityCode ≤ code ↔ overflowBound * quantaPerOne ≤ q := by
  have hbound := overflowBound_mul_quantaPerOne
  have hgap := cast_gridQuanta_lt (show infinityCode - 1 < infinityCode by decide)
  constructor
  · intro hle
    by_contra hlt
    have hnearest := h.nearest (infinityCode - 1)
    have hcode := cast_gridQuanta_le hle
    rw [abs_of_nonneg (by linarith)] at hnearest
    rcases abs_cases ((gridQuanta (infinityCode - 1) : ℚ) - q) with ⟨habs, -⟩ | ⟨habs, -⟩
    · linarith
    · linarith
  · intro hle
    by_contra hlt
    have hlt' : code ≤ infinityCode - 1 := by omega
    have hcode := cast_gridQuanta_le hlt'
    have hnearest := h.nearest infinityCode
    have hdist : |(gridQuanta code : ℚ) - q| = q - gridQuanta code := by
      rw [abs_sub_comm, abs_of_nonneg (by linarith)]
    rw [hdist] at hnearest
    have hfar : |(gridQuanta infinityCode : ℚ) - q| ≤ q - gridQuanta (infinityCode - 1) := by
      rw [abs_le]
      constructor
      · linarith
      · linarith
    have hgreatest : gridQuanta code = gridQuanta (infinityCode - 1) := by
      have heq : (gridQuanta code : ℚ) = gridQuanta (infinityCode - 1) := by linarith
      exact_mod_cast heq
    have htie : |(gridQuanta infinityCode : ℚ) - q| = |(gridQuanta code : ℚ) - q| := by
      rw [hdist]
      linarith
    -- In the middle infinity is preferred, since the greatest finite number has an odd code.
    have heven := h.even infinityCode (by omega) htie
    rw [gridQuanta_strictMono.injective hgreatest] at heven
    exact absurd heven (by decide)

end Binary64

end StackCalc
