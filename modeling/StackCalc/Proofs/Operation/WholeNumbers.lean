import Mathlib
import StackCalc.Proofs.Binary64.Value
import StackCalc.Proofs.Expr.Finiteness

/-!
# Whole numbers next to a number are exact

The floor, the ceiling and the rounded value of a finite number are whole numbers next to it.  A
number with a fraction is less than `2 ^ 52`, so the whole numbers next to it have at most 53 bits,
and a number without a fraction is one itself.  So none of the three operations makes an error or
goes out of range.

A fraction has no more bits than the number it is taken from.  So rounding may as well compute the
fraction in binary64 arithmetic and compare it with one half.
-/

namespace StackCalc

namespace Binary64

variable {x y : Binary64} {n k : Nat}

/-! ## Whole numbers on the grid -/

theorem OnGrid.exists_eq_of_fraction (h : OnGrid n) (hfraction : n % quantaPerOne ≠ 0) :
    ∃ significand shift rest, significand < 2 * hiddenBit ∧ n = significand * 2 ^ shift ∧
      quantaPerOne = 2 ^ (rest + 1) * 2 ^ shift := by
  obtain ⟨significand, shift, hhigh, rfl⟩ := h.exists_eq
  rcases Nat.lt_or_ge shift places with hlt | hge
  · obtain ⟨rest, hrest⟩ := Nat.exists_eq_add_of_lt hlt
    refine ⟨significand, shift, rest, hhigh, rfl, ?_⟩
    rw [quantaPerOne_eq_pow, hrest, ← Nat.pow_add]
    congr 1
    omega
  · have hdvd : quantaPerOne ∣ significand * 2 ^ shift := by
      rw [quantaPerOne_eq_pow]
      exact Dvd.dvd.mul_left (Nat.pow_dvd_pow 2 hge) significand
    exact absurd (Nat.mod_eq_zero_of_dvd hdvd) hfraction

theorem OnGrid.div_lt (h : OnGrid n) (hfraction : n % quantaPerOne ≠ 0) :
    n / quantaPerOne < hiddenBit := by
  obtain ⟨significand, shift, rest, hhigh, rfl, hone⟩ := h.exists_eq_of_fraction hfraction
  rw [hone, Nat.mul_div_mul_right _ _ (Nat.two_pow_pos shift),
    Nat.div_lt_iff_lt_mul (Nat.two_pow_pos _), Nat.pow_succ]
  have hpow : 1 ≤ 2 ^ rest := Nat.one_le_two_pow
  calc
    significand < hiddenBit * (1 * 2) := by omega
    _ ≤ hiddenBit * (2 ^ rest * 2) := Nat.mul_le_mul_left _ (Nat.mul_le_mul_right 2 hpow)

theorem OnGrid.fraction (h : OnGrid n) : OnGrid (n % quantaPerOne) := by
  by_cases hfraction : n % quantaPerOne = 0
  · rw [hfraction]
    exact onGrid_of_le (Nat.zero_le _)
  · obtain ⟨significand, shift, rest, hhigh, rfl, hone⟩ := h.exists_eq_of_fraction hfraction
    rw [hone, Nat.mul_mod_mul_right]
    exact (onGrid_of_le ((Nat.mod_le _ _).trans hhigh.le)).mul_two_pow shift

/-- A whole number next to a number of quanta: the one below or, if there is a fraction, the one
above. -/
def NextTo (n k : Nat) : Prop :=
  k = n / quantaPerOne ∨ n % quantaPerOne ≠ 0 ∧ k = n / quantaPerOne + 1

theorem OnGrid.of_nextTo (h : OnGrid n) (hk : NextTo n k) : OnGrid (k * quantaPerOne) := by
  by_cases hfraction : n % quantaPerOne = 0
  · obtain rfl := hk.resolve_right fun hnot => hnot.1 hfraction
    rwa [Nat.div_mul_cancel (Nat.dvd_of_mod_eq_zero hfraction)]
  · have hlt := h.div_lt hfraction
    have hle : k ≤ 2 * hiddenBit := by
      rcases hk with rfl | ⟨-, rfl⟩
      · omega
      · omega
    rw [quantaPerOne_eq_pow]
    exact (onGrid_of_le hle).mul_two_pow places

theorem NextTo.mul_lt (h : OnGrid n) (hk : NextTo n k)
    (hn : n < 2 ^ exponentBound * quantaPerOne) :
    k * quantaPerOne < 2 ^ exponentBound * quantaPerOne := by
  rcases hk with rfl | ⟨hfraction, rfl⟩
  · exact (Nat.div_mul_le_self n quantaPerOne).trans_lt hn
  · have hlt := h.div_lt hfraction
    have hbound : hiddenBit < 2 ^ exponentBound := by
      rw [hiddenBit_eq]
      exact Nat.pow_lt_pow_right Nat.one_lt_two (by decide)
    exact Nat.mul_lt_mul_of_pos_right (by omega) quantaPerOne_pos

theorem value_ofInt_of_nextTo {k : Int} (h : x.isFinite = true) (hk : NextTo x.quanta k.natAbs) :
    (ofInt k).isFinite = true ∧ (ofInt k).value = k :=
  value_ofInt (x.onGrid_quanta.of_nextTo hk) (hk.mul_lt x.onGrid_quanta (quanta_lt h))

/-! ## Floor, ceiling and rounding -/

theorem nextTo_natAbs_div (n : Nat) : NextTo n ((n : Int) / (quantaPerOne : Int)).natAbs := by
  left
  rw [← Int.natCast_ediv, Int.natAbs_natCast]

theorem nextTo_natAbs_neg_div (n : Nat) :
    NextTo n (-(n : Int) / (quantaPerOne : Int)).natAbs := by
  rw [Int.neg_ediv]
  by_cases hdvd : (quantaPerOne : Int) ∣ n
  · left
    rw [if_pos hdvd, Int.sub_zero, Int.natAbs_neg, ← Int.natCast_ediv, Int.natAbs_natCast]
  · right
    refine ⟨fun hmod => hdvd (Int.natCast_dvd_natCast.mpr (Nat.dvd_of_mod_eq_zero hmod)), ?_⟩
    have hsign : (quantaPerOne : Int).sign = 1 :=
      Int.sign_eq_one_of_pos (Int.natCast_pos.mpr quantaPerOne_pos)
    rw [if_neg hdvd, hsign, ← Int.natCast_ediv]
    generalize n / quantaPerOne = whole
    omega

theorem nextTo_floorInt (x : Binary64) : NextTo x.quanta x.floorInt.natAbs := by
  rw [floorInt, signedQuanta]
  split
  · exact nextTo_natAbs_neg_div x.quanta
  · exact nextTo_natAbs_div x.quanta

theorem nextTo_ceilInt (x : Binary64) : NextTo x.quanta x.ceilInt.natAbs := by
  rw [ceilInt, signedQuanta, Int.natAbs_neg]
  split
  · rw [Int.neg_neg]
    exact nextTo_natAbs_div x.quanta
  · exact nextTo_natAbs_neg_div x.quanta

theorem floorInt_eq (x : Binary64) : x.floorInt = ⌊x.value⌋ :=
  (Rat.floor_intCast_div_natCast x.signedQuanta quantaPerOne).symm

theorem ceilInt_eq (x : Binary64) : x.ceilInt = ⌈x.value⌉ :=
  (Rat.ceil_intCast_div_natCast x.signedQuanta quantaPerOne).symm

theorem nearestWhole_eq_ite (x : Binary64) :
    x.nearestWhole =
      if quantaPerOne ≤ 2 * (x.quanta % quantaPerOne) then x.quanta / quantaPerOne + 1
      else x.quanta / quantaPerOne := by
  have hrest : x.quanta - x.quanta / quantaPerOne * quantaPerOne = x.quanta % quantaPerOne := by
    rw [Nat.mul_comm, ← Nat.mod_eq_sub_mul_div]
  rw [nearestWhole, wholePart, hrest]

theorem nextTo_nearestWhole (x : Binary64) : NextTo x.quanta x.nearestWhole := by
  have hpos := quantaPerOne_pos
  rw [nearestWhole_eq_ite]
  split
  · exact Or.inr ⟨by omega, rfl⟩
  · exact Or.inl rfl

theorem nextTo_nearestEvenWhole (x : Binary64) : NextTo x.quanta x.nearestEvenWhole := by
  have hpos := quantaPerOne_pos
  rw [nearestEvenWhole, nearestEven]
  split
  · exact Or.inl rfl
  · split
    · rcases Nat.mod_two_eq_zero_or_one (x.quanta / quantaPerOne) with heven | hodd
      · rw [heven]
        exact Or.inl rfl
      · rw [hodd]
        exact Or.inr ⟨by omega, rfl⟩
    · exact Or.inr ⟨by omega, rfl⟩

theorem floor_add_half (whole : Nat) {one rest : Nat} (hone : 0 < one) (hrest : rest < one) :
    ⌊((whole * one + rest : Nat) : ℚ) / one + 1 / 2⌋ =
      if one ≤ 2 * rest then (whole + 1 : ℤ) else whole := by
  have hpos : (0 : ℚ) < one := by exact_mod_cast hone
  have hdiv : ((whole * one + rest : Nat) : ℚ) / one = whole + rest / one := by
    push_cast
    field_simp
  have hnonneg : (0 : ℚ) ≤ rest / one := by positivity
  have hlt : (rest / one : ℚ) < 1 := by
    rw [div_lt_one hpos]
    exact_mod_cast hrest
  have hhalf : one ≤ 2 * rest ↔ (1 : ℚ) / 2 ≤ rest / one := by
    rw [div_le_div_iff₀ two_pos hpos, one_mul, mul_comm (rest : ℚ)]
    exact_mod_cast Iff.rfl
  rw [Int.floor_eq_iff, hdiv]
  split
  · rename_i hle
    rw [hhalf] at hle
    push_cast
    constructor
    · linarith
    · linarith
  · rename_i hnot
    rw [hhalf, not_le] at hnot
    push_cast
    constructor
    · linarith
    · linarith

theorem nearestWhole_eq (x : Binary64) : (x.nearestWhole : Int) = ⌊|x.value| + 1 / 2⌋ := by
  have hfloor := floor_add_half (x.quanta / quantaPerOne) quantaPerOne_pos
    (Nat.mod_lt x.quanta quantaPerOne_pos)
  rw [Nat.div_add_mod'] at hfloor
  rw [abs_value, hfloor, nearestWhole_eq_ite]
  split
  · rw [Nat.cast_add, Nat.cast_one]
  · rfl

theorem nearestWhole_eq_zero (h : x.quanta = 0) : x.nearestWhole = 0 := by
  rw [nearestWhole_eq_ite, h]
  rfl

theorem quanta_ofNat_of_nextTo (h : x.isFinite = true) (hk : NextTo x.quanta k) :
    (ofNat k).isFinite = true ∧ (ofNat k).quanta = k * quantaPerOne :=
  ofRatio_of_onGrid false (x.onGrid_quanta.of_nextTo hk) (hk.mul_lt x.onGrid_quanta (quanta_lt h))

/-- The rounded value has the sign of the number, if it is not zero. -/
theorem value_roundHalfAway (h : x.isFinite = true) :
    (Operation.roundHalfAway x).value = SignType.sign x.value * ⌊|x.value| + 1 / 2⌋ := by
  obtain ⟨-, hquanta⟩ := quanta_ofNat_of_nextTo h (nextTo_nearestWhole x)
  have hone := cast_quantaPerOne_pos
  rw [Operation.roundHalfAway, value_withSignOf, hquanta, ← nearestWhole_eq, Nat.cast_mul,
    mul_div_cancel_right₀ _ hone.ne', Int.cast_natCast]
  by_cases hzero : x.quanta = 0
  · rw [nearestWhole_eq_zero hzero, Nat.cast_zero, mul_zero, mul_zero]
  · have hpos : (0 : ℚ) < x.quanta / quantaPerOne :=
      div_pos (by exact_mod_cast Nat.pos_of_ne_zero hzero) hone
    have hsign : x.value = (if x.negative then -1 else 1) * (x.quanta / quantaPerOne) :=
      value_withSignOf x x
    rw [hsign]
    cases x.negative with
    | false => simp [sign_pos hpos]
    | true => simp [sign_neg (neg_neg_of_pos hpos)]

/-- No integer is nearer to a rational than its rounded magnitude with its sign. -/
theorem abs_sign_mul_floor_sub_le (q : ℚ) (k : ℤ) :
    |SignType.sign q * (⌊|q| + 1 / 2⌋ : ℚ) - q| ≤ |k - q| := by
  have hround : ⌊|q| + 1 / 2⌋ = round |q| := (round_eq |q|).symm
  rw [hround]
  rcases lt_trichotomy q 0 with hneg | rfl | hpos
  · have hnearest := round_le |q| (-k)
    rw [abs_of_neg hneg] at hnearest ⊢
    have hflip : (k : ℚ) - q = -q - (-k : ℤ) := by
      push_cast
      ring
    rw [sign_neg hneg, hflip, SignType.coe_neg_one, neg_one_mul, neg_sub_comm]
    exact hnearest
  · simp
  · have hnearest := round_le |q| k
    rw [abs_of_pos hpos] at hnearest ⊢
    rw [sign_pos hpos, abs_sub_comm _ q, abs_sub_comm _ q]
    simpa using hnearest

/-! ## The fraction -/

/-- The number one half. -/
def half : Binary64 := ofCode false 0x3FE0000000000000

/-- The whole number nearest to a number, from its fraction as a difference of binary64 numbers. -/
def roundByFraction (x : Binary64) : Binary64 :=
  let magnitude := x.abs
  let whole := magnitude.floorInt
  let whole := if half.atMost (magnitude.sub (.ofInt whole)) then whole + 1 else whole
  (ofInt whole).withSignOf x

theorem floorInt_abs (x : Binary64) : x.abs.floorInt = (x.quanta / quantaPerOne : Nat) :=
  (Int.natCast_ediv x.quanta quantaPerOne).symm

/-- The difference of a magnitude and its floor is its fraction, without an error. -/
theorem sub_floor_eq (h : x.isFinite = true) :
    (x.abs.sub (.ofInt x.abs.floorInt)).isFinite = true ∧
      (x.abs.sub (.ofInt x.abs.floorInt)).negative = false ∧
      (x.abs.sub (.ofInt x.abs.floorInt)).quanta = x.quanta % quantaPerOne := by
  obtain ⟨hfinite, hquanta⟩ := quanta_ofNat_of_nextTo h (Or.inl rfl)
  have hdiff : x.abs.signedQuanta + (ofNat (x.quanta / quantaPerOne)).neg.signedQuanta =
      (x.quanta % quantaPerOne : Nat) := by
    have hwhole : (ofNat (x.quanta / quantaPerOne)).signedQuanta =
        (ofNat (x.quanta / quantaPerOne)).quanta := rfl
    have hmagnitude : x.abs.signedQuanta = x.quanta := rfl
    have hparts := Nat.div_add_mod' x.quanta quantaPerOne
    rw [signedQuanta_neg, hwhole, hquanta, hmagnitude]
    omega
  have hmagnitude : x.abs.isFinite = true := h
  have hminus : (ofNat (x.quanta / quantaPerOne)).neg.isFinite = true := hfinite
  rw [floorInt_abs, ← ofNat_eq_ofInt, sub, add_of_isFinite hmagnitude hminus, hdiff, abs,
    Bool.false_and, ofSignedQuanta_natCast]
  have hlt := (Nat.mod_le x.quanta quantaPerOne).trans_lt (quanta_lt h)
  obtain ⟨hfinite', hquanta'⟩ := ofRatio_of_onGrid false x.onGrid_quanta.fraction hlt
  exact ⟨hfinite', rfl, hquanta'⟩

theorem rank_of_not_negative (h : x.negative = false) : x.rank = x.code := by
  simp [rank, h]

theorem atMost_iff_quanta_le (hx : x.isFinite = true) (hy : y.isFinite = true)
    (hxsign : x.negative = false) (hysign : y.negative = false) :
    x.atMost y = true ↔ x.quanta ≤ y.quanta := by
  have hnan := (isFinite_iff.mp hx).1
  have hnan' := (isFinite_iff.mp hy).1
  rw [quanta_eq, quanta_eq, gridQuanta_strictMono.le_iff_le]
  simp [atMost, hnan, hnan', rank_of_not_negative hxsign, rank_of_not_negative hysign]

theorem two_mul_quanta_half : 2 * half.quanta = quantaPerOne := by
  decide +kernel

theorem half_atMost_iff (hfinite : x.isFinite = true) (hsign : x.negative = false) :
    half.atMost x = true ↔ quantaPerOne ≤ 2 * x.quanta := by
  have hhalf : half.isFinite = true := by decide
  rw [atMost_iff_quanta_le hhalf hfinite rfl hsign, ← two_mul_quanta_half]
  exact (Nat.mul_le_mul_left_iff two_pos).symm

theorem roundByFraction_eq (h : x.isFinite = true) :
    roundByFraction x = Operation.roundHalfAway x := by
  obtain ⟨hfinite, hsign, hquanta⟩ := sub_floor_eq h
  have hhalf := half_atMost_iff hfinite hsign
  rw [hquanta] at hhalf
  rw [roundByFraction, Operation.roundHalfAway, nearestWhole_eq_ite, ofNat_eq_ofInt]
  by_cases hle : quantaPerOne ≤ 2 * (x.quanta % quantaPerOne)
  · simp only [hhalf.mpr hle, if_pos hle, if_true]
    rw [floorInt_abs, Nat.cast_add, Nat.cast_one]
  · simp only [eq_false_of_ne_true (mt hhalf.mp hle), if_neg hle, Bool.false_eq_true, if_false]
    rw [floorInt_abs]

end Binary64

/-! ## The operations -/

open Binary64 Operation

variable {a : Binary64}

theorem applyWhole_of_isFinite (f : Binary64 → Binary64) (h : a.isFinite = true) :
    applyWhole f a = .ok (f a) := by
  obtain ⟨hnan, hinfinite⟩ := isFinite_iff.mp h
  simp [applyWhole, hnan, hinfinite]

theorem UnaryOperation.apply_of_compute [Library] {op : UnaryOperation} {r : Binary64}
    (hcompute : op.compute a = .ok r) (hr : r.isFinite = true) : op.apply a = .ok r := by
  rw [UnaryOperation.apply, hcompute]
  exact finiteResult_of_isFinite hr

theorem exists_apply_floor [Library] (h : a.isFinite = true) :
    ∃ r, UnaryOperation.floor.apply a = .ok r ∧ r.isFinite = true ∧ r.value = ⌊a.value⌋ := by
  obtain ⟨hfinite, hvalue⟩ := value_ofInt_of_nextTo h (nextTo_floorInt a)
  have hcompute : UnaryOperation.floor.compute a = .ok (.ofInt a.floorInt) :=
    applyWhole_of_isFinite (fun a => .ofInt a.floorInt) h
  refine ⟨_, UnaryOperation.apply_of_compute hcompute hfinite, hfinite, ?_⟩
  rw [hvalue, floorInt_eq]

theorem exists_apply_ceil [Library] (h : a.isFinite = true) :
    ∃ r, UnaryOperation.ceil.apply a = .ok r ∧ r.isFinite = true ∧ r.value = ⌈a.value⌉ := by
  obtain ⟨hfinite, hvalue⟩ := value_ofInt_of_nextTo h (nextTo_ceilInt a)
  have hcompute : UnaryOperation.ceil.compute a = .ok (.ofInt a.ceilInt) :=
    applyWhole_of_isFinite (fun a => .ofInt a.ceilInt) h
  refine ⟨_, UnaryOperation.apply_of_compute hcompute hfinite, hfinite, ?_⟩
  rw [hvalue, ceilInt_eq]

theorem isFinite_roundHalfAway (h : a.isFinite = true) : (roundHalfAway a).isFinite = true :=
  (quanta_ofNat_of_nextTo h (nextTo_nearestWhole a)).1

theorem apply_round_of_isFinite [Library] (h : a.isFinite = true) :
    UnaryOperation.round.apply a = .ok (roundHalfAway a) :=
  UnaryOperation.apply_of_compute (applyWhole_of_isFinite _ h) (isFinite_roundHalfAway h)

/-- The floor, the ceiling and the rounded value of a finite number are exact.  The rounded value is
what the comparison of the computed fraction with one half gives. -/
theorem whole_operations_exact [Library] (h : a.isFinite = true) :
    (∃ r, UnaryOperation.floor.apply a = .ok r ∧ r.isFinite = true ∧ r.value = ⌊a.value⌋) ∧
    (∃ r, UnaryOperation.ceil.apply a = .ok r ∧ r.isFinite = true ∧ r.value = ⌈a.value⌉) ∧
    ∃ r, UnaryOperation.round.apply a = .ok r ∧ r.isFinite = true ∧
      r.value = SignType.sign a.value * ⌊|a.value| + 1 / 2⌋ ∧
      (∀ k : ℤ, |r.value - a.value| ≤ |k - a.value|) ∧
      r = roundByFraction a := by
  have hround := value_roundHalfAway h
  have hnearest : ∀ k : ℤ, |(roundHalfAway a).value - a.value| ≤ |k - a.value| := by
    intro k
    rw [hround]
    exact abs_sign_mul_floor_sub_le a.value k
  exact ⟨exists_apply_floor h, exists_apply_ceil h, roundHalfAway a, apply_round_of_isFinite h,
    isFinite_roundHalfAway h, hround, hnearest, (roundByFraction_eq h).symm⟩

/-- The predecessor of one half is rounded to zero although its sum with one half is rounded to
one. -/
theorem round_exact_below_half :
    (ofBits 0x3FDFFFFFFFFFFFFF).isFinite = true ∧
      (∃ r, UnaryOperation.round.apply (ofBits 0x3FDFFFFFFFFFFFFF) = .ok r ∧
        r.value = SignType.sign (ofBits 0x3FDFFFFFFFFFFFFF).value *
          ⌊|(ofBits 0x3FDFFFFFFFFFFFFF).value| + 1 / 2⌋) ∧
      (ofBits 0x3FDFFFFFFFFFFFFF).nearestWhole = 0 ∧
      (ofBits 0x3FDFFFFFFFFFFFFF).add half = one := by
  have hfinite : (ofBits 0x3FDFFFFFFFFFFFFF).isFinite = true := by decide
  obtain ⟨-, -, r, hr, -, hvalue, -, -⟩ := whole_operations_exact hfinite
  exact ⟨hfinite, ⟨r, hr, hvalue⟩, by decide +kernel, by decide +kernel⟩

end StackCalc
