import Mathlib
import StackCalc.Binary64.Elementary
import StackCalc.Proofs.Binary64.Rounding

/-!
# The logarithm of a number other than one is not zero

The natural logarithm is found from an enclosure, so its value is nonzero as soon as the lower
end of every enclosure that may settle it stays away from zero.  The ends are bounded here by
following the sizes of the terms: a nested series of small products lies near one, the logarithm
of two above five eighths, and the logarithm of the factor near one below nine sixteenths.  A
number with no power of two split off differs from one by at least one part in `2 ^ 53`, and so
does its logarithm from zero.
-/

namespace StackCalc

open Binary64 (quantaPerOne)

namespace Enclosure

/-- Both ends lie between two bounds. -/
structure Within (e : Enclosure) (a b : Int) : Prop where
  le_lo : a ≤ e.lo
  lo_le_hi : e.lo ≤ e.hi
  hi_le : e.hi ≤ b

variable {p : Nat} {e f : Enclosure} {a b c d : Int}

/-! ## Operations -/

theorem Within.mono (h : e.Within a b) (hca : c ≤ a) (hbd : b ≤ d) : e.Within c d :=
  ⟨hca.trans h.le_lo, h.lo_le_hi, h.hi_le.trans hbd⟩

theorem Within.add (he : e.Within a b) (hf : f.Within c d) :
    (e.add f).Within (a + c) (b + d) :=
  ⟨add_le_add he.le_lo hf.le_lo, add_le_add he.lo_le_hi hf.lo_le_hi,
    add_le_add he.hi_le hf.hi_le⟩

theorem ofInt_within (p : Nat) (n : Int) : (ofInt p n).Within (n * 2 ^ p) (n * 2 ^ p) := by
  rw [ofInt, Int.shiftLeft_eq]
  exact ⟨le_rfl, le_rfl, le_rfl⟩

theorem le_ceilDiv {x d : Int} (hd : 0 < d) : x ≤ ceilDiv x d * d := by
  have h : -x / d * d ≤ -x := Int.ediv_mul_le (-x) hd.ne'
  rw [ceilDiv, Int.neg_mul]
  omega

theorem ceilDiv_le {x y d : Int} (hd : 0 < d) (h : x ≤ y * d) : ceilDiv x d ≤ y := by
  have hle : -y ≤ -x / d := by
    rw [Int.le_ediv_iff_mul_le hd, Int.neg_mul]
    omega
  rw [ceilDiv]
  omega

theorem within_div {x y d : Int} (hd : 0 < d) (hxy : x ≤ y) (hx : a * d ≤ x) (hy : y ≤ b * d) :
    (Enclosure.mk (x / d) (ceilDiv y d)).Within a b := by
  refine ⟨(Int.le_ediv_iff_mul_le hd).mpr hx, ?_, ceilDiv_le hd hy⟩
  have hle : x / d * d ≤ ceilDiv y d * d :=
    calc
      x / d * d ≤ x := Int.ediv_mul_le x hd.ne'
      _ ≤ y := hxy
      _ ≤ ceilDiv y d * d := le_ceilDiv hd
  exact le_of_mul_le_mul_right hle hd

theorem Within.coarsen (h : e.Within (a * 2 ^ p) (b * 2 ^ p)) : (e.coarsen p).Within a b := by
  have hpow : (0 : Int) < 2 ^ p := by positivity
  have hhi : ceilShift e.hi p = ceilDiv e.hi (2 ^ p) := by
    rw [ceilShift, ceilDiv, Int.shiftRight_eq_div_pow]
    norm_cast
  have hlo : e.lo >>> p = e.lo / 2 ^ p := by
    rw [Int.shiftRight_eq_div_pow]
    norm_cast
  rw [Enclosure.coarsen, hhi, hlo]
  exact within_div hpow h.lo_le_hi h.le_lo h.hi_le

theorem Within.mulRatio {num den : Nat} (hnum : num ≤ den) (hden : 0 < den)
    (h : e.Within 0 b) : (e.mulRatio num den).Within 0 b := by
  have hd : (0 : Int) < den := by exact_mod_cast hden
  have hn : (num : Int) ≤ den := by exact_mod_cast hnum
  have hb : 0 ≤ b := h.le_lo.trans (h.lo_le_hi.trans h.hi_le)
  apply within_div hd
  · exact mul_le_mul_of_nonneg_right h.lo_le_hi (Int.natCast_nonneg num)
  · rw [Int.zero_mul]
    exact mul_nonneg h.le_lo (Int.natCast_nonneg num)
  · exact mul_le_mul h.hi_le hn (Int.natCast_nonneg num) hb

theorem product_of_nonneg (he : e.Within 0 b) (hf : f.Within 0 d) :
    e.product f = ⟨e.lo * f.lo, e.hi * f.hi⟩ := by
  have hehi : 0 ≤ e.hi := he.le_lo.trans he.lo_le_hi
  have hfhi : 0 ≤ f.hi := hf.le_lo.trans hf.lo_le_hi
  have hlolo : e.lo * f.lo ≤ e.lo * f.hi := mul_le_mul_of_nonneg_left hf.lo_le_hi he.le_lo
  have hlohi : e.lo * f.lo ≤ e.hi * f.lo := mul_le_mul_of_nonneg_right he.lo_le_hi hf.le_lo
  have hhilo : e.lo * f.hi ≤ e.hi * f.hi := mul_le_mul_of_nonneg_right he.lo_le_hi hfhi
  have hhihi : e.hi * f.lo ≤ e.hi * f.hi := mul_le_mul_of_nonneg_left hf.lo_le_hi hehi
  simp only [product, mk.injEq]
  constructor <;> omega

theorem product_of_nonpos (he : e.Within a 0) (hf : f.Within 0 d) :
    e.product f = ⟨e.lo * f.hi, e.hi * f.lo⟩ := by
  have helo : e.lo ≤ 0 := he.lo_le_hi.trans he.hi_le
  have hfhi : 0 ≤ f.hi := hf.le_lo.trans hf.lo_le_hi
  have hlolo : e.lo * f.hi ≤ e.lo * f.lo := mul_le_mul_of_nonpos_left hf.lo_le_hi helo
  have hlohi : e.lo * f.hi ≤ e.hi * f.hi := mul_le_mul_of_nonneg_right he.lo_le_hi hfhi
  have hhilo : e.lo * f.lo ≤ e.hi * f.lo := mul_le_mul_of_nonneg_right he.lo_le_hi hf.le_lo
  have hhihi : e.hi * f.hi ≤ e.hi * f.lo := mul_le_mul_of_nonpos_left hf.lo_le_hi he.hi_le
  simp only [product, mk.injEq]
  constructor <;> omega

theorem lo_mul_of_nonpos (he : e.Within a 0) (hf : f.Within 0 d) :
    (mul p e f).lo = e.lo * f.hi / 2 ^ p := by
  rw [mul, product_of_nonpos he hf, coarsen, Int.shiftRight_eq_div_pow]
  norm_cast

theorem Within.square_of_nonpos (he : e.Within a 0) (hb : a * a ≤ b * 2 ^ p) :
    (mul p e e).Within 0 b := by
  have helo : e.lo ≤ 0 := he.lo_le_hi.trans he.hi_le
  have hlohi : e.lo * e.hi ≤ e.lo * e.lo := mul_le_mul_of_nonpos_left he.lo_le_hi helo
  have hhilo : e.hi * e.hi ≤ e.lo * e.hi := mul_le_mul_of_nonpos_right he.lo_le_hi he.hi_le
  have hcomm : e.hi * e.lo = e.lo * e.hi := mul_comm _ _
  have hproduct : e.product e = ⟨e.hi * e.hi, e.lo * e.lo⟩ := by
    simp only [product, mk.injEq]
    constructor <;> omega
  rw [mul, hproduct]
  apply Within.coarsen
  constructor
  · rw [Int.zero_mul]
    exact mul_self_nonneg e.hi
  · exact hhilo.trans hlohi
  · calc
      e.lo * e.lo ≤ a * a :=
        mul_le_mul_of_nonpos_of_nonpos he.le_lo he.le_lo (he.le_lo.trans helo) helo
      _ ≤ b * 2 ^ p := hb

theorem Within.mul_of_nonneg (ha : 0 ≤ a) (hc : 0 ≤ c) (he : e.Within a b) (hf : f.Within c d)
    {m n : Int} (hm : m * 2 ^ p ≤ a * c) (hn : b * d ≤ n * 2 ^ p) : (mul p e f).Within m n := by
  have hehi : 0 ≤ e.hi := ha.trans (he.le_lo.trans he.lo_le_hi)
  have hfhi : 0 ≤ f.hi := hc.trans (hf.le_lo.trans hf.lo_le_hi)
  rw [mul, product_of_nonneg (he.mono ha le_rfl) (hf.mono hc le_rfl)]
  apply Within.coarsen
  constructor
  · calc
      m * 2 ^ p ≤ a * c := hm
      _ ≤ e.lo * f.lo := mul_le_mul he.le_lo hf.le_lo hc (ha.trans he.le_lo)
  · exact mul_le_mul he.lo_le_hi hf.lo_le_hi (hc.trans hf.le_lo) hehi
  · calc
      e.hi * f.hi ≤ b * d := mul_le_mul he.hi_le hf.hi_le hfhi (hehi.trans he.hi_le)
      _ ≤ n * 2 ^ p := hn

/-! ## Nested series -/

/-- Every ratio is a positive fraction of at most one. -/
def Ratios.AtMostOne (ratios : Ratios) : Prop :=
  ∀ k, (ratios k).1 ≤ (ratios k).2 ∧ 0 < (ratios k).2

theorem artanhRatios_atMostOne : Ratios.AtMostOne artanhRatios := by
  intro k
  simp only [artanhRatios]
  constructor <;> omega

section Nested

variable {z : Enclosure} {ratios : Ratios}

/-- One bracket of a nested series exceeds one by at most twice its product. -/
theorem bracket_within (hz : z.Within 0 b) (he : e.Within 0 (2 * 2 ^ p)) {num den : Nat}
    (hnum : num ≤ den) (hden : 0 < den) :
    (Enclosure.add (ofInt p 1) ((mul p z e).mulRatio num den)).Within (2 ^ p)
      (2 ^ p + 2 * b) := by
  have hmul : (mul p z e).Within 0 (2 * b) := by
    apply hz.mul_of_nonneg le_rfl le_rfl he
    · rw [Int.zero_mul, Int.zero_mul]
    · rw [← mul_assoc, mul_comm b 2]
  exact ((ofInt_within p 1).add (hmul.mulRatio hnum hden)).mono (by omega) (by omega)

theorem nestedFrom_within (hz : z.Within 0 b) (hb : 2 * b ≤ 2 ^ p)
    (hratios : ratios.AtMostOne) (terms k : Nat) :
    (nestedFrom p z ratios terms k).Within 0 (2 * 2 ^ p) := by
  have hpow : (0 : Int) < 2 ^ p := by positivity
  induction terms generalizing k with
  | zero =>
      have hhi : ((2 <<< p : Nat) : Int) = 2 * 2 ^ p := by
        rw [Nat.shiftLeft_eq]
        norm_cast
      rw [nestedFrom, hhi]
      exact ⟨le_rfl, mul_nonneg two_pos.le hpow.le, le_rfl⟩
  | succ terms ih =>
      exact (bracket_within hz (ih (k + 1)) (hratios k).1 (hratios k).2).mono hpow.le (by omega)

theorem nested_within (hz : z.Within 0 b) (hb : 2 * b ≤ 2 ^ p) (hratios : ratios.AtMostOne)
    (bits : Nat) : (nested p bits z ratios).Within (2 ^ p) (2 ^ p + 2 * b) :=
  bracket_within hz (nestedFrom_within hz hb hratios _ 2) (hratios 1).1 (hratios 1).2

end Nested

/-! ## Logarithms

The sizes of the terms are given in units `r` of which one holds 32. -/

section Sizes

variable {r : Int}

theorem le_lo_ln2 (hp : 2 ^ p = 32 * r) (hr : 1 ≤ r) :
    20 * r ≤ (ln2 p).lo ∧ (ln2 p).lo ≤ (ln2 p).hi := by
  have hz : (ofRatio p 1 9).Within 0 (4 * r) := by
    rw [ofRatio, Int.shiftLeft_eq]
    exact within_div (by decide) le_rfl (by omega) (by omega)
  have hsmall : 2 * (4 * r) ≤ 2 ^ p := by omega
  have hnested := nested_within hz hsmall artanhRatios_atMostOne 3
  have hln2 : (ln2 p).Within (20 * r) (20 * r + 20 * r) := by
    apply within_div (by decide)
    · exact mul_le_mul_of_nonneg_right hnested.lo_le_hi (by decide)
    · have hlo := hnested.le_lo
      omega
    · have hhi := hnested.hi_le
      omega
  exact ⟨hln2.le_lo, hln2.lo_le_hi⟩

variable {num den : Nat}

theorem two_mul_lo (e : Enclosure) : (times 2 e).lo = 2 * e.lo := rfl

theorem lo_lnNear_of_le (hp : 2 ^ p = 32 * r) (hr : 1 ≤ r) (hle : den ≤ num)
    (hnum : 2 * num ≤ 3 * den) (hden : 0 < den) :
    2 * (((num : Int) - den) * 2 ^ p / (num + den : Nat)) ≤ (lnNear p num den).lo ∧
      (lnNear p num den).lo ≤ 18 * r := by
  let t := ofRatio p ((num : Int) - den) (num + den)
  have hsum : (0 : Int) < (num + den : Nat) := by omega
  have ht : t.Within (((num : Int) - den) * 2 ^ p / (num + den : Nat)) (8 * r) := by
    simp only [t, ofRatio, Int.shiftLeft_eq]
    apply within_div hsum le_rfl (Int.ediv_mul_le _ hsum.ne')
    rw [hp]
    push_cast
    nlinarith
  have hlo : 0 ≤ ((num : Int) - den) * 2 ^ p / (num + den : Nat) := by
    apply Int.ediv_nonneg _ hsum.le
    exact mul_nonneg (by omega) (by positivity)
  have hsquare : (mul p t t).Within 0 (2 * r) := by
    apply ht.mul_of_nonneg hlo hlo ht
    · rw [Int.zero_mul]
      exact mul_nonneg hlo hlo
    · rw [hp]
      exact le_of_eq (by ring)
  have hsmall : 2 * (2 * r) ≤ 2 ^ p := by omega
  have hnested := nested_within hsquare hsmall artanhRatios_atMostOne 4
  let s := nested p 4 (mul p t t) artanhRatios
  have hproduct : (mul p t s).Within (((num : Int) - den) * 2 ^ p / (num + den : Nat)) (9 * r) := by
    apply ht.mul_of_nonneg hlo (by positivity) hnested le_rfl
    rw [hp]
    exact le_of_eq (by ring)
  have hge := hproduct.le_lo
  have hle := hproduct.lo_le_hi.trans hproduct.hi_le
  rw [lnNear, two_mul_lo]
  change 2 * _ ≤ 2 * (mul p t s).lo ∧ 2 * (mul p t s).lo ≤ 18 * r
  omega

theorem lo_lnNear_of_lt (hp : 2 ^ p = 32 * r) (hr : 1 ≤ r) (hlt : num < den)
    (hnum : 2 * den ≤ 3 * num) :
    -(18 * r) ≤ (lnNear p num den).lo ∧
      (lnNear p num den).lo ≤ 2 * (((num : Int) - den) * 2 ^ p / (num + den : Nat)) := by
  let t := ofRatio p ((num : Int) - den) (num + den)
  have hsum : (0 : Int) < (num + den : Nat) := by omega
  have ht : t.Within (-(8 * r)) 0 := by
    simp only [t, ofRatio, Int.shiftLeft_eq]
    apply within_div hsum le_rfl
    · rw [hp]
      push_cast
      nlinarith
    · rw [Int.zero_mul]
      exact mul_nonpos_of_nonpos_of_nonneg (by omega) (by positivity)
  have htlo : t.lo = ((num : Int) - den) * 2 ^ p / (num + den : Nat) := by
    simp only [t, ofRatio, Int.shiftLeft_eq]
  have helo : t.lo ≤ 0 := ht.lo_le_hi.trans ht.hi_le
  have hsquare : (mul p t t).Within 0 (2 * r) := by
    apply ht.square_of_nonpos
    rw [hp]
    exact le_of_eq (by ring)
  have hsmall : 2 * (2 * r) ≤ 2 ^ p := by omega
  have hnested := nested_within hsquare hsmall artanhRatios_atMostOne 4
  let s := nested p 4 (mul p t t) artanhRatios
  have hpow : (0 : Int) < 2 ^ p := by positivity
  have hlo : (mul p t s).lo = t.lo * s.hi / 2 ^ p :=
    lo_mul_of_nonpos ht (hnested.mono hpow.le le_rfl)
  have hs : 2 ^ p ≤ s.hi := hnested.le_lo.trans hnested.lo_le_hi
  have hs' : s.hi ≤ 2 ^ p + 2 * (2 * r) := hnested.hi_le
  have hge : -(9 * r) ≤ t.lo * s.hi / 2 ^ p := by
    rw [Int.le_ediv_iff_mul_le hpow]
    have ht' := ht.le_lo
    rw [hp] at hs hs' ⊢
    nlinarith
  have hle : t.lo * s.hi / 2 ^ p ≤ t.lo := by
    apply Int.ediv_le_of_le_mul hpow
    exact mul_le_mul_of_nonpos_left hs helo
  rw [lnNear, two_mul_lo, ← htlo]
  change -(18 * r) ≤ 2 * (mul p t s).lo ∧ 2 * (mul p t s).lo ≤ 2 * t.lo
  omega

/-- A magnitude is split into a power of two and a factor near one. -/
theorem exists_ln_eq (p : Nat) {q : Nat} (hq : 0 < q) :
    ∃ power : Nat,
      ln p q = add (times ((power : Int) - 1074) (ln2 p)) (lnNear p q (2 ^ power)) ∧
        2 * q ≤ 3 * 2 ^ power ∧ 2 * 2 ^ power ≤ 3 * q := by
  have hle : 2 ^ q.log2 ≤ q := Nat.log2_self_le hq.ne'
  have hlt : q < 2 ^ (q.log2 + 1) := Nat.lt_log2_self
  have hsucc : 2 ^ (q.log2 + 1) = 2 ^ q.log2 * 2 := Nat.pow_succ 2 q.log2
  by_cases h : 3 <<< q.log2 ≤ 2 * q
  · refine ⟨q.log2 + 1, ?_, ?_⟩
    · simp only [ln, if_pos h, Nat.one_shiftLeft]
    · rw [Nat.shiftLeft_eq] at h
      omega
  · refine ⟨q.log2, ?_, ?_⟩
    · simp only [ln, if_neg h, Nat.one_shiftLeft]
    · rw [Nat.shiftLeft_eq] at h
      omega

theorem lo_lnNear_within (hp : 2 ^ p = 32 * r) (hr : 1 ≤ r) {num den : Nat}
    (hhigh : 2 * num ≤ 3 * den) (hlow : 2 * den ≤ 3 * num) (hden : 0 < den) :
    -(18 * r) ≤ (lnNear p num den).lo ∧ (lnNear p num den).lo ≤ 18 * r := by
  have hpow : (0 : Int) < 2 ^ p := by positivity
  by_cases hle : den ≤ num
  · have h := lo_lnNear_of_le hp hr hle hhigh hden
    have hnonneg : 0 ≤ ((num : Int) - den) * 2 ^ p / (num + den : Nat) :=
      Int.ediv_nonneg (mul_nonneg (by omega) hpow.le) (Int.natCast_nonneg _)
    omega
  · have h := lo_lnNear_of_lt hp hr (Nat.lt_of_not_le hle) hlow
    have hnonpos : ((num : Int) - den) * 2 ^ p / (num + den : Nat) ≤ 0 := by
      apply Int.ediv_le_of_le_mul (by omega)
      rw [Int.zero_mul]
      exact mul_nonpos_of_nonpos_of_nonneg (by omega) hpow.le
    omega

theorem le_natAbs_lo_of_ne (hp : 2 ^ p = 32 * r) (hr : 1 ≤ r) {k : Int} (hk : k ≠ 0)
    {near : Enclosure} (hnear : -(18 * r) ≤ near.lo ∧ near.lo ≤ 18 * r) :
    2 * r ≤ (add (times k (ln2 p)) near).lo.natAbs := by
  obtain ⟨hlo, hhi⟩ := le_lo_ln2 hp hr
  by_cases hpos : 0 ≤ k
  · have hmul : (ln2 p).lo ≤ k * (ln2 p).lo := le_mul_of_one_le_left (by omega) (by omega)
    have hsum : (add (times k (ln2 p)) near).lo = k * (ln2 p).lo + near.lo := by
      rw [times, if_pos hpos]
      rfl
    omega
  · have hmul : k * (ln2 p).hi ≤ -1 * (ln2 p).hi :=
      mul_le_mul_of_nonneg_right (by omega) (by omega)
    have hsum : (add (times k (ln2 p)) near).lo = k * (ln2 p).hi + near.lo := by
      rw [times, if_neg hpos]
      rfl
    omega

theorem le_natAbs_lo_lnNear {w : Int} (hp : 2 ^ p = 2 ^ 55 * w) (hw : 1 ≤ w)
    {num den gap : Nat} (hden : den = 2 ^ 53 * gap) (hpos : 0 < den)
    (hhigh : 2 * num ≤ 3 * den) (hlow : 2 * den ≤ 3 * num)
    (hgap : num + gap ≤ den ∨ den + gap ≤ num) :
    2 * w ≤ (lnNear p num den).lo.natAbs := by
  have hunit : (2 : Int) ^ p = 32 * (2 ^ 50 * w) := by
    rw [hp]
    ring
  have hlarge : 1 ≤ 2 ^ 50 * w := by omega
  have hpow : (0 : Int) ≤ 2 ^ p := by positivity
  have hsum : (0 : Int) < (num + den : Nat) := by omega
  have hspan : w * (num + den : Nat) ≤ gap * 2 ^ p :=
    calc
      w * (num + den : Nat) ≤ w * (2 ^ 55 * gap) :=
        mul_le_mul_of_nonneg_left (by omega) (by omega)
      _ = gap * 2 ^ p := by rw [hp]; ring
  rcases hgap with hgap | hgap
  · have h := lo_lnNear_of_lt hunit hlarge (by omega) hlow
    have hle : ((num : Int) - den) * 2 ^ p / (num + den : Nat) ≤ -w := by
      apply Int.ediv_le_of_le_mul hsum
      have hdiff : ((num : Int) - den) * 2 ^ p ≤ -gap * 2 ^ p :=
        mul_le_mul_of_nonneg_right (by omega) hpow
      rw [Int.neg_mul] at hdiff ⊢
      omega
    omega
  · have h := lo_lnNear_of_le hunit hlarge (by omega) hhigh hpos
    have hge : w ≤ ((num : Int) - den) * 2 ^ p / (num + den : Nat) := by
      rw [Int.le_ediv_iff_mul_le hsum]
      have hdiff : (gap : Int) * 2 ^ p ≤ ((num : Int) - den) * 2 ^ p :=
        mul_le_mul_of_nonneg_right (by omega) hpow
      omega
    omega

theorem le_natAbs_lo_ln {w : Int} (hp : 2 ^ p = 2 ^ 55 * w) (hw : 1 ≤ w) {q gap : Nat}
    (hq : 0 < q) (hone : quantaPerOne = 2 ^ 53 * gap)
    (hgap : quantaPerOne < 2 * q → q + gap ≤ quantaPerOne ∨ quantaPerOne + gap ≤ q) :
    2 * w ≤ (ln p q).lo.natAbs := by
  obtain ⟨power, hln, hhigh, hlow⟩ := exists_ln_eq p hq
  have hden := Nat.two_pow_pos power
  rw [hln]
  by_cases hpower : (power : Int) - 1074 = 0
  · have hplaces : power = 1074 := by omega
    have hshift : quantaPerOne = 1 <<< power := by
      rw [hplaces, quantaPerOne]
    have hpow : 2 ^ power = quantaPerOne := by
      rw [hshift, Nat.one_shiftLeft]
    have htimes : (add (times ((power : Int) - 1074) (ln2 p)) (lnNear p q (2 ^ power))).lo =
        (lnNear p q (2 ^ power)).lo := by
      rw [hpower]
      exact (congrArg (· + _) (Int.zero_mul _)).trans (Int.zero_add _)
    rw [htimes]
    rw [hpow] at hhigh hlow hden ⊢
    exact le_natAbs_lo_lnNear hp hw hone hden hhigh hlow (hgap (by omega))
  · have hunit : (2 : Int) ^ p = 32 * (2 ^ 50 * w) := by
      rw [hp]
      ring
    have hnear := lo_lnNear_within hunit (by omega) hhigh hlow hden
    have h := le_natAbs_lo_of_ne hunit (by omega) hpower hnear
    omega

end Sizes

end Enclosure

namespace Bounds

/-- The limit of bounds is a rounded lower end at some precision. -/
theorem exists_settle_eq (bounds : Nat → Bounds) (fuel : Nat) {p : Nat} (hp : 128 ≤ p) :
    ∃ p' ≥ 128, settle bounds fuel p = nearest (bounds p').lo (bounds p').scale := by
  induction fuel generalizing p with
  | zero => exact ⟨p, hp, rfl⟩
  | succ fuel ih =>
      rw [settle]
      cases hround : (bounds p).round? with
      | some x =>
          refine ⟨p, hp, ?_⟩
          rw [round?] at hround
          split at hround
          · exact (Option.some.inj hround).symm
          · cases hround
      | none => exact ih (by omega)

theorem isZero_nearest {n : Int} {p : Nat} (h : 2 ^ p ≤ n.natAbs * quantaPerOne) :
    (nearest n p).isZero = false := by
  rw [nearest, if_pos (Int.natCast_nonneg p), Int.natAbs_natCast, Nat.one_shiftLeft]
  exact Binary64.isZero_ofRatio h (Nat.two_pow_pos p)

end Bounds

namespace Binary64

variable {x : Binary64}

/-- The number of quanta in half a unit in the last place of one. -/
def halfLastPlace : Nat := 1 <<< 1021

theorem quantaPerOne_eq : quantaPerOne = 2 ^ 53 * halfLastPlace := by
  decide +kernel

theorem one_shiftLeft_dvd {m n : Nat} (h : m ≤ n) : 1 <<< m ∣ 1 <<< n := by
  rw [Nat.one_shiftLeft, Nat.one_shiftLeft]
  exact Nat.pow_dvd_pow 2 h

theorem dvd_quanta (h : quantaPerOne < 2 * x.quanta) : halfLastPlace ∣ x.quanta := by
  have hlarge : 2 * hiddenBit ≤ quantaPerOne := by decide +kernel
  by_cases hcode : x.code < hiddenBit
  · rw [quanta_of_subnormal hcode] at h
    omega
  · obtain ⟨significand, shift, -, hhigh, -, hquanta⟩ :=
      exists_quanta_eq (Nat.le_of_not_lt hcode)
    rw [hiddenBit_eq] at hhigh
    have hlt : 2 ^ 53 * halfLastPlace < 2 ^ 53 * (1 <<< (shift + 1)) :=
      calc
        2 ^ 53 * halfLastPlace = quantaPerOne := quantaPerOne_eq.symm
        _ < 2 * (significand * 2 ^ shift) := hquanta ▸ h
        _ = significand * 2 ^ (shift + 1) := by ring
        _ ≤ 2 ^ 53 * (1 <<< (shift + 1)) := by
          rw [Nat.one_shiftLeft]
          exact Nat.mul_le_mul_right _ hhigh.le
    have hshift : 1021 ≤ shift := by
      have h := Nat.lt_of_mul_lt_mul_left hlt
      rw [halfLastPlace, Nat.one_shiftLeft, Nat.one_shiftLeft] at h
      exact Nat.le_of_lt_succ ((Nat.pow_lt_pow_iff_right Nat.one_lt_two).mp h)
    rw [hquanta, ← Nat.one_shiftLeft]
    exact Dvd.dvd.mul_left (one_shiftLeft_dvd hshift) significand

/-- A positive number other than one keeps a distance of half a unit in the last place from
one. -/
theorem quanta_gap (hsign : x.negative = false) (hone : x ≠ one)
    (h : quantaPerOne < 2 * x.quanta) :
    x.quanta + halfLastPlace ≤ quantaPerOne ∨ quantaPerOne + halfLastPlace ≤ x.quanta := by
  have hne : x.quanta ≠ quantaPerOne := by
    intro heq
    apply hone
    apply eq_of_quanta_eq hsign
    rw [heq]
    decide +kernel
  obtain ⟨m, hm⟩ := dvd_quanta h
  rw [quantaPerOne_eq, Nat.mul_comm] at hne ⊢
  rw [hm] at hne ⊢
  rcases Nat.lt_or_ge m (2 ^ 53) with hlt | hge
  · exact Or.inl (Nat.mul_le_mul_left halfLastPlace hlt)
  · have hgt : 2 ^ 53 < m := Nat.lt_of_le_of_ne hge fun heq => hne (congrArg _ heq.symm)
    exact Or.inr (Nat.mul_le_mul_left halfLastPlace hgt)

theorem le_natAbs_lo_ln (hzero : x.isZero = false) (hsign : x.negative = false)
    (hone : x ≠ one) {p : Nat} (hp : 128 ≤ p) :
    2 ^ p ≤ (Bounds.ln x.quanta p).lo.natAbs * quantaPerOne := by
  have hunit : (2 : Int) ^ p = 2 ^ 55 * 2 ^ (p - 55) := by
    rw [← pow_add]
    congr 1
    omega
  have hlo := Enclosure.le_natAbs_lo_ln hunit (one_le_pow₀ one_le_two) (quanta_pos hzero)
    quantaPerOne_eq (quanta_gap hsign hone)
  have hpow : 2 ^ p = 2 ^ 55 * 2 ^ (p - 55) := by exact_mod_cast hunit
  have hnat : 2 * 2 ^ (p - 55) ≤ (Enclosure.ln p x.quanta).lo.natAbs := by exact_mod_cast hlo
  have hlarge : 2 ^ 54 ≤ quantaPerOne := by decide +kernel
  calc
    2 ^ p = 2 * 2 ^ (p - 55) * 2 ^ 54 := by rw [hpow]; ring
    _ ≤ (Bounds.ln x.quanta p).lo.natAbs * quantaPerOne := Nat.mul_le_mul hnat hlarge

/-- The natural logarithm of a number other than one is not zero. -/
theorem isZero_ln (h : x ≠ one) : x.ln.isZero = false := by
  rw [ln, logarithm]
  by_cases hnan : x.isNaN = true
  · rw [if_pos hnan]
    rw [isNaN, decide_eq_true_eq] at hnan
    rw [isZero, beq_eq_false_iff_ne]
    omega
  by_cases hzero : x.isZero = true
  · rw [if_neg hnan, if_pos hzero]
    rfl
  by_cases hsign : x.negative = true
  · rw [if_neg hnan, if_neg hzero, if_pos hsign]
    rfl
  by_cases hinfinite : x.isInfinite = true
  · rw [if_neg hnan, if_neg hzero, if_neg hsign, if_pos hinfinite]
    simpa using hzero
  rw [if_neg hnan, if_neg hzero, if_neg hsign, if_neg hinfinite, if_neg h]
  obtain ⟨p, hp, hlimit⟩ := Bounds.exists_settle_eq (Bounds.ln x.quanta) 6 (le_refl 128)
  rw [Bounds.limit, hlimit]
  apply Bounds.isZero_nearest
  exact le_natAbs_lo_ln (by simpa using hzero) (by simpa using hsign) h hp

end Binary64

end StackCalc
