import Mathlib
import StackCalc.Binary64.Rounding

/-!
# The grid of codes

Every code stands for a number of quanta, and greater codes stand for greater numbers.  From the
code of infinity on these are the numbers that would come next if exponents had no bound; they
tell how far a number is out of range.

A number of quanta is on the grid if it has at most 53 bits, trailing zeros aside.  So every divisor
of a number on the grid is on the grid too.
-/

namespace StackCalc

namespace Binary64

/-- The number of quanta that a code stands for. -/
def gridQuanta (code : Nat) : Nat :=
  let field := code / hiddenBit
  if field = 0 then code else (hiddenBit + code % hiddenBit) <<< (field - 1)

theorem quanta_eq (x : Binary64) : x.quanta = gridQuanta x.code := rfl

theorem hiddenBit_eq : hiddenBit = 2 ^ 52 := by
  decide

variable {code significand n : Nat}

theorem gridQuanta_of_lt (h : code < hiddenBit) : gridQuanta code = code := by
  rw [gridQuanta, Nat.div_eq_of_lt h]
  rfl

/-- The number of a code in terms of its significand and shift.  A significand of 54 bits is the
first one with the next shift. -/
theorem gridQuanta_shifted (hlow : hiddenBit ≤ significand) (hhigh : significand ≤ 2 * hiddenBit)
    (shift : Nat) : gridQuanta (shift * hiddenBit + significand) = significand * 2 ^ shift := by
  have hpos : 0 < hiddenBit := by decide
  obtain ⟨rest, rfl⟩ := Nat.exists_eq_add_of_le hlow
  have hcode : shift * hiddenBit + (hiddenBit + rest) = rest + (shift + 1) * hiddenBit := by
    ring
  rw [gridQuanta, hcode, Nat.add_mul_div_right _ _ hpos, Nat.add_mul_mod_self_right]
  rcases Nat.lt_or_eq_of_le (show rest ≤ hiddenBit by omega) with hlt | rfl
  · rw [Nat.div_eq_of_lt hlt, Nat.mod_eq_of_lt hlt, Nat.zero_add]
    simp only [Nat.add_one_ne_zero, if_false, Nat.add_sub_cancel, Nat.shiftLeft_eq]
  · rw [Nat.div_self hpos, Nat.mod_self]
    have hfield : 1 + (shift + 1) - 1 = shift + 1 := by omega
    simp only [hfield, Nat.shiftLeft_eq]
    rw [if_neg (by omega)]
    ring

theorem gridQuanta_of_le (h : code ≤ 2 * hiddenBit) : gridQuanta code = code := by
  rcases Nat.lt_or_ge code hiddenBit with hlt | hge
  · exact gridQuanta_of_lt hlt
  · have hshifted := gridQuanta_shifted hge h 0
    rwa [Nat.zero_mul, Nat.zero_add, Nat.pow_zero, Nat.mul_one] at hshifted

theorem exists_shifted_eq (h : hiddenBit ≤ code) :
    ∃ significand shift, hiddenBit ≤ significand ∧ significand < 2 * hiddenBit ∧
      code = shift * hiddenBit + significand := by
  have hmod : code % hiddenBit < hiddenBit := Nat.mod_lt _ (by decide)
  have hdiv : code / hiddenBit * hiddenBit + code % hiddenBit = code :=
    Nat.div_add_mod' code hiddenBit
  obtain ⟨shift, hshift⟩ :=
    Nat.exists_eq_add_of_le' ((Nat.one_le_div_iff (by decide)).mpr h)
  rw [hshift, Nat.add_mul] at hdiv
  exact ⟨hiddenBit + code % hiddenBit, shift, by omega, by omega, by omega⟩

theorem gridQuanta_lt_succ (code : Nat) : gridQuanta code < gridQuanta (code + 1) := by
  rcases Nat.lt_or_ge code hiddenBit with hlt | hge
  · rw [gridQuanta_of_le (by omega), gridQuanta_of_le (by omega)]
    exact Nat.lt_succ_self code
  · obtain ⟨significand, shift, hlow, hhigh, rfl⟩ := exists_shifted_eq hge
    rw [Nat.add_assoc, gridQuanta_shifted hlow hhigh.le, gridQuanta_shifted (by omega) hhigh]
    exact Nat.mul_lt_mul_of_pos_right (Nat.lt_succ_self significand) (Nat.two_pow_pos shift)

theorem gridQuanta_strictMono : StrictMono gridQuanta :=
  strictMono_nat_of_lt_succ gridQuanta_lt_succ

/-! ## Numbers on the grid -/

/-- A number of quanta is the number of a code. -/
def OnGrid (n : Nat) : Prop := ∃ code, gridQuanta code = n

theorem onGrid_of_le (h : n ≤ 2 * hiddenBit) : OnGrid n := ⟨n, gridQuanta_of_le h⟩

theorem OnGrid.double (h : OnGrid n) : OnGrid (2 * n) := by
  obtain ⟨code, rfl⟩ := h
  rcases Nat.lt_or_ge code hiddenBit with hlt | hge
  · rw [gridQuanta_of_lt hlt]
    exact onGrid_of_le (by omega)
  · obtain ⟨significand, shift, hlow, hhigh, rfl⟩ := exists_shifted_eq hge
    refine ⟨(shift + 1) * hiddenBit + significand, ?_⟩
    rw [gridQuanta_shifted hlow hhigh.le, gridQuanta_shifted hlow hhigh.le]
    ring

theorem OnGrid.mul_two_pow (h : OnGrid n) (shift : Nat) : OnGrid (n * 2 ^ shift) := by
  induction shift with
  | zero => rwa [Nat.pow_zero, Nat.mul_one]
  | succ shift ih =>
      have hdouble : n * 2 ^ (shift + 1) = 2 * (n * 2 ^ shift) := by
        ring
      rw [hdouble]
      exact ih.double

/-- A number on the grid has at most 53 bits, trailing zeros aside. -/
theorem OnGrid.exists_eq (h : OnGrid n) :
    ∃ significand shift, significand < 2 * hiddenBit ∧ n = significand * 2 ^ shift := by
  obtain ⟨code, rfl⟩ := h
  rcases Nat.lt_or_ge code hiddenBit with hlt | hge
  · exact ⟨code, 0, by omega, by rw [gridQuanta_of_lt hlt, Nat.pow_zero, Nat.mul_one]⟩
  · obtain ⟨significand, shift, hlow, hhigh, rfl⟩ := exists_shifted_eq hge
    exact ⟨significand, shift, hhigh, gridQuanta_shifted hlow hhigh.le shift⟩

theorem OnGrid.of_dvd {d : Nat} (h : OnGrid n) (hpos : 0 < n) (hd : d ∣ n) : OnGrid d := by
  obtain ⟨significand, shift, hhigh, rfl⟩ := h.exists_eq
  obtain ⟨odd, even, hodd, heven, rfl⟩ := (Nat.dvd_mul).mp hd
  obtain ⟨k, -, rfl⟩ := (Nat.dvd_prime_pow Nat.prime_two).mp heven
  have hle : odd ≤ significand := Nat.le_of_dvd (Nat.pos_of_mul_pos_right hpos) hodd
  exact (onGrid_of_le (by omega)).mul_two_pow k

/-! ## The range of finite numbers -/

/-- The number of binary places of a quantum. -/
def places : Nat := 1074

/-- The finite numbers are the numbers of the grid below two to this power. -/
def exponentBound : Nat := 1024

theorem quantaPerOne_pos : 0 < quantaPerOne := by decide

theorem quantaPerOne_eq_pow : quantaPerOne = 2 ^ places := Nat.one_shiftLeft places

theorem gridQuanta_infinityCode : gridQuanta infinityCode = 2 ^ exponentBound * quantaPerOne := by
  have hcode : infinityCode = (exponentBound + 1022) * hiddenBit + hiddenBit := by decide
  have hexponent : 52 + (exponentBound + 1022) = exponentBound + places := rfl
  rw [hcode, gridQuanta_shifted le_rfl (by decide), hiddenBit_eq, ← Nat.pow_add, hexponent,
    Nat.pow_add, quantaPerOne_eq_pow]

theorem lt_infinityCode_iff :
    code < infinityCode ↔ gridQuanta code < 2 ^ exponentBound * quantaPerOne := by
  rw [← gridQuanta_infinityCode, gridQuanta_strictMono.lt_iff_lt]

end Binary64

end StackCalc
