import Mathlib
import StackCalc.Decimal.Shortest
import StackCalc.Proofs.Binary64.Rounding

/-!
# Shortest decimals read back

The decimal chosen for a finite number rounds to the magnitude of that number, whichever of the
ways it was found.  A decimal of a grid was tried, removing trailing zeros does not change its
value, and the exact expansion is exact.
-/

namespace StackCalc

namespace Decimal

variable {d : Decimal} {digits places : Nat} {exponent : Int}

/-! ## Equal decimals -/

theorem toBinary64_eq (digits : Nat) (exponent : Int) :
    toBinary64 ⟨digits, exponent⟩ =
      .ofRatio false (digits * 10 ^ exponent.toNat * Binary64.quantaPerOne)
        (10 ^ (-exponent).toNat) := by
  simp only [toBinary64, Binary64.ofDecimal]
  by_cases h : exponent < 0
  · have hpos : exponent.toNat = 0 := by omega
    have hneg : exponent.natAbs = (-exponent).toNat := by omega
    rw [if_pos h, hpos, hneg, Nat.pow_zero, Nat.mul_one]
    rfl
  · have hpos : exponent.natAbs = exponent.toNat := by omega
    have hneg : (-exponent).toNat = 0 := by omega
    rw [if_neg h, hpos, hneg, Nat.pow_zero]
    rfl

theorem toBinary64_mul_ten (digits : Nat) (exponent : Int) :
    toBinary64 ⟨digits * 10, exponent⟩ = toBinary64 ⟨digits, exponent + 1⟩ := by
  rw [toBinary64_eq, toBinary64_eq]
  by_cases h : exponent < 0
  · obtain ⟨n, hn⟩ : ∃ n : Nat, exponent = -(n + 1 : Int) := ⟨(-exponent - 1).toNat, by omega⟩
    subst hn
    have hnum : (-(n + 1 : Int)).toNat = 0 := by omega
    have hnum' : (-(n + 1 : Int) + 1).toNat = 0 := by omega
    have hden : (-(-(n + 1 : Int))).toNat = n + 1 := by omega
    have hden' : (-(-(n + 1 : Int) + 1)).toNat = n := by omega
    rw [hnum, hnum', hden, hden', Nat.pow_zero, Nat.mul_one, Nat.mul_one, Nat.pow_succ,
      Nat.mul_right_comm, Binary64.ofRatio_mul _ _ _ (by decide)]
  · have hnum : (exponent + 1).toNat = exponent.toNat + 1 := by omega
    have hden : (-exponent).toNat = (-(exponent + 1)).toNat := by omega
    rw [hnum, hden, Nat.pow_succ, Nat.mul_assoc digits 10, Nat.mul_comm 10]

theorem toBinary64_trimZeros (fuel digits : Nat) (exponent : Int) :
    (trimZeros fuel digits exponent).toBinary64 = toBinary64 ⟨digits, exponent⟩ := by
  induction fuel generalizing digits exponent with
  | zero => rfl
  | succ fuel ih =>
      rw [trimZeros]
      split
      · rename_i hzero
        rw [ih, ← toBinary64_mul_ten, Nat.div_mul_cancel (Nat.dvd_of_mod_eq_zero hzero)]
      · rfl

end Decimal

namespace Binary64

variable {x : Binary64}

/-! ## Grids -/

theorem readsBack_of_gridDecimal? {exponent : Int} {d : Decimal}
    (h : x.gridDecimal? exponent = some d) : x.readsBack d = true := by
  rw [gridDecimal?] at h
  simp only at h
  split at h
  · rename_i hbelow
    split at h
    · rename_i habove
      cases h
      rcases nearestEven_eq_or (x.inUnitsOfTen exponent).1 (x.inUnitsOfTen exponent).2 with
        heven | heven
      · rw [heven]
        exact hbelow
      · rw [heven]
        exact habove
    · cases h
      exact hbelow
  · split at h
    · rename_i habove
      cases h
      exact habove
    · cases h

theorem readsBack_of_searchGrids {top : Int} {fuel count : Nat} {d : Decimal}
    (h : x.searchGrids top fuel count = some d) : x.readsBack d = true := by
  induction fuel generalizing count with
  | zero => cases h
  | succ fuel ih =>
      rw [searchGrids] at h
      split at h
      · rename_i hgrid
        cases h
        exact readsBack_of_gridDecimal? hgrid
      · exact ih h

/-- A number of units of `2 ^ (-places)` as a decimal with as many places. -/
theorem ofDecimal_five (places : Nat) (hplaces : 0 < places)
    (hone : quantaPerOne = 1 <<< places) (q : Nat) :
    ofDecimal (q * Nat.pow 5 places) (-(places : Int)) = ofRatio false q 1 := by
  have hten : Nat.pow 5 places * 1 <<< places = Nat.pow 10 places := by
    rw [Nat.one_shiftLeft]
    exact (Nat.mul_pow 5 2 places).symm
  have habs : (-(places : Int)).natAbs = places := by omega
  rw [ofDecimal, if_pos (by omega), habs, hone, Nat.mul_assoc, hten]
  have hscale := ofRatio_mul false q 1 (show 0 < Nat.pow 10 places from Nat.pow_pos (by decide))
  rw [Nat.one_mul] at hscale
  exact hscale

theorem toBinary64_exactDecimal (x : Binary64) :
    x.exactDecimal.toBinary64 = .ofRatio false x.quanta 1 := by
  rw [exactDecimal, Decimal.toBinary64]
  apply ofDecimal_five
  · decide
  · rfl

theorem ofRatio_quanta (h : x.isFinite = true) (negative : Bool) :
    ofRatio negative x.quanta 1 = ⟨negative, x.code, x.code_lt⟩ := by
  have hcode : x.code < infinityCode := by simpa [isFinite] using h
  rw [ofRatio, codeOfRatio_quanta]
  simp only [ofCode, mk.injEq, true_and]
  exact Nat.min_eq_right hcode.le

theorem readsBack_exactDecimal (h : x.isFinite = true) : x.readsBack x.exactDecimal = true := by
  rw [readsBack, toBinary64_exactDecimal, ofRatio_quanta h]
  exact beq_self_eq_true _

theorem readsBack_shortestDecimal (h : x.isFinite = true) :
    x.readsBack x.shortestDecimal = true := by
  rw [shortestDecimal]
  split
  · rename_i hzero
    rw [readsBack, eq_of_beq hzero]
    rfl
  · split
    · rename_i d hsearch
      rw [readsBack, Decimal.toBinary64_trimZeros]
      exact readsBack_of_searchGrids hsearch
    · exact readsBack_exactDecimal h

theorem negative_ofDecimal (digits : Nat) (exponent : Int) :
    (ofDecimal digits exponent).negative = false := by
  rw [ofDecimal]
  split <;> rfl

/-- The shortest decimal of a finite number is its magnitude. -/
theorem toBinary64_shortestDecimal (h : x.isFinite = true) :
    x.shortestDecimal.toBinary64 = x.abs := by
  have hcode : x.shortestDecimal.toBinary64.code = x.code :=
    eq_of_beq (readsBack_shortestDecimal h)
  have hsign : x.shortestDecimal.toBinary64.negative = false := negative_ofDecimal _ _
  exact eq_of_code_eq hsign hcode

end Binary64

end StackCalc
