import Mathlib
import StackCalc.Proofs.Binary64.Value
import StackCalc.Operation

/-!
# Sums as trees

In whatever order numbers are added, their sum is a binary tree of additions.  The mass of a tree is
the sum of the magnitudes at its leaves.  Every addition rounds, so a sum can exceed its mass by one
part in `2 ^ 53` for every level of the tree.  A tree whose mass leaves room for this growth has a
finite sum, and it takes twice the range of the finite numbers to make two opposite infinities meet.

The order of an array sum keeps its tree low: the height grows with the logarithm of the length.
-/

namespace StackCalc

namespace Reduction

open Binary64

/-! ## Trees -/

/-- The number is the root of a tree of additions of finite numbers, which is no higher than
`height`.  The magnitudes at the leaves add up to `mass` quanta. -/
inductive IsSum : (height mass : Nat) → Binary64 → Prop
  | leaf (height : Nat) {x : Binary64} (h : x.isFinite = true) : IsSum height x.quanta x
  | add {height left right : Nat} {x y : Binary64} (hx : IsSum height left x)
      (hy : IsSum height right y) : IsSum (height + 1) (left + right) (x.add y)

/-- The roots of some trees no higher than `height`, with the mass of all of them. -/
inductive AreSums (height : Nat) : (mass : Nat) → List Binary64 → Prop
  | nil : AreSums height 0 []
  | cons {left right : Nat} {x : Binary64} {xs : List Binary64} (hx : IsSum height left x)
      (hxs : AreSums height right xs) : AreSums height (left + right) (x :: xs)

/-- The sum of the magnitudes of some numbers, in quanta. -/
def mass (xs : List Binary64) : Nat := (xs.map quanta).sum

/-- All numbers are finite. -/
def AllFinite (xs : List Binary64) : Prop := ∀ x ∈ xs, x.isFinite = true

variable {height m : Nat} {x start : Binary64} {xs lanes : List Binary64}

theorem mass_cons (x : Binary64) (xs : List Binary64) : mass (x :: xs) = x.quanta + mass xs := rfl

theorem mass_append (xs ys : List Binary64) : mass (xs ++ ys) = mass xs + mass ys := by
  rw [mass, List.map_append, List.sum_append]
  rfl

theorem AllFinite.take (h : AllFinite xs) (n : Nat) : AllFinite (xs.take n) :=
  fun x hx => h x (List.mem_of_mem_take hx)

theorem AllFinite.drop (h : AllFinite xs) (n : Nat) : AllFinite (xs.drop n) :=
  fun x hx => h x (List.mem_of_mem_drop hx)

theorem mass_take_add_mass_drop (xs : List Binary64) (n : Nat) :
    mass (xs.take n) + mass (xs.drop n) = mass xs := by
  rw [← mass_append, List.take_append_drop]

theorem IsSum.mono (h : IsSum height m x) {higher : Nat} (hle : height ≤ higher) :
    IsSum higher m x := by
  induction h generalizing higher with
  | leaf _ hx => exact .leaf higher hx
  | add _ _ ihx ihy =>
      obtain ⟨higher, rfl⟩ := Nat.exists_eq_add_of_le' (Nat.one_le_of_lt hle)
      have hle' := Nat.le_of_succ_le_succ hle
      exact .add (ihx hle') (ihy hle')

theorem isSum_zero (height : Nat) : IsSum height 0 zero :=
  .leaf (x := zero) height rfl

theorem isSum_negative_zero (height : Nat) : IsSum height 0 zero.neg :=
  .leaf (x := zero.neg) height rfl

theorem AreSums.mono (h : AreSums height m xs) {higher : Nat} (hle : height ≤ higher) :
    AreSums higher m xs := by
  induction h with
  | nil => exact .nil
  | cons hx _ ih => exact .cons (hx.mono hle) ih

theorem areSums_of_allFinite (h : AllFinite xs) : AreSums 0 (mass xs) xs := by
  induction xs with
  | nil => exact .nil
  | cons x xs ih =>
      exact .cons (.leaf 0 (h x List.mem_cons_self))
        (ih fun y hy => h y (List.mem_cons_of_mem _ hy))

/-! ## The order of an array sum -/

theorem IsSum.sumFrom (h : IsSum height m start) (hxs : AllFinite xs) :
    IsSum (height + xs.length) (m + mass xs) (sumFrom start xs) := by
  induction xs generalizing height m start with
  | nil => exact h
  | cons x xs ih =>
      have hnext : IsSum (height + 1) (m + x.quanta) (start.add x) :=
        .add h (.leaf height (hxs x List.mem_cons_self))
      have hrest := ih hnext fun y hy => hxs y (List.mem_cons_of_mem _ hy)
      rw [mass_cons, List.length_cons, Nat.add_comm xs.length 1, ← Nat.add_assoc, ← Nat.add_assoc]
      exact hrest

theorem AreSums.sumPairs (h : AreSums height m lanes) :
    AreSums (height + 1) m (sumPairs lanes) := by
  fun_induction Reduction.sumPairs lanes generalizing m with
  | case1 a b rest ih =>
      obtain _ | ⟨ha, hrest⟩ := h
      obtain _ | ⟨hb, hrest⟩ := hrest
      rw [← Nat.add_assoc]
      exact .cons (.add ha hb) (ih hrest)
  | case2 rest => exact h.mono (Nat.le_succ height)

theorem length_sumPairs (lanes : List Binary64) :
    (sumPairs lanes).length = (lanes.length + 1) / 2 := by
  fun_induction Reduction.sumPairs lanes with
  | case1 a b rest ih =>
      simp only [List.length_cons, ih]
      omega
  | case2 rest hrest =>
      match rest, hrest with
      | [], _ => rfl
      | [x], _ => exact (Nat.div_self two_pos).symm
      | a :: b :: rest, hrest => exact absurd rfl (hrest a b rest)

theorem AreSums.zipWith_add (h : AreSums height m lanes) (hlength : xs.length = lanes.length)
    (hxs : AllFinite xs) : AreSums (height + 1) (m + mass xs) (lanes.zipWith add xs) := by
  induction h generalizing xs with
  | nil =>
      rw [List.eq_nil_of_length_eq_zero hlength]
      exact .nil
  | @cons left right lane lanes hlane _ ih =>
      obtain ⟨x, xs, rfl⟩ := List.exists_cons_of_length_eq_add_one hlength
      have hrest := ih (Nat.succ.inj hlength) fun y hy => hxs y (List.mem_cons_of_mem _ hy)
      have hmass : left + right + mass (x :: xs) = left + x.quanta + (right + mass xs) := by
        rw [mass_cons]
        omega
      rw [hmass]
      exact .cons (.add hlane (.leaf height (hxs x List.mem_cons_self))) hrest

theorem AreSums.addBlocks (h : AreSums height m lanes) (hlanes : lanes.length = 8)
    (hxs : AllFinite xs) :
    ∃ m', AreSums (height + xs.length / 8) m' (addBlocks lanes xs).1 ∧
      (addBlocks lanes xs).1.length = 8 ∧ m' + mass (addBlocks lanes xs).2 = m + mass xs ∧
      (addBlocks lanes xs).2.length < 8 ∧ AllFinite (addBlocks lanes xs).2 := by
  fun_induction Reduction.addBlocks lanes xs generalizing height m with
  | case1 lanes xs hlt =>
      rw [Nat.div_eq_of_lt hlt]
      exact ⟨m, h, hlanes, rfl, hlt, hxs⟩
  | case2 lanes xs hge ih =>
      have htake : (xs.take 8).length = 8 := by
        rw [List.length_take]
        omega
      have hnext := h.zipWith_add (htake.trans hlanes.symm) (hxs.take 8)
      have hlength : (lanes.zipWith add (xs.take 8)).length = 8 := by
        rw [List.length_zipWith, hlanes, htake, Nat.min_self]
      obtain ⟨m', hsums, hlength', hmass, hrest, hfinite⟩ := ih hnext hlength (hxs.drop 8)
      have hheight : height + 1 + (xs.drop 8).length / 8 = height + xs.length / 8 := by
        rw [List.length_drop]
        omega
      rw [hheight] at hsums
      rw [Nat.add_assoc, mass_take_add_mass_drop] at hmass
      exact ⟨m', hsums, hlength', hmass, hrest, hfinite⟩

/-- At most 15 blocks, three levels that join the lanes and at most seven numbers left over. -/
theorem isSum_sumLanes (hxs : AllFinite xs) (hlow : 8 ≤ xs.length) (hhigh : xs.length ≤ 128) :
    IsSum 25 (mass xs) (sumLanes xs) := by
  have htake : (xs.take 8).length = 8 := by
    rw [List.length_take, Nat.min_eq_left hlow]
  obtain ⟨m, hsums, hlength, hmass, hrest, hfinite⟩ :=
    (areSums_of_allFinite (hxs.take 8)).addBlocks htake (hxs.drop 8)
  rw [mass_take_add_mass_drop] at hmass
  rw [List.length_drop] at hsums
  rw [sumLanes]
  generalize addBlocks (xs.take 8) (xs.drop 8) = result at hsums hlength hmass hrest hfinite
  obtain ⟨lanes, rest⟩ := result
  dsimp only at hsums hlength hmass hrest hfinite
  have hpairs := hsums.sumPairs.sumPairs.sumPairs
  have hone : (sumPairs (sumPairs (sumPairs lanes))).length = 1 := by
    simp only [length_sumPairs, hlength]
  obtain ⟨total, htotal⟩ := List.length_eq_one_iff.mp hone
  rw [htotal] at hpairs
  obtain _ | ⟨hroot, hnil⟩ := hpairs
  cases hnil
  simp only [htotal]
  rw [← hmass]
  exact (hroot.sumFrom hfinite).mono (by omega)

theorem isSum_blockedSum_of_le (hxs : AllFinite xs) (hlength : xs.length ≤ 128) :
    IsSum 25 (mass xs) (blockedSum xs) := by
  rw [blockedSum]
  split
  · rename_i hshort
    have hsum := (isSum_negative_zero 0).sumFrom hxs
    rw [Nat.zero_add, Nat.zero_add] at hsum
    exact hsum.mono (by omega)
  · rename_i hlong
    exact isSum_sumLanes hxs (Nat.le_of_not_lt hlong) hlength

/-- The tree of an array has at most 25 levels up to 128 numbers, and one more whenever the length
is about doubled. -/
theorem isSum_blockedSum (doublings : Nat) (hxs : AllFinite xs)
    (hlength : xs.length ≤ 15 + 113 * 2 ^ doublings) :
    IsSum (25 + doublings) (mass xs) (blockedSum xs) := by
  induction doublings generalizing xs with
  | zero => exact isSum_blockedSum_of_le hxs hlength
  | succ doublings ih =>
      by_cases hshort : xs.length ≤ 128
      · exact (isSum_blockedSum_of_le hxs hshort).mono (Nat.le_add_right 25 _)
      · -- The second part is the longer one, by less than 16 numbers.
        rw [Nat.pow_succ] at hlength
        have hleft : (xs.take (firstPart xs.length)).length ≤ 15 + 113 * 2 ^ doublings := by
          rw [List.length_take, firstPart]
          omega
        have hright : (xs.drop (firstPart xs.length)).length ≤ 15 + 113 * 2 ^ doublings := by
          rw [List.length_drop, firstPart]
          omega
        rw [blockedSum, if_neg (by omega), if_neg hshort,
          ← mass_take_add_mass_drop xs (firstPart xs.length)]
        exact .add (ih (hxs.take _) hleft) (ih (hxs.drop _) hright)

theorem isSum_sum (doublings : Nat) (hxs : AllFinite xs)
    (hlength : xs.length ≤ 15 + 113 * 2 ^ doublings) :
    IsSum (26 + doublings) (mass xs) (sum xs) := by
  have hsum := IsSum.add (isSum_zero _) (isSum_blockedSum doublings hxs hlength)
  rwa [Nat.zero_add, Nat.add_right_comm] at hsum

/-! ## Growth -/

/-- The greatest factor by which a rounding at every level lets a sum exceed its mass. -/
def growth (height : Nat) : ℚ := (1 + unitRoundoff) ^ height

theorem one_le_growth (height : Nat) : 1 ≤ growth height :=
  one_le_pow₀ (le_add_of_nonneg_right unitRoundoff_pos.le)

theorem growth_succ_mul_add (height left right : Nat) :
    growth (height + 1) * ((left + right : Nat) : ℚ) =
      (growth height * left + growth height * right) * (1 + unitRoundoff) := by
  rw [growth, growth, pow_succ]
  push_cast
  ring

theorem growth_mul_add_growth_mul_le (height left right : Nat) :
    growth height * left + growth height * right ≤
      growth (height + 1) * ((left + right : Nat) : ℚ) := by
  rw [growth_succ_mul_add]
  have hnonneg : 0 ≤ growth height * left + growth height * right := by
    have hgrowth : 0 ≤ growth height := zero_le_one.trans (one_le_growth height)
    positivity
  exact le_mul_of_one_le_right hnonneg (le_add_of_nonneg_right unitRoundoff_pos.le)

theorem growth_mul_nonneg (height m : Nat) : 0 ≤ growth height * m :=
  mul_nonneg (zero_le_one.trans (one_le_growth height)) m.cast_nonneg

/-! ## The sum of a tree -/

/-- A tree whose mass leaves room for its growth has a finite sum. -/
theorem IsSum.finite (h : IsSum height m x)
    (hroom : growth height * m < gridQuanta infinityCode) :
    x.isFinite = true ∧ (x.quanta : ℚ) ≤ growth height * m := by
  induction h with
  | @leaf height x hx =>
      exact ⟨hx, le_mul_of_one_le_left (Nat.cast_nonneg _) (one_le_growth height)⟩
  | @add height left right x y _ _ ihx ihy =>
      have hparts := growth_mul_add_growth_mul_le height left right
      have hleft := growth_mul_nonneg height left
      have hright := growth_mul_nonneg height right
      obtain ⟨hx, hxle⟩ := ihx (by linarith)
      obtain ⟨hy, hyle⟩ := ihy (by linarith)
      have hpos := unitRoundoff_pos
      have hle : ((x.quanta : ℚ) + y.quanta) * (1 + unitRoundoff) ≤
          growth (height + 1) * ((left + right : Nat) : ℚ) := by
        rw [growth_succ_mul_add]
        exact mul_le_mul_of_nonneg_right (add_le_add hxle hyle) (by linarith)
      obtain ⟨hfinite, hquanta⟩ := add_finite hx hy (hle.trans_lt hroom)
      exact ⟨hfinite, hquanta.trans hle⟩

/-- Two parts with infinite sums have the mass of twice the range, so a tree with less is not a
NaN. -/
theorem IsSum.isNaN_eq_false (h : IsSum height m x)
    (hroom : growth height * m < 2 * gridQuanta infinityCode) : x.isNaN = false := by
  induction h with
  | leaf height hx => exact (isFinite_iff.mp hx).1
  | @add height left right x y hx hy ihx ihy =>
      have hparts := growth_mul_add_growth_mul_le height left right
      have hleft := growth_mul_nonneg height left
      have hright := growth_mul_nonneg height right
      apply isNaN_add (ihx (by linarith)) (ihy (by linarith))
      rcases lt_or_ge (growth height * left) (gridQuanta infinityCode) with hlt | hge
      · exact Or.inl (hx.finite hlt).1
      · exact Or.inr (hy.finite (by linarith)).1

end Reduction

end StackCalc
