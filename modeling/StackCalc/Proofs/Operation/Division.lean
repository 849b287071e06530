import Mathlib
import StackCalc.Proofs.Binary64.Rounding
import StackCalc.Operation

/-!
# No operation divides by zero

The quotient of binary64 numbers is defined for every divisor, but a division by zero is a failure
of the machine below.  Here the operations that divide are written once more with a partial
quotient, which a zero divisor leaves undefined.  The partial operations are always defined and
agree with the operations: every divisor is checked before it is used, or is nonzero by the way it
comes about.
-/

namespace StackCalc

namespace Binary64

/-- The quotient, undefined for a zero divisor. -/
def quotient? (a b : Binary64) : Option Binary64 :=
  if b.isZero then none else some (a.div b)

theorem quotient?_of_ne {a b : Binary64} (h : b.isZero = false) :
    a.quotient? b = some (a.div b) := by
  rw [quotient?, h]
  rfl

end Binary64

namespace Operation

/-- The quotient with a partial division. -/
def divide? (a b : Binary64) : Option (Outcome Binary64) :=
  if b.isZero then some (.error .divisionByZero) else (a.quotient? b).map .ok

/-- The least common multiple of two integers as a product divided by the greatest common
divisor. -/
def commonMultiple? (x y : Int) : Option Binary64 :=
  if x = 0 ∨ y = 0 then some .zero
  else if x.gcd y = 0 then none
  else some (.ofNat ((x * y).natAbs / x.gcd y))

/-- The least common multiple with a partial division. -/
def leastCommonMultiple? (a b : Binary64) : Option (Outcome Binary64) :=
  match requireInteger "lcm" a with
  | .error e => some (.error e)
  | .ok x =>
    match requireInteger "lcm" b with
    | .error e => some (.error e)
    | .ok y => (commonMultiple? x y).map .ok

/-- The rising quotient with partial divisions. -/
def risingQuotient? (start : Binary64) (base step : Nat) : (count : Nat) → Option Binary64
  | 0 => some start
  | count + 1 => do
    let next ← (start.mul (.ofNat (base + step))).quotient? (.ofNat step)
    if next.isInfinite then some next else risingQuotient? next base (step + 1) count

/-- The number of choices with partial divisions. -/
def combinations? (a b : Binary64) : Option (Outcome Binary64) :=
  match requireChoice "nCr" a b with
  | .error e => some (.error e)
  | .ok (n, r) =>
    (risingQuotient? .one (n - min r (n - r)) 1 (min r (n - r))).map fun result =>
      if result.isInfinite then .ok result else .ok (.ofNat result.nearestEvenWhole)

theorem risingQuotient?_eq (start : Binary64) (base : Nat) {step : Nat} (count : Nat)
    (h : 0 < step) :
    risingQuotient? start base step count = some (risingQuotient start base step count) := by
  induction count generalizing start step with
  | zero => rfl
  | succ count ih =>
      rw [risingQuotient?, risingQuotient, Binary64.quotient?_of_ne (Binary64.isZero_ofNat h)]
      simp only [Option.bind_eq_bind, Option.bind_some]
      split
      · rfl
      · exact ih _ (Nat.succ_pos step)

theorem divide?_eq (a b : Binary64) : divide? a b = some (divide a b) := by
  rw [divide?, divide]
  split
  · rfl
  · rename_i h
    rw [Binary64.quotient?_of_ne (by simpa using h)]
    rfl

theorem commonMultiple?_eq (x y : Int) :
    commonMultiple? x y = some (.ofNat (x.natAbs.lcm y.natAbs)) := by
  rw [commonMultiple?]
  by_cases hzero : x = 0 ∨ y = 0
  · have hlcm : x.natAbs.lcm y.natAbs = 0 := by
      rcases hzero with rfl | rfl <;> simp
    rw [if_pos hzero, hlcm]
    rfl
  · have hgcd : x.gcd y ≠ 0 := by
      rw [Ne, Int.gcd_eq_zero_iff]
      exact fun h => hzero (Or.inl h.1)
    rw [if_neg hzero, if_neg hgcd, Int.natAbs_mul]
    rfl

theorem leastCommonMultiple?_eq (a b : Binary64) :
    leastCommonMultiple? a b = some (leastCommonMultiple a b) := by
  rw [leastCommonMultiple?, leastCommonMultiple]
  cases requireInteger "lcm" a with
  | error e => rfl
  | ok x =>
      cases requireInteger "lcm" b with
      | error e => rfl
      | ok y =>
          simp only
          rw [commonMultiple?_eq]
          rfl

theorem combinations?_eq (a b : Binary64) : combinations? a b = some (combinations a b) := by
  rw [combinations?, combinations]
  cases requireChoice "nCr" a b with
  | error e => rfl
  | ok choice =>
      obtain ⟨n, r⟩ := choice
      simp only
      rw [risingQuotient?_eq _ _ _ Nat.one_pos]
      rfl

end Operation

/-! ## Operations of a library -/

variable [Library]

namespace Operation

/-- The logarithm to any base with a partial division. -/
def logarithmToBase? (a base : Binary64) : Option (Outcome Binary64) :=
  match requirePositive "log" a with
  | .error e => some (.error e)
  | .ok () =>
    if base.atMost .zero || base.equals .one then some (.error (.badBase base))
    else ((Library.ln a).quotient? (Library.ln base)).map .ok

theorem logarithmToBase?_eq [Library.Lawful] (a base : Binary64) :
    logarithmToBase? a base = some (logarithmToBase a base) := by
  rw [logarithmToBase?, logarithmToBase]
  cases requirePositive "log" a with
  | error e => rfl
  | ok _ =>
      cases hbad : base.atMost .zero || base.equals .one with
      | true => rfl
      | false =>
          obtain ⟨hpositive, hone⟩ := Bool.or_eq_false_iff.mp hbad
          simp only [Bool.false_eq_true, if_false]
          rw [Binary64.quotient?_of_ne (Library.Lawful.isZero_ln hpositive hone)]
          rfl

end Operation

namespace Reduction

/-- The mean with partial divisions. -/
def mean? (xs : List Binary64) : Option Binary64 :=
  let count := Binary64.ofNat xs.length
  let total := Library.sum xs
  if total.isFinite then total.quotient? count
  else (xs.mapM fun (x : Binary64) => x.quotient? count).map Library.sum

theorem mean?_eq {xs : List Binary64} (h : xs ≠ []) : mean? xs = some (mean xs) := by
  have hcount : (Binary64.ofNat xs.length).isZero = false :=
    Binary64.isZero_ofNat (List.length_pos_iff.mpr h)
  have hquotient : ∀ x : Binary64,
      x.quotient? (.ofNat xs.length) = some (x.div (.ofNat xs.length)) :=
    fun x => Binary64.quotient?_of_ne hcount
  have hquotients : (xs.mapM fun x => x.quotient? (.ofNat xs.length)) =
      some (xs.map fun x => x.div (.ofNat xs.length)) := by
    simp only [hquotient]
    exact List.mapM_pure
  rw [mean?, mean]
  rw [hquotients, hquotient]
  split <;> rfl

end Reduction

open Operation Reduction

/-- The result of an operation on two numbers with partial divisions. -/
def BinaryOperation.compute? (op : BinaryOperation) (a b : Binary64) :
    Option (Outcome Binary64) :=
  match op with
  | .div => divide? a b
  | .logBase => logarithmToBase? a b
  | .lcm => leastCommonMultiple? a b
  | .nCr => combinations? a b
  | op => some (op.compute a b)

/-- The result of a reducer with partial divisions. -/
def Reducer.outcome? (op : Reducer) (xs : List Binary64) : Option (Outcome Binary64) :=
  if xs.isEmpty && !op.allowsEmpty then some (.error (.emptyArray op.name))
  else
    match op with
    | .avg => (mean? xs).map finiteResult
    | op => some (finiteResult (op.compute xs))

theorem BinaryOperation.compute?_eq [Library.Lawful] (op : BinaryOperation) (a b : Binary64) :
    op.compute? a b = some (op.compute a b) := by
  cases op
  case div => exact divide?_eq a b
  case logBase => exact logarithmToBase?_eq a b
  case lcm => exact leastCommonMultiple?_eq a b
  case nCr => exact combinations?_eq a b
  all_goals rfl

theorem Reducer.outcome?_eq (op : Reducer) (xs : List Binary64) :
    op.outcome? xs = some (op.apply xs) := by
  rw [Reducer.outcome?.eq_def, Reducer.apply]
  by_cases hempty : (xs.isEmpty && !op.allowsEmpty) = true
  · rw [if_pos hempty, if_pos hempty]
  · rw [if_neg hempty, if_neg hempty]
    cases op
    case avg =>
      have hne : xs ≠ [] := by
        rintro rfl
        exact hempty rfl
      rw [mean?_eq hne]
      rfl
    all_goals rfl

end StackCalc
