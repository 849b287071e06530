import StackCalc.Binary64.Arithmetic

/-!
# Sums and extremes

The sum of an array is taken in a fixed order that bounds the growth of rounding errors: an array
of more than 128 numbers is cut into two parts, a shorter one is added up in eight interleaved
lanes, and fewer than eight numbers are added one after the other.
-/

namespace StackCalc

namespace Reduction

/-- Adds numbers to a start, one after the other. -/
def sumFrom (start : Binary64) (xs : List Binary64) : Binary64 := xs.foldl Binary64.add start

/-- Adds neighbours. -/
def sumPairs : List Binary64 → List Binary64
  | a :: b :: rest => a.add b :: sumPairs rest
  | rest => rest

/-- Adds whole blocks of eight numbers to the eight lanes, and gives the lanes and the numbers
that fill no block. -/
def addBlocks (lanes xs : List Binary64) : List Binary64 × List Binary64 :=
  if xs.length < 8 then (lanes, xs)
  else addBlocks (lanes.zipWith Binary64.add (xs.take 8)) (xs.drop 8)
termination_by xs.length
decreasing_by simp only [List.length_drop]; omega

/-- The sum in eight lanes, which are joined pairwise before the numbers left over are added. -/
def sumLanes (xs : List Binary64) : Binary64 :=
  let (lanes, rest) := addBlocks (xs.take 8) (xs.drop 8)
  match sumPairs (sumPairs (sumPairs lanes)) with
  | total :: _ => sumFrom total rest
  | [] => sumFrom .zero rest

/-- The number of elements in the first part of an array that is cut in two: half of them, less
what exceeds a multiple of eight. -/
def firstPart (n : Nat) : Nat := n / 2 - n / 2 % 8

/-- The sum of an array without the final addition to zero. -/
def blockedSum (xs : List Binary64) : Binary64 :=
  if xs.length < 8 then sumFrom Binary64.zero.neg xs
  else if xs.length ≤ 128 then sumLanes xs
  else
    (blockedSum (xs.take (firstPart xs.length))).add
      (blockedSum (xs.drop (firstPart xs.length)))
termination_by xs.length
decreasing_by
  · simp only [List.length_take, firstPart]; omega
  · simp only [List.length_drop, firstPart]; omega

def sum (xs : List Binary64) : Binary64 := Binary64.zero.add (blockedSum xs)

/-- The first of the numbers that `better` prefers to all others, or NaN if there is one. -/
def extreme (better : Binary64 → Binary64 → Bool) (xs : List Binary64) : Binary64 :=
  if xs.any Binary64.isNaN then .nan
  else
    match xs with
    | [] => .nan
    | x :: xs => xs.foldl (fun best x => if better x best then x else best) x

end Reduction

end StackCalc
