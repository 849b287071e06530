import Mathlib
import StackCalc.Proofs.CommandLine.Streams

/-!
# Chains of operators

In a chain of operators each operator takes what stands before it as an operand, so the tree of
the chain has one level for each of them, although nothing in it is nested in brackets.  The
parser reads chains of every length.  The compiler refuses the long ones with an error, and the
writing of their trees is what a host may have no room for.
-/

namespace StackCalc

/-- The characters of `1-1-…-1` with a number of minus signs. -/
def chainText : (signs : Nat) → List Char
  | 0 => ['1']
  | signs + 1 => chainText signs ++ ['-', '1']

def chainTokens : (signs : Nat) → List Token
  | 0 => [⟨.number, String.ofList ['1'], 0⟩]
  | signs + 1 => chainTokens signs ++
      [⟨.minus, String.ofList ['-'], 2 * signs + 1⟩, ⟨.number, String.ofList ['1'], 2 * signs + 2⟩]

def chainTree : (signs : Nat) → Expr
  | 0 => .number (0 : Nat) (Binary64.ofNumeral (String.ofList ['1']))
  | signs + 1 =>
    .binary (2 * signs + 1 : Nat) .minus (chainTree signs)
      (.number (2 * signs + 2 : Nat) (Binary64.ofNumeral (String.ofList ['1'])))

theorem length_chainText (signs : Nat) : (chainText signs).length = 2 * signs + 1 := by
  induction signs with
  | zero => rfl
  | succ signs ih =>
      rw [chainText, List.length_append, ih]
      rfl

theorem isNumeral_one : IsNumeral ['1'] := by
  have hdigits : AllDigits ['1'] := by
    rw [AllDigits, List.forall_mem_singleton]
    decide
  exact .whole hdigits (List.cons_ne_nil _ _)

theorem readsAs_chainText (signs : Nat) : ReadsAs 0 (chainText signs) (chainTokens signs) := by
  induction signs with
  | zero => exact readsAs_numeral 0 isNumeral_one
  | succ signs ih =>
      have hmore : ReadsAs (2 * signs + 1) ['-', '1'] _ :=
        readsAs_minus (readsAs_numeral (2 * signs + 2) isNumeral_one)
      intro rest hrest
      have hends : EndsNumeral (['-', '1'] ++ rest) := by
        rintro c ⟨⟩
        decide
      rw [chainText, chainTokens, List.append_assoc, ih _ hends, Nat.zero_add, Nat.zero_add,
        length_chainText, hmore rest hrest, Reading.prepend_prepend, List.length_append,
        length_chainText]

theorem derives_chainTokens (signs level : Nat) (rest : List Token) :
    Derives maxNesting .sum level (chainTokens signs ++ rest) rest (chainTree signs) := by
  have hfinite : (Binary64.ofNumeral (String.ofList ['1'])).isFinite = true := by
    decide +kernel
  have hnumeral (place : Nat) (rest : List Token) : Derives maxNesting .product level
      (⟨.number, String.ofList ['1'], place⟩ :: rest) rest
      (.number place (Binary64.ofNumeral (String.ofList ['1']))) := by
    have hprimary : Derives maxNesting .primary level _ rest _ :=
      .number ⟨.number, String.ofList ['1'], place⟩ rfl hfinite
    exact hprimary.loosen (by decide)
  induction signs generalizing rest with
  | zero => exact .ofProduct (hnumeral 0 rest)
  | succ signs ih =>
      rw [chainTokens, List.append_assoc]
      exact .sum ⟨.minus, String.ofList ['-'], 2 * signs + 1⟩ rfl (ih _) (hnumeral _ rest)

theorem parseSource_chain (signs : Nat) :
    parseSource (String.ofList (chainText signs)) = .ok (chainTree signs) := by
  have hread := readsAs_chainText signs
  rw [← String.toList_ofList (l := chainText signs)] at hread
  rw [parseSource_eq hread.tokenize_eq]
  have hderives := derives_chainTokens signs 1 []
  rw [List.append_nil] at hderives
  rw [Expr.ofTokens_eq_ok_iff_derives.mpr hderives]
  rfl

theorem prefixDepth_chainTree (signs : Nat) : (chainTree signs).prefixDepth = signs + 1 := by
  induction signs with
  | zero => rfl
  | succ signs ih =>
      rw [chainTree, Expr.prefixDepth, ih, Expr.prefixDepth]
      omega

namespace CommandLine

/-- A host has no room to write the tree of a chain with as many signs as calls can be nested. -/
theorem treeTooHigh_chain {host : Host} {options : Options} {signs : Nat}
    (hasked : options.ast = true) (hsigns : host.room ≤ signs) :
    TreeTooHigh host options (String.ofList (chainText signs)) := by
  refine ⟨hasked, chainTree signs, parseSource_chain signs, ?_⟩
  rw [prefixDepth_chainTree]
  omega

/-- A thousand minus signs are read, but not compiled.  The program neither shows the tree nor
reports the error of the compiler if it is asked for the tree. -/
theorem runSource_of_thousand_signs :
    let source := String.ofList (chainText 1000)
    (∃ e, parseSource source = .ok e) ∧ (∃ error, evaluate source = .error (.compile error)) ∧
      runSource .quiet { ast := true } source = ({}, .error .recursion) := by
  intro source
  have htoo : TreeTooHigh .quiet { ast := true } source :=
    treeTooHigh_chain rfl (Nat.le_refl 1000)
  refine ⟨⟨_, parseSource_chain 1000⟩, exists_compileError_of_tooHigh (by decide) htoo, ?_⟩
  rw [runSource_of_tooHigh htoo]
  rfl

end CommandLine

end StackCalc
