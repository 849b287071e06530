import Mathlib
import StackCalc.Evaluation
import StackCalc.Proofs.Parser.Offsets

/-!
# Sizes of sources, token lists and trees

Every token takes at least one character of the source, and every node of a tree at least one token
of its own.  A tree that is read from a source therefore has at most as many nodes as the source has
characters, and no array of it has more items than that.
-/

namespace StackCalc

theorem length_tokens_ofText (offset : Nat) (cs : List Char) :
    (Reading.ofText offset cs).tokens.length ≤ cs.length := by
  fun_induction Reading.ofText offset cs with
  | case1 offset => exact le_refl 0
  | case2 offset c cs hblank ih => exact ih.trans (Nat.le_succ _)
  | case3 offset c cs hblank hnone => exact Nat.zero_le _
  | case4 offset c cs hblank lexeme hlexeme reading ih =>
      rw [List.length_cons, List.length_cons]
      have hrest := List.length_drop (i := lexeme.extra) (l := cs)
      exact Nat.succ_le_succ (ih.trans (by omega))

theorem length_tokens_of_tokenize {source : String} {ts : Tokens} (h : tokenize source = .ok ts) :
    ts.tokens.length ≤ source.length := by
  have hreading := length_tokens_ofText 0 source.toList
  rw [tokenize, Reading.result] at h
  split at h
  · cases h
    simpa [String.length_toList] using hreading
  · cases h

/-- A source text has more characters than any node of its tree has operands. -/
theorem length_operands_lt_of_source
    {source : String} {ts : Tokens} {e node : Expr}
    (htokens : tokenize source = .ok ts) (hread : Expr.ofTokens ts = .ok e)
    (hnode : node ∈ e.postorder) : node.operands.length < source.length := by
  have hnodes := (Expr.ofTokens_eq_ok_iff_derives.mp hread).length_postorder
  calc
    node.operands.length < e.postorder.length := Expr.length_operands_lt hnode
    _ ≤ ts.tokens.length := by simpa using hnodes
    _ ≤ source.length := length_tokens_of_tokenize htokens

end StackCalc
