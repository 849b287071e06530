import Mathlib
import StackCalc.Proofs.Expr.Postorder
import StackCalc.Proofs.Parser.Soundness

/-!
# The tokens of nodes

Every node of a tree has the offset of a token of its own: a literal that of its numeral or name, an
array that of its opening bracket, an operator that of its sign, and a call that of its name.  So
among the nodes of a derived tree an offset occurs no more often than among the tokens they are
derived from, and if the tokens have different offsets, so have the nodes.
-/

namespace StackCalc

variable {limit : Nat}

mutual

/-- A phrase has at least as many tokens with some sort of offset as the tree it denotes has
nodes. -/
theorem Derives.countP_postorder {c : Category} {level : Nat} {ts rest : List Token} {e : Expr}
    (p : Int → Bool) (h : Derives limit c level ts rest e) :
    e.postorder.countP (fun node => p node.offset) + rest.countP (fun t => p t.offset) ≤
      ts.countP fun t => p t.offset :=
  match h with
  | .ofProduct h | .ofPower h | .ofSigned h | .ofFactorial h | .ofPrimary h =>
    h.countP_postorder p
  | .sum _ _ hl hr | .product _ _ hl hr | .power _ _ _ hl hr => by
      have hleft := hl.countP_postorder p
      have hright := hr.countP_postorder p
      rw [List.countP_cons] at hleft
      rw [Expr.postorder, List.countP_append, List.countP_append, List.countP_singleton,
        Expr.offset]
      omega
  | .signed _ _ _ h => by
      have hoperand := h.countP_postorder p
      rw [Expr.postorder, List.countP_append, List.countP_singleton, List.countP_cons, Expr.offset]
      omega
  | .factorial _ _ h => by
      have hoperand := h.countP_postorder p
      rw [List.countP_cons] at hoperand
      rw [Expr.postorder, List.countP_append, List.countP_singleton, Expr.offset]
      omega
  | .number _ _ _ | .constant _ _ _ _ => by
      rw [Expr.postorder, List.countP_singleton, List.countP_cons, Expr.offset, Nat.add_comm]
  | .group _ _ _ _ _ h => by
      have hinside := h.countP_postorder p
      rw [List.countP_cons] at hinside ⊢
      omega
  | .array _ _ _ _ h => by
      have hitems := h.countP_postorders p
      rw [List.countP_cons] at hitems
      rw [Expr.postorder, List.countP_append, List.countP_singleton, List.countP_cons, Expr.offset]
      omega
  | .call _ _ _ _ _ _ h => by
      have hargs := h.countP_postorders p
      rw [List.countP_cons] at hargs
      rw [Expr.postorder, List.countP_append, List.countP_singleton, List.countP_cons,
        List.countP_cons, Expr.offset]
      omega

theorem DerivesItems.countP_postorders {level : Nat} {ts rest : List Token} {es : List Expr}
    (p : Int → Bool) (h : DerivesItems limit level ts rest es) :
    (Expr.postorders es).countP (fun node => p node.offset) +
      rest.countP (fun t => p t.offset) ≤ ts.countP fun t => p t.offset :=
  match h with
  | .none => by
      rw [Expr.postorders_nil, List.countP_nil, Nat.zero_add]
  | .one _ h => by
      rw [Expr.postorders_cons, Expr.postorders_nil, List.append_nil]
      exact h.countP_postorder p
  | .more _ _ _ hs _ h => by
      have hitems := hs.countP_postorders p
      have hlast := h.countP_postorder p
      rw [List.countP_cons] at hitems
      rw [Expr.postorders_append, Expr.postorders_cons, Expr.postorders_nil, List.append_nil,
        List.countP_append]
      omega

end

theorem Derives.length_postorder {c : Category} {level : Nat} {ts rest : List Token} {e : Expr}
    (h : Derives limit c level ts rest e) : e.postorder.length + rest.length ≤ ts.length := by
  simpa using h.countP_postorder fun _ => true

namespace Expr

variable {ts : Tokens} {e node : Expr}

theorem count_offset_le (h : Expr.ofTokens ts = .ok e) (offset : Int) :
    (e.postorder.map Expr.offset).count offset ≤
      (ts.tokens.map fun t => (t.offset : Int)).count offset := by
  have hcount := (Expr.ofTokens_eq_ok_iff_derives.mp h).countP_postorder (· == offset)
  rw [List.count_eq_countP, List.count_eq_countP, List.countP_map, List.countP_map]
  exact hcount

theorem exists_token_of_mem_postorder (h : Expr.ofTokens ts = .ok e) (hnode : node ∈ e.postorder) :
    ∃ t ∈ ts.tokens, (t.offset : Int) = node.offset := by
  have hpos := List.count_pos_iff.mpr (List.mem_map_of_mem (f := Expr.offset) hnode)
  have htoken := List.count_pos_iff.mp (hpos.trans_le (count_offset_le h _))
  exact List.mem_map.mp htoken

/-- Nodes of tokens with different offsets have different offsets. -/
theorem nodup_offsets (h : Expr.ofTokens ts = .ok e)
    (hts : ts.tokens.Pairwise fun t u => t.offset < u.offset) :
    (e.postorder.map Expr.offset).Nodup := by
  have htokens : (ts.tokens.map fun t => (t.offset : Int)).Nodup := by
    rw [List.Nodup, List.pairwise_map]
    apply hts.imp
    intro t u hlt
    omega
  rw [List.nodup_iff_count_le_one] at htokens ⊢
  exact fun offset => (count_offset_le h offset).trans (htokens offset)

end Expr

end StackCalc
