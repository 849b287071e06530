import Mathlib
import StackCalc.Proofs.Expr.Postorder
import StackCalc.Proofs.Parser.Soundness
import StackCalc.Proofs.Token.Tiling

/-!
# The names of calls

Every call in a tree that is read has its name from a token of the source text, as it is written
there.  So the name starts with a letter and goes on with letters, digits and underscores.
-/

namespace StackCalc

/-- A letter and then letters, digits and underscores. -/
def IsName (name : String) : Prop :=
  ∃ c cs, name.toList = c :: cs ∧ isLetter c = true ∧ ∀ d ∈ cs, isNamePart d = true

/-! ## Tokens -/

theorem isName_of_isAlpha {name : String} (c : Char) (cs : List Char)
    (hname : name.toList = c :: cs) (h : (c :: cs).all Char.isAlpha = true) : IsName name := by
  have hletter (d : Char) (hd : d ∈ c :: cs) : isLetter d = true :=
    isLetter_of_isAlpha d (List.all_eq_true.mp h d hd)
  refine ⟨c, cs, hname, hletter c List.mem_cons_self, ?_⟩
  intro d hd
  rw [isNamePart, hletter d (List.mem_cons_of_mem c hd), Bool.true_or, Bool.true_or]

/-- The token of an identifier has a name, which is written out for a Greek constant. -/
theorem IsLexeme.isName {slice : List Char} {text : String}
    (h : IsLexeme slice .identifier text) : IsName text := by
  cases h with
  | symbol hkind =>
      unfold symbolKind? at hkind
      split at hkind
      all_goals cases hkind
  | constant hname =>
      unfold greekConstant? at hname
      split at hname
      · cases hname
        exact isName_of_isAlpha 'p' ['i'] (by decide) (by decide)
      · cases hname
        exact isName_of_isAlpha 't' ['a', 'u'] (by decide) (by decide)
      · cases hname
        exact isName_of_isAlpha 'p' ['h', 'i'] (by decide) (by decide)
      · cases hname
  | @name c cs hletter _ hparts => exact ⟨c, cs, String.toList_ofList, hletter, hparts⟩

/-- A token that has a name if it is an identifier. -/
def Token.HasName (t : Token) : Prop := t.kind = .identifier → IsName t.text

theorem hasName_of_tokenize {source : String} {ts : Tokens} (h : tokenize source = .ok ts) :
    ∀ t ∈ ts.tokens, t.HasName := by
  obtain ⟨tiles, htokens, htiling⟩ := exists_tiling_ofText source.toList 0 source.toList rfl
  rw [tokenize, Reading.result] at h
  split at h
  · cases h
    intro t ht hkind
    rw [htokens] at ht
    obtain ⟨tile, htile, rfl⟩ := List.mem_map.mp ht
    have hlexeme := (htiling.longest tile htile).lexeme
    rw [hkind] at hlexeme
    exact hlexeme.isName
  · cases h

/-! ## Calls -/

/-- A node that has a name if it is a call. -/
def Expr.HasName : Expr → Prop
  | .call _ name _ => IsName name
  | _ => True

variable {limit : Nat}

mutual

/-- If identifiers have names, then so have the calls of a phrase and the identifiers after it. -/
theorem Derives.hasName {c : Category} {level : Nat} {ts rest : List Token} {e : Expr}
    (h : Derives limit c level ts rest e) (hts : ∀ t ∈ ts, t.HasName) :
    (∀ t ∈ rest, t.HasName) ∧ ∀ node ∈ e.postorder, node.HasName :=
  match h with
  | .ofProduct h | .ofPower h | .ofSigned h | .ofFactorial h | .ofPrimary h => h.hasName hts
  | .sum _ _ hl hr | .product _ _ hl hr | .power _ _ _ hl hr => by
      obtain ⟨hmid, hleft⟩ := hl.hasName hts
      obtain ⟨hrest, hright⟩ := hr.hasName (List.forall_mem_cons.mp hmid).2
      rw [Expr.postorder, List.forall_mem_append, List.forall_mem_append]
      exact ⟨hrest, ⟨hleft, hright⟩, List.forall_mem_singleton.mpr trivial⟩
  | .signed _ _ _ h => by
      obtain ⟨hrest, hoperand⟩ := h.hasName (List.forall_mem_cons.mp hts).2
      rw [Expr.postorder, List.forall_mem_append]
      exact ⟨hrest, hoperand, List.forall_mem_singleton.mpr trivial⟩
  | .factorial _ _ h => by
      obtain ⟨hrest, hoperand⟩ := h.hasName hts
      rw [Expr.postorder, List.forall_mem_append]
      exact ⟨(List.forall_mem_cons.mp hrest).2, hoperand, List.forall_mem_singleton.mpr trivial⟩
  | .number _ _ _ | .constant _ _ _ _ => by
      rw [Expr.postorder]
      exact ⟨(List.forall_mem_cons.mp hts).2, List.forall_mem_singleton.mpr trivial⟩
  | .group _ _ _ _ _ h => by
      obtain ⟨hrest, hinside⟩ := h.hasName (List.forall_mem_cons.mp hts).2
      exact ⟨(List.forall_mem_cons.mp hrest).2, hinside⟩
  | .array _ _ _ _ h => by
      obtain ⟨hrest, hitems⟩ := h.hasName (List.forall_mem_cons.mp hts).2
      rw [Expr.postorder, List.forall_mem_append]
      exact ⟨(List.forall_mem_cons.mp hrest).2, hitems, List.forall_mem_singleton.mpr trivial⟩
  | .call _ _ _ hkind _ _ h => by
      obtain ⟨hname, htail⟩ := List.forall_mem_cons.mp hts
      obtain ⟨hrest, hargs⟩ := h.hasName (List.forall_mem_cons.mp htail).2
      rw [Expr.postorder, List.forall_mem_append]
      exact ⟨(List.forall_mem_cons.mp hrest).2, hargs, List.forall_mem_singleton.mpr (hname hkind)⟩

theorem DerivesItems.hasName {level : Nat} {ts rest : List Token} {es : List Expr}
    (h : DerivesItems limit level ts rest es) (hts : ∀ t ∈ ts, t.HasName) :
    (∀ t ∈ rest, t.HasName) ∧ ∀ node ∈ Expr.postorders es, node.HasName :=
  match h with
  | .none => by
      rw [Expr.postorders_nil]
      exact ⟨hts, List.forall_mem_nil _⟩
  | .one _ h => by
      rw [Expr.postorders_cons, Expr.postorders_nil, List.append_nil]
      exact h.hasName hts
  | .more _ _ _ hs _ h => by
      obtain ⟨hmid, hitems⟩ := hs.hasName hts
      obtain ⟨hrest, hlast⟩ := h.hasName (List.forall_mem_cons.mp hmid).2
      rw [Expr.postorders_append, Expr.postorders_cons, Expr.postorders_nil, List.append_nil,
        List.forall_mem_append]
      exact ⟨hrest, hitems, hlast⟩

end

theorem Expr.hasName_of_ofTokens {source : String} {ts : Tokens} {e : Expr}
    (htokens : tokenize source = .ok ts) (hread : Expr.ofTokens ts = .ok e) :
    ∀ node ∈ e.postorder, node.HasName :=
  ((Expr.ofTokens_eq_ok_iff_derives.mp hread).hasName (hasName_of_tokenize htokens)).2

end StackCalc
