import Mathlib
import StackCalc.Proofs.Expr.Finiteness
import StackCalc.Proofs.Parser.Soundness

/-!
# What the reader hands on

A tree that is read has no holes and only finite literals, and a refused token is one of the
tokens of the source or its end marker.  A reader that looks its tokens up by their index never
looks past the end marker.
-/

namespace StackCalc

variable {limit : Nat}

/-! ## Trees -/

namespace Expr

/-- A node that is no hole and, if it is a literal, is finite. -/
def WellBuilt : Expr → Prop
  | .number _ x => x.isFinite = true
  | .hole _ => False
  | _ => True

theorem isComplete_of_wellBuilt (e : Expr) (h : ∀ node ∈ e.postorder, node.WellBuilt) :
    e.isComplete = true := by
  induction e using operandInduction with
  | node e ih =>
      apply isComplete_iff.mpr
      constructor
      · rintro offset rfl
        exact h _ (mem_postorder_self _)
      · intro a ha
        exact ih a ha fun node hnode => h node (mem_postorder_of_operand ha hnode)

theorem finiteLiterals_of_wellBuilt {nodes : List Expr} (h : ∀ node ∈ nodes, node.WellBuilt) :
    FiniteLiterals nodes := by
  intro node hnode x hx
  cases node with
  | number offset y =>
      cases hx
      exact h _ hnode
  | _ => cases hx

end Expr

theorem isFinite_of_namedConstant? {name : String} {value : Binary64}
    (h : namedConstant? name = some value) : value.isFinite = true := by
  have hall : ∀ entry ∈ [("pi", Binary64.ofBits 0x400921fb54442d18),
      ("e", .ofBits 0x4005bf0a8b145769), ("tau", .ofBits 0x401921fb54442d18),
      ("phi", .ofBits 0x3ff9e3779b97f4a8)], entry.2.isFinite = true := by
    decide
  exact hall _ (mem_of_lookup_eq_some h)

mutual

/-- The nodes of a derived tree are well-built. -/
theorem Derives.wellBuilt {c : Category} {level : Nat} {ts rest : List Token} {e : Expr}
    (h : Derives limit c level ts rest e) : ∀ node ∈ e.postorder, node.WellBuilt :=
  match h with
  | .ofProduct h | .ofPower h | .ofSigned h | .ofFactorial h | .ofPrimary h => h.wellBuilt
  | .sum _ _ hl hr | .product _ _ hl hr | .power _ _ _ hl hr => by
      rw [Expr.postorder, List.forall_mem_append, List.forall_mem_append]
      exact ⟨⟨hl.wellBuilt, hr.wellBuilt⟩, List.forall_mem_singleton.mpr trivial⟩
  | .signed _ _ _ h | .factorial _ _ h => by
      rw [Expr.postorder, List.forall_mem_append]
      exact ⟨h.wellBuilt, List.forall_mem_singleton.mpr trivial⟩
  | .number _ _ hfinite => by
      rw [Expr.postorder]
      exact List.forall_mem_singleton.mpr hfinite
  | .constant _ _ hvalue _ => by
      rw [Expr.postorder]
      exact List.forall_mem_singleton.mpr (isFinite_of_namedConstant? hvalue)
  | .group _ _ _ _ _ h => h.wellBuilt
  | .array _ _ _ _ h | .call _ _ _ _ _ _ h => by
      rw [Expr.postorder, List.forall_mem_append]
      exact ⟨h.wellBuilt, List.forall_mem_singleton.mpr trivial⟩

theorem DerivesItems.wellBuilt {level : Nat} {ts rest : List Token} {es : List Expr}
    (h : DerivesItems limit level ts rest es) :
    ∀ node ∈ Expr.postorders es, node.WellBuilt :=
  match h with
  | .none => by
      rw [Expr.postorders_nil]
      exact List.forall_mem_nil _
  | .one _ h => by
      rw [Expr.postorders_cons, Expr.postorders_nil, List.append_nil]
      exact h.wellBuilt
  | .more _ _ _ hs _ h => by
      rw [Expr.postorders_append, Expr.postorders_cons, Expr.postorders_nil, List.append_nil,
        List.forall_mem_append]
      exact ⟨hs.wellBuilt, h.wellBuilt⟩

end

/-! ## Refused tokens -/

namespace Parser

variable {frames : List Frame} {operand : Expr} {token : Token} {e : ParseError}

/-- A token that should start an operand is refused as such, for its level or for its value. -/
theorem takeOperand_eq_error (h : takeOperand frames token = .error e) :
    e = ⟨token, .tooDeep⟩ ∨ e = ⟨token, .outOfRange⟩ ∨
      e = ⟨token, .unexpected operandStart⟩ := by
  rw [takeOperand] at h
  cases hkind : token.kind with
  | number =>
      simp only [hkind] at h
      split at h
      · cases h
      · cases h
        exact Or.inr (Or.inl rfl)
  | minus =>
      simp only [hkind] at h
      split at h
      · cases h
        exact Or.inl rfl
      · cases h
  | identifier | leftParen | leftBracket =>
      simp only [hkind] at h
      cases h
  | _ =>
      simp only [hkind] at h
      cases h
      exact Or.inr (Or.inr rfl)

theorem takeStart_eq_error (h : takeStart frames token = .error e) :
    e = ⟨token, .tooDeep⟩ ∨ level frames ≤ maxNesting ∧ takeOperand frames token = .error e := by
  rw [takeStart] at h
  split at h
  · cases h
    exact Or.inl rfl
  · rename_i hlevel
    exact Or.inr ⟨Nat.le_of_not_lt hlevel, h⟩

theorem takeAfter_eq_error (h : takeAfter frames operand token = .error e) :
    e = ⟨token, .tooDeep⟩ ∨
      e = ⟨token, .unexpected (closers (complete 0 operand frames).2)⟩ := by
  by_cases hbang : token.kind = .bang
  · rw [takeAfter_bang hbang] at h
    cases h
  · cases hop : operator? token.kind with
    | some op =>
        rw [takeAfter_operator hop] at h
        split at h
        · cases h
          exact Or.inl rfl
        · cases h
    | none =>
        rw [takeAfter_closer hbang hop, takeCloser] at h
        split at h
        · cases h
        · cases h
          exact Or.inr rfl

theorem finishAfter_eq_error (h : finishAfter frames operand token = .error e) :
    e = ⟨token, .unexpected (closers (complete 0 operand frames).2)⟩ := by
  rw [finishAfter] at h
  split at h
  · cases h
  · rename_i hcomplete
    cases h
    rw [hcomplete]

theorem finish_start_eq_error (h : State.finish ⟨frames, .start⟩ token = .error e) :
    e = ⟨token, .tooDeep⟩ ∨
      level frames ≤ maxNesting ∧ e = ⟨token, .unexpected operandStart⟩ := by
  simp only [State.finish] at h
  split at h
  · cases h
    exact Or.inl rfl
  · rename_i hlevel
    cases h
    exact Or.inr ⟨Nat.le_of_not_lt hlevel, rfl⟩

theorem resolveName_cases (name : String) (token : Token) :
    (∃ value, namedConstant? name = some value ∧ resolveName name token = .ok value) ∨
      resolveName name token = .error ⟨token, .uncalled name⟩ := by
  rw [resolveName]
  cases namedConstant? name with
  | some value => exact Or.inl ⟨value, rfl, rfl⟩
  | none => exact Or.inr rfl

theorem token_of_takeStart (h : takeStart frames token = .error e) : e.token = token := by
  rcases takeStart_eq_error h with rfl | ⟨-, hoperand⟩
  · rfl
  · rcases takeOperand_eq_error hoperand with rfl | rfl | rfl <;> rfl

theorem token_of_takeAfter (h : takeAfter frames operand token = .error e) :
    e.token = token := by
  rcases takeAfter_eq_error h with rfl | rfl <;> rfl

theorem token_of_take {state : State} (h : state.take token = .error e) : e.token = token := by
  obtain ⟨frames, phase⟩ := state
  cases phase with
  | start => exact token_of_takeStart h
  | list =>
      simp only [State.take] at h
      split at h
      · split at h
        · cases h
        · cases h
          rfl
      · exact token_of_takeStart h
  | operand => rcases takeOperand_eq_error h with rfl | rfl | rfl <;> rfl
  | name offset name =>
      by_cases hparen : token.kind = .leftParen
      · rw [take_name_paren hparen] at h
        cases h
      · rw [take_name hparen] at h
        obtain ⟨value, -, hvalue⟩ | hrefused := resolveName_cases name token
        · rw [hvalue] at h
          exact token_of_takeAfter h
        · rw [hrefused] at h
          cases h
          rfl
  | after operand => exact token_of_takeAfter h

theorem finish_after :
    State.finish ⟨frames, .after operand⟩ token = finishAfter frames operand token := rfl

theorem finish_name (offset : Nat) (name : String) :
    State.finish ⟨frames, .name offset name⟩ token =
      (resolveName name token).bind fun value =>
        finishAfter frames (.number offset value) token := rfl

theorem token_of_finish {state : State} (h : state.finish token = .error e) :
    e.token = token := by
  obtain ⟨frames, phase⟩ := state
  cases phase with
  | start | list => rcases finish_start_eq_error h with rfl | ⟨-, rfl⟩ <;> rfl
  | operand =>
      cases h
      rfl
  | name offset name =>
      rw [finish_name] at h
      obtain ⟨value, -, hvalue⟩ | hrefused := resolveName_cases name token
      · rw [hvalue] at h
        rw [finishAfter_eq_error h]
      · rw [hrefused] at h
        cases h
        rfl
  | after operand => rw [finishAfter_eq_error h]

theorem token_of_run {state : State} {ts : List Token} {atEnd : Token}
    (h : state.run ts atEnd = .error e) : e.token ∈ ts ++ [atEnd] := by
  induction ts generalizing state with
  | nil => exact List.mem_singleton.mpr (token_of_finish h)
  | cons token ts ih =>
      rw [State.run] at h
      cases htake : state.take token with
      | error e' =>
          rw [htake] at h
          cases h
          rw [token_of_take htake]
          exact List.mem_cons_self
      | ok next =>
          rw [htake] at h
          exact List.mem_cons_of_mem _ (ih h)

end Parser

/-! ## Reading by index -/

namespace Parser

/-- Reads tokens by their index until one of them is an end marker; undefined as soon as the
index is past the tokens. -/
def State.scan? (state : State) (ts : List Token) (index : Nat) :
    Option (Except ParseError Expr) :=
  if h : index < ts.length then
    if ts[index].kind = .endOfInput then some (state.finish ts[index])
    else
      match state.take ts[index] with
      | .error e => some (.error e)
      | .ok next => next.scan? ts (index + 1)
  else none
termination_by ts.length - index

theorem scan?_eq (before : List Token) {after : List Token} {atEnd : Token} (state : State)
    (hafter : ∀ t ∈ after, t.kind ≠ .endOfInput) (hend : atEnd.kind = .endOfInput) :
    state.scan? (before ++ (after ++ [atEnd])) before.length = some (state.run after atEnd) := by
  induction after generalizing before state with
  | nil =>
      have hget : (before ++ ([] ++ [atEnd]))[before.length]? = some atEnd := by simp
      obtain ⟨hlt, hget⟩ := List.getElem?_eq_some_iff.mp hget
      rw [State.scan?, dif_pos hlt, hget, if_pos hend]
      rfl
  | cons token after ih =>
      have hget : (before ++ (token :: after ++ [atEnd]))[before.length]? = some token := by simp
      obtain ⟨hlt, hget⟩ := List.getElem?_eq_some_iff.mp hget
      obtain ⟨htoken, hafter⟩ := List.forall_mem_cons.mp hafter
      rw [State.scan?, dif_pos hlt, hget, if_neg htoken, State.run]
      cases state.take token with
      | error e => rfl
      | ok next =>
          have hnext := ih (before ++ [token]) next hafter
          rw [List.append_assoc, List.length_append] at hnext
          exact hnext

end Parser

theorem Expr.token_of_ofTokens {ts : Tokens} {e : ParseError}
    (h : Expr.ofTokens ts = .error e) : e.token ∈ ts.withEnd :=
  Parser.token_of_run h

theorem Expr.wellBuilt_of_ofTokens {ts : Tokens} {e : Expr} (h : Expr.ofTokens ts = .ok e) :
    ∀ node ∈ e.postorder, node.WellBuilt :=
  (Expr.ofTokens_eq_ok_iff_derives.mp h).wellBuilt

end StackCalc
