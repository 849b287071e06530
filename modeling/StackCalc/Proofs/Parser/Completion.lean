import Mathlib
import StackCalc.Proofs.Parser.Completeness
import StackCalc.Proofs.Parser.Trees
import StackCalc.Proofs.Token.Numerals

/-!
# The first token that cannot be accepted

A refused token is the first that makes the tokens read so far the start of no expression.  The
reader looks at no token after it, so none of them can mend what it refuses.  The tokens before it
can be completed: every state of the reader goes on to an expression by an operand, if one is
missing, and then the closing brackets of its frames.  These nest no deeper than the state does, so
they are accepted at the limit of nesting too.
-/

namespace StackCalc

namespace Parser

/-! ## Token lists with an end marker -/

/-- Lists in which an end marker is last and nowhere else. -/
inductive Ended : List Token → Prop where
  | atEnd {token : Token} :
      token.kind = .endOfInput →
      Ended [token]
  | cons {token : Token} {ts : List Token} :
      token.kind ≠ .endOfInput →
      Ended ts →
      Ended (token :: ts)

/-- Reads a list of tokens up to its first end marker; undefined if the tokens run out before. -/
def State.read? (state : State) : List Token → Option (Except ParseError Expr)
  | [] => none
  | token :: ts =>
    if token.kind = .endOfInput then some (state.finish token)
    else
      match state.take token with
      | .error e => some (.error e)
      | .ok next => next.read? ts

/-- The outcome of reading a list of tokens from the start. -/
def parse? (ts : List Token) : Option (Except ParseError Expr) := State.initial.read? ts

variable {state next : State} {frames : List Frame} {operand : Expr} {token : Token}
  {ts before ending : List Token} {e : ParseError}

theorem read?_end (h : token.kind = .endOfInput) (ts : List Token) :
    state.read? (token :: ts) = some (state.finish token) := by
  rw [State.read?, if_pos h]

theorem read?_ok (hkind : token.kind ≠ .endOfInput) (h : state.take token = .ok next)
    (ts : List Token) : state.read? (token :: ts) = next.read? ts := by
  rw [State.read?, if_neg hkind, h]

theorem read?_error (hkind : token.kind ≠ .endOfInput) (h : state.take token = .error e)
    (ts : List Token) : state.read? (token :: ts) = some (.error e) := by
  rw [State.read?, if_neg hkind, h]

theorem scan?_append (before : List Token) (state : State) (ts : List Token) :
    state.scan? (before ++ ts) before.length = state.read? ts := by
  induction ts generalizing before state with
  | nil => rw [State.scan?, dif_neg (by simp), State.read?]
  | cons token ts ih =>
      have hget : (before ++ token :: ts)[before.length]? = some token := by simp
      obtain ⟨hlt, hget⟩ := List.getElem?_eq_some_iff.mp hget
      rw [State.scan?, dif_pos hlt, hget, State.read?]
      cases state.take token with
      | error e => rfl
      | ok next =>
          have hnext := ih (before ++ [token]) next
          rw [List.append_assoc, List.length_append] at hnext
          exact congrArg (ite _ _) hnext

/-- A tokenized source is read as its tokens followed by their end marker. -/
theorem parse?_withEnd {ts : Tokens} (hts : ∀ t ∈ ts.tokens, t.kind ≠ .endOfInput) :
    parse? ts.withEnd = some (Expr.ofTokens ts) := by
  rw [parse?, ← scan?_append []]
  exact scan?_eq [] .initial hts rfl

/-! ## Refusals -/

/-- Takes the tokens of a list one after the other. -/
inductive Takes : State → List Token → State → Prop where
  | nil {state : State} :
      Takes state [] state
  | cons {state next last : State} {token : Token} {ts : List Token} :
      token.kind ≠ .endOfInput →
      state.take token = .ok next →
      Takes next ts last →
      Takes state (token :: ts) last

/-- The error with which a state refuses a token or the end of the input. -/
def State.Refuses (state : State) (token : Token) (e : ParseError) : Prop :=
  token.kind = .endOfInput ∧ state.finish token = .error e ∨
    token.kind ≠ .endOfInput ∧ state.take token = .error e

theorem Takes.read?_append (h : Takes state before next) (ts : List Token) :
    state.read? (before ++ ts) = next.read? ts := by
  induction h with
  | nil => rfl
  | cons hkind htake _ ih => rw [List.cons_append, read?_ok hkind htake, ih]

theorem Takes.ended (h : Takes state before next) (hts : Ended ts) : Ended (before ++ ts) := by
  induction h with
  | nil => exact hts
  | cons hkind _ _ ih => exact .cons hkind ih

/-- What follows a refused token does not matter. -/
theorem State.Refuses.read? (h : state.Refuses token e) (ts : List Token) :
    state.read? (token :: ts) = some (.error e) := by
  rcases h with ⟨hkind, hfinish⟩ | ⟨hkind, htake⟩
  · rw [read?_end hkind, hfinish]
  · exact read?_error hkind htake ts

theorem State.Refuses.token_eq (h : state.Refuses token e) : e.token = token := by
  rcases h with ⟨-, hfinish⟩ | ⟨-, htake⟩
  · exact token_of_finish hfinish
  · exact token_of_take htake

/-- A list of tokens that is not accepted has a first token that is refused. -/
theorem exists_refuses_of_read? (h : state.read? ts = some (.error e)) :
    ∃ before next after, ts = before ++ e.token :: after ∧ Takes state before next ∧
      next.Refuses e.token e := by
  induction ts generalizing state with
  | nil => cases h
  | cons token ts ih =>
      have hfirst : state.Refuses token e → ∃ before next after,
          token :: ts = before ++ e.token :: after ∧ Takes state before next ∧
            next.Refuses e.token e := by
        intro hrefuses
        rw [hrefuses.token_eq]
        exact ⟨[], state, ts, rfl, .nil, hrefuses⟩
      by_cases hkind : token.kind = .endOfInput
      · rw [read?_end hkind, Option.some.injEq] at h
        exact hfirst (Or.inl ⟨hkind, h⟩)
      · cases htake : state.take token with
        | error e' =>
            rw [read?_error hkind htake] at h
            cases h
            exact hfirst (Or.inr ⟨hkind, htake⟩)
        | ok next =>
            rw [read?_ok hkind htake] at h
            obtain ⟨before, last, after, rfl, htakes, hrefuses⟩ := ih h
            exact ⟨token :: before, last, after, rfl, .cons hkind htake htakes, hrefuses⟩

/-! ## Completions -/

/-- After the tokens of `before`, those of `ending` lead the reader from a state to an expression.
They end with the only end marker of all, and their numbers are numerals. -/
structure State.Completes (state : State) (before ending : List Token) : Prop where
  ended : Ended (before ++ ending)
  isNumeral : ∀ t ∈ ending, t.kind = .number → IsNumeral t.text.toList
  accepted : ∃ tree, state.read? (before ++ ending) = some (.ok tree)

theorem Takes.completes (h : Takes state before next) (hending : next.Completes [] ending) :
    state.Completes before ending where
  ended := h.ended hending.ended
  isNumeral := hending.isNumeral
  accepted := by
    rw [h.read?_append]
    exact hending.accepted

theorem State.Completes.cons
    (hkind : token.kind ≠ .endOfInput)
    (hnumber : token.kind = .number → IsNumeral token.text.toList)
    (htake : state.take token = .ok next) (h : next.Completes [] ending) :
    state.Completes [] (token :: ending) where
  ended := .cons hkind h.ended
  isNumeral := List.forall_mem_cons.mpr ⟨hnumber, h.isNumeral⟩
  accepted := by
    rw [List.nil_append, read?_ok hkind htake]
    exact h.accepted

theorem State.Completes.congr
    (h : next.Completes [] ending) (hread : state.read? ending = next.read? ending) :
    state.Completes [] ending where
  ended := h.ended
  isNumeral := h.isNumeral
  accepted := by
    rw [List.nil_append, hread]
    exact h.accepted

/-! ### Closing the frames -/

def closingParen : Token := ⟨.rightParen, ")", 0⟩

def closingBracket : Token := ⟨.rightBracket, "]", 0⟩

/-- The closing brackets of the frames, innermost first, and an end marker. -/
def closingTokens : List Frame → List Token
  | [] => [Token.atEnd 0]
  | .group :: frames | .call _ _ _ :: frames => closingParen :: closingTokens frames
  | .array _ _ :: frames => closingBracket :: closingTokens frames
  | .binary _ _ _ :: frames | .minus _ :: frames => closingTokens frames

/-- The kinds of closing brackets and end markers. -/
def closingKinds : List TokenKind := [.rightParen, .rightBracket, .endOfInput]

theorem plain_of_mem_closingKinds (h : token.kind ∈ closingKinds) :
    token.kind ≠ .bang ∧ token.kind ≠ .leftParen ∧ operator? token.kind = none := by
  revert h
  cases token.kind <;> decide

theorem exists_closingTokens_eq (frames : List Frame) (operand : Expr) :
    ∃ token ts, closingTokens frames = token :: ts ∧ token.kind ∈ closingKinds ∧
      token.kind ∈ closers (complete 0 operand frames).2 := by
  induction frames generalizing operand with
  | nil => exact ⟨_, _, rfl, by decide, List.mem_singleton_self _⟩
  | cons frame frames ih =>
      cases frame with
      | group => exact ⟨_, _, rfl, by decide, List.mem_singleton_self _⟩
      | array offset items =>
          exact ⟨_, _, rfl, by decide, List.mem_cons_of_mem _ (List.mem_singleton_self _)⟩
      | call offset name args =>
          exact ⟨_, _, rfl, by decide, List.mem_cons_of_mem _ (List.mem_singleton_self _)⟩
      | minus offset =>
          rw [complete_minus]
          exact ih _
      | binary offset op left =>
          rw [complete_binary_of_le (Nat.zero_le _)]
          exact ih _

theorem read?_after_congr {frames' : List Frame} {operand' : Expr}
    (hkind : token.kind ∈ closingKinds)
    (hcomplete : complete 0 operand frames = complete 0 operand' frames') (ts : List Token) :
    State.read? ⟨frames, .after operand⟩ (token :: ts) =
      State.read? ⟨frames', .after operand'⟩ (token :: ts) := by
  obtain ⟨hbang, -, hop⟩ := plain_of_mem_closingKinds hkind
  have hfinish : finishAfter frames operand token = finishAfter frames' operand' token := by
    unfold finishAfter
    rw [hcomplete]
  rw [State.read?, State.read?, finish_after, finish_after, hfinish, take_after, take_after,
    takeAfter_closer hbang hop, takeAfter_closer hbang hop, hcomplete]

theorem read?_name {offset : Nat} {name : String} {value : Binary64}
    (hkind : token.kind ∈ closingKinds) (hvalue : namedConstant? name = some value)
    (ts : List Token) :
    State.read? ⟨frames, .name offset name⟩ (token :: ts) =
      State.read? ⟨frames, .after (.number offset value)⟩ (token :: ts) := by
  obtain ⟨-, hparen, -⟩ := plain_of_mem_closingKinds hkind
  rw [State.read?, State.read?, finish_name, finish_after, take_name hparen, take_after,
    resolveName_of_some hvalue]
  rfl

theorem completes_closingTokens (frames : List Frame) (operand : Expr) :
    State.Completes ⟨frames, .after operand⟩ [] (closingTokens frames) := by
  induction frames generalizing operand with
  | nil =>
      refine ⟨.atEnd rfl, ?_, operand, rfl⟩
      rintro t ht hnumber
      rw [List.mem_singleton.mp ht] at hnumber
      cases hnumber
  | cons frame frames ih =>
      obtain ⟨token, ts, htokens, hkind, -⟩ := exists_closingTokens_eq frames operand
      cases frame with
      | group => exact .cons (by decide) (fun h => by cases h) rfl (ih _)
      | array offset items => exact .cons (by decide) (fun h => by cases h) rfl (ih _)
      | call offset name args => exact .cons (by decide) (fun h => by cases h) rfl (ih _)
      -- an open operator has no closing token; that of the frame around it completes it
      | minus offset =>
          apply (ih (.unary offset .negation operand)).congr
          rw [htokens]
          exact read?_after_congr hkind (complete_minus 0 offset) ts
      | binary offset op left =>
          apply (ih (.binary offset op left operand)).congr
          rw [htokens]
          exact read?_after_congr hkind (complete_binary_of_le (Nat.zero_le _)) ts

/-! ### Missing operands -/

def zeroToken : Token := ⟨.number, "0", 0⟩

theorem completes_zero (htake : state.take zeroToken = takeOperand state.frames zeroToken) :
    state.Completes [] (zeroToken :: closingTokens state.frames) := by
  have hfinite : (Binary64.ofNumeral "0").isFinite = true := by
    decide +kernel
  have hzero : takeOperand state.frames zeroToken =
      .ok ⟨state.frames, .after (.number 0 (Binary64.ofNumeral "0"))⟩ := by
    rw [takeOperand]
    exact if_pos hfinite
  have hnumeral : IsNumeral zeroToken.text.toList := by
    refine .whole ?_ (List.cons_ne_nil '0' [])
    exact List.forall_mem_singleton.mpr rfl
  exact .cons (by decide) (fun _ => hnumeral) (htake.trans hzero) (completes_closingTokens _ _)

def openingParen : Token := ⟨.leftParen, "(", 0⟩

theorem completes_call (frames : List Frame) (offset : Nat) (name : String) :
    State.Completes ⟨frames, .name offset name⟩ []
      (openingParen :: closingParen :: closingTokens frames) := by
  have hclosing : State.Completes ⟨.call offset name [] :: frames, .list⟩ []
      (closingParen :: closingTokens frames) :=
    .cons (by decide) (fun h => by cases h) rfl (completes_closingTokens frames _)
  exact .cons (by decide) (fun h => by cases h) rfl hclosing

theorem closing?_ne_number (frames : List Frame) : closing? frames ≠ some .number := by
  rcases frames with _ | ⟨_ | _ | _ | _ | _, frames⟩
  all_goals rintro ⟨⟩

theorem exists_close_of_closing? {kind : TokenKind} (h : closing? frames = some kind) :
    ∃ next, close [] frames = some next := by
  rcases frames with _ | ⟨_ | _ | _ | _ | _, frames⟩
  all_goals first | exact ⟨_, rfl⟩ | cases h

/-! ## Faults -/

theorem fault_of_refuses_start
    (hdeep : e.fault ≠ .tooDeep) (hrange : e.fault ≠ .outOfRange)
    (h : State.Refuses ⟨frames, .start⟩ token e) :
    level frames ≤ maxNesting ∧ e.fault = .unexpected operandStart := by
  rcases h with ⟨-, hfinish⟩ | ⟨-, htake⟩
  · rcases finish_start_eq_error hfinish with rfl | ⟨hlevel, rfl⟩
    · exact absurd rfl hdeep
    · exact ⟨hlevel, rfl⟩
  · rcases takeStart_eq_error htake with rfl | ⟨hlevel, hoperand⟩
    · exact absurd rfl hdeep
    · rcases takeOperand_eq_error hoperand with rfl | rfl | rfl
      · exact absurd rfl hdeep
      · exact absurd rfl hrange
      · exact ⟨hlevel, rfl⟩

theorem State.Refuses.start_of_list (h : State.Refuses ⟨frames, .list⟩ token e) :
    State.Refuses ⟨frames, .start⟩ token e := by
  rcases h with ⟨hkind, hfinish⟩ | ⟨hkind, htake⟩
  · exact Or.inl ⟨hkind, hfinish⟩
  · by_cases hclosing : closing? frames = some token.kind
    · obtain ⟨next, hnext⟩ := exists_close_of_closing? hclosing
      simp only [State.take, if_pos hclosing, hnext] at htake
      cases htake
    · rw [take_list hclosing] at htake
      exact Or.inr ⟨hkind, htake⟩

theorem fault_of_refuses_operand
    (hdeep : e.fault ≠ .tooDeep) (hrange : e.fault ≠ .outOfRange)
    (h : State.Refuses ⟨frames, .operand⟩ token e) : e.fault = .unexpected operandStart := by
  rcases h with ⟨-, hfinish⟩ | ⟨-, htake⟩
  · cases hfinish
    rfl
  · rcases takeOperand_eq_error htake with rfl | rfl | rfl
    · exact absurd rfl hdeep
    · exact absurd rfl hrange
    · rfl

theorem fault_of_refuses_after
    (hdeep : e.fault ≠ .tooDeep) (h : State.Refuses ⟨frames, .after operand⟩ token e) :
    e.fault = .unexpected (closers (complete 0 operand frames).2) := by
  rcases h with ⟨-, hfinish⟩ | ⟨-, htake⟩
  · rw [finishAfter_eq_error hfinish]
  · rcases takeAfter_eq_error htake with rfl | rfl
    · exact absurd rfl hdeep
    · rfl

/-- A refusal after a name is that of an uncalled name, or that of a refusal after a constant. -/
theorem refuses_name_cases {offset : Nat} {name : String}
    (h : State.Refuses ⟨frames, .name offset name⟩ token e) :
    e.fault = .uncalled name ∨
      ∃ value, namedConstant? name = some value ∧
        State.Refuses ⟨frames, .after (.number offset value)⟩ token e := by
  have hparen : token.kind ≠ .leftParen := by
    intro hparen
    rcases h with ⟨hkind, -⟩ | ⟨-, htake⟩
    · rw [hparen] at hkind
      cases hkind
    · rw [take_name_paren hparen] at htake
      cases htake
  rw [State.Refuses, finish_name, take_name hparen] at h
  obtain ⟨value, hvalue, hresolve⟩ | hresolve := resolveName_cases name token
  · rw [hresolve] at h
    exact Or.inr ⟨value, hvalue, h⟩
  · rw [hresolve] at h
    rcases h with ⟨-, hrefused⟩ | ⟨-, hrefused⟩
    all_goals
      cases hrefused
      exact Or.inl rfl

/-! ## What may stand instead -/

theorem exists_completes_of_operand
    (htake : state.take zeroToken = takeOperand state.frames zeroToken)
    (hfault : e.fault = .unexpected operandStart) :
    ∃ next us, state.Completes [] (next :: us) ∧ next.kind ∈ e.fault.expected := by
  refine ⟨_, _, completes_zero htake, ?_⟩
  rw [hfault]
  decide

theorem exists_completes_of_closer
    (hread : ∀ token ts, token.kind ∈ closingKinds →
      state.read? (token :: ts) = State.read? ⟨frames, .after operand⟩ (token :: ts))
    (hfault : e.fault = .unexpected (closers (complete 0 operand frames).2)) :
    ∃ next us, state.Completes [] (next :: us) ∧ next.kind ∈ e.fault.expected := by
  obtain ⟨next, us, htokens, hkind, hexpected⟩ := exists_closingTokens_eq frames operand
  have hcompletes := completes_closingTokens frames operand
  rw [htokens] at hcompletes
  refine ⟨next, us, hcompletes.congr (hread next us hkind), ?_⟩
  rw [hfault]
  exact hexpected

/-- A state that refuses a token has a completion that starts with an expected one. -/
theorem State.Refuses.exists_completes
    (hdeep : e.fault ≠ .tooDeep) (hrange : e.fault ≠ .outOfRange) (h : state.Refuses token e) :
    ∃ next us, state.Completes [] (next :: us) ∧ next.kind ∈ e.fault.expected := by
  obtain ⟨frames, phase⟩ := state
  cases phase with
  | start =>
      obtain ⟨hlevel, hfault⟩ := fault_of_refuses_start hdeep hrange h
      exact exists_completes_of_operand (takeStart_of_le hlevel) hfault
  | list =>
      obtain ⟨hlevel, hfault⟩ := fault_of_refuses_start hdeep hrange h.start_of_list
      have htake : State.take ⟨frames, .list⟩ zeroToken = takeStart frames zeroToken :=
        take_list (closing?_ne_number frames)
      exact exists_completes_of_operand (htake.trans (takeStart_of_le hlevel)) hfault
  | operand =>
      exact exists_completes_of_operand rfl (fault_of_refuses_operand hdeep hrange h)
  | name offset name =>
      rcases refuses_name_cases h with hfault | ⟨value, hvalue, hafter⟩
      · refine ⟨_, _, completes_call frames offset name, ?_⟩
        rw [hfault]
        exact List.mem_singleton_self _
      · apply exists_completes_of_closer _ (fault_of_refuses_after hdeep hafter)
        exact fun token ts hkind => read?_name hkind hvalue ts
  | after operand =>
      exact exists_completes_of_closer (fun _ _ _ => rfl) (fault_of_refuses_after hdeep h)

/-- The reader, which agrees with `Expr.ofTokens` on tokenized sources, refuses the first token that
makes the tokens up to it the start of no expression.  Whatever follows that token, it is refused
with the same error.  The tokens before it can be completed, and then go on with a kind of token
that the error expects, unless the refused token nests too deeply or is a number out of range. -/
theorem refuses_first_impossible :
    (∀ ts : Tokens, (∀ t ∈ ts.tokens, t.kind ≠ .endOfInput) →
      parse? ts.withEnd = some (Expr.ofTokens ts)) ∧
    ∀ (ts : List Token) (e : ParseError), parse? ts = some (.error e) →
      ∃ before after, ts = before ++ e.token :: after ∧ parse? before = none ∧
        (∀ us, parse? (before ++ e.token :: us) = some (.error e)) ∧
        (e.fault ≠ .tooDeep → e.fault ≠ .outOfRange →
          ∃ next us, State.initial.Completes before (next :: us) ∧
            next.kind ∈ e.fault.expected) := by
  refine ⟨fun ts => parse?_withEnd, ?_⟩
  intro ts e h
  obtain ⟨before, state, after, hts, htakes, hrefuses⟩ := exists_refuses_of_read? h
  refine ⟨before, after, hts, ?_, ?_, ?_⟩
  · have hbefore := htakes.read?_append []
    rwa [List.append_nil] at hbefore
  · intro us
    rw [parse?, htakes.read?_append]
    exact hrefuses.read? us
  · intro hdeep hrange
    obtain ⟨next, us, hcompletes, hexpected⟩ := State.Refuses.exists_completes hdeep hrange hrefuses
    exact ⟨next, us, htakes.completes hcompletes, hexpected⟩

/-- The source `f([g() + )` lacks an operand, and is refused where it closes a call inside of an
array. -/
theorem refuses_first_impossible_missing_operand :
    let ts : Tokens :=
      ⟨[⟨.identifier, "f", 0⟩, ⟨.leftParen, "(", 1⟩, ⟨.leftBracket, "[", 2⟩, ⟨.identifier, "g", 3⟩,
        ⟨.leftParen, "(", 4⟩, ⟨.rightParen, ")", 5⟩, ⟨.plus, "+", 7⟩, ⟨.rightParen, ")", 9⟩], 10⟩
    let e : ParseError := ⟨⟨.rightParen, ")", 9⟩, .unexpected operandStart⟩
    tokenize "f([g() + )" = .ok ts ∧ Expr.ofTokens ts = .error e ∧
      ∃ before after, ts.withEnd = before ++ e.token :: after ∧ parse? before = none ∧
        ∃ next us, State.initial.Completes before (next :: us) ∧ next.kind ∈ operandStart := by
  intro ts e
  have htokens : tokenize "f([g() + )" = .ok ts := by
    decide +kernel
  have hread : Expr.ofTokens ts = .error e := rfl
  have hwellFormed := wellFormed_of_tokenize htokens
  have hparse := refuses_first_impossible.1 ts fun t ht => (hwellFormed t ht).kind_ne
  rw [hread] at hparse
  obtain ⟨before, after, hts, hbefore, -, hcompletion⟩ :=
    refuses_first_impossible.2 ts.withEnd e hparse
  refine ⟨htokens, hread, before, after, hts, hbefore, ?_⟩
  exact hcompletion (by decide) (by decide)

end Parser

end StackCalc
