import Mathlib
import StackCalc.Proofs.Parser.Completeness

/-!
# Only expressions of the grammar are read

Every reachable state of the reader accounts for the tokens taken so far: its frames are the rules
whose last part is still open, and its operand is a phrase that stands inside them.  Completing an
operator applies a rule of the grammar, and so does closing a bracket.  When the end of the input
is accepted no frame is left, and the operand is derived from all tokens.

Together with the completeness of the reader this makes the grammar and the reader agree.
-/

namespace StackCalc

namespace Parser

variable {frames : List Frame} {operand e left right : Expr} {token : Token}
  {ts mid rest start : List Token} {atEnd : Token} {c d : Category} {op : BinaryOperator}

/-! ## Open rules -/

/-- The tokens from `inside` to `here` are the items of a list with a comma after each. -/
def ItemsBefore (n : Nat) (inside here : List Token) (items : List Expr) : Prop :=
  items = [] ∧ inside = here ∨
    items ≠ [] ∧ ∃ separator : Token, separator.kind = .comma ∧
      DerivesItems maxNesting n inside (separator :: here) items

theorem ItemsBefore.add {n : Nat} {inside here : List Token} {items : List Expr}
    (hitems : ItemsBefore n inside here items)
    (hlevel : n ≤ maxNesting)
    (h : Derives maxNesting .sum n here rest e) :
    DerivesItems maxNesting n inside rest (items ++ [e]) := by
  rcases hitems with ⟨rfl, rfl⟩ | ⟨hne, separator, hseparator, hitems⟩
  · exact .one hlevel h
  · exact .more separator hseparator hne hitems hlevel h

/-- Reading `ts` up to `here` has opened the frames; their innermost phrase starts at `here`. -/
inductive Opened (ts : List Token) : List Frame → List Token → Prop where
  | whole : Opened ts [] ts
  | group {frames here} (opening : Token) :
      opening.kind = .leftParen →
      Opened ts frames (opening :: here) →
      Opened ts (.group :: frames) here
  | array {frames inside here items} (opening : Token) :
      opening.kind = .leftBracket →
      Opened ts frames (opening :: inside) →
      ItemsBefore (level frames + 1) inside here items.reverse →
      Opened ts (.array opening.offset items :: frames) here
  | call {frames inside here args} (name opening : Token) :
      name.kind = .identifier →
      opening.kind = .leftParen →
      Opened ts frames (name :: opening :: inside) →
      ItemsBefore (level frames + 1) inside here args.reverse →
      Opened ts (.call name.offset name.text args :: frames) here
  | binary {frames start here op left} (sign : Token) :
      operator? sign.kind = some op →
      demand frames ≤ op.category.rank →
      Opened ts frames start →
      Derives maxNesting op.leftCategory (level frames) start (sign :: here) left →
      Opened ts (.binary sign.offset op left :: frames) here
  | minus {frames here} (sign : Token) :
      sign.kind = .minus →
      Opened ts frames (sign :: here) →
      Opened ts (.minus sign.offset :: frames) here

/-- Inside the frames opened by `ts`, the tokens up to `rest` are a phrase that denotes
`operand`. -/
def Holds (ts rest : List Token) (c : Category) (frames : List Frame) (operand : Expr) : Prop :=
  level frames ≤ maxNesting ∧
    ∃ start, Opened ts frames start ∧ Derives maxNesting c (level frames) start rest operand

theorem Holds.loosen
    (h : Holds ts rest c frames operand)
    (hrank : d.rank ≤ c.rank) :
    Holds ts rest d frames operand := by
  obtain ⟨hlevel, start, hopened, hderives⟩ := h
  exact ⟨hlevel, start, hopened, hderives.loosen hrank⟩

/-! ## Completing operators -/

theorem demand_le_signed (frames : List Frame) : demand frames ≤ Category.signed.rank := by
  rcases frames with _ | ⟨frame, frames⟩
  · decide
  · cases frame with
    | group | array | call =>
        change Category.sum.rank ≤ Category.signed.rank
        decide
    | minus => exact le_rfl
    | binary offset op left =>
        change op.rightCategory.rank ≤ Category.signed.rank
        cases op <;> decide

/-- No operator inside the frames binds at least as tightly as `b`. -/
def Stops (b : Nat) : List Frame → Prop
  | .minus _ :: _ => False
  | .binary _ op _ :: _ => strength op < b
  | _ => True

/-- After completion at its bound, an operator's result may stand inside the frames. -/
theorem Stops.demand_le (h : Stops (bound op) frames) : demand frames ≤ op.category.rank := by
  have hsum : Category.sum.rank ≤ op.category.rank := by
    cases op <;> decide
  rcases frames with _ | ⟨frame, frames⟩
  · exact hsum
  · cases frame with
    | group | array | call => exact hsum
    | minus => exact False.elim h
    | binary offset op' left =>
        change strength op' < bound op at h
        change op'.rightCategory.rank ≤ op.category.rank
        revert h
        cases op <;> cases op' <;> decide

/-- Completing open operators applies their rules. -/
theorem Holds.complete {b : Nat} (hb : b ≤ Category.signed.rank)
    (h : Holds ts rest c frames operand)
    (hdemand : demand frames ≤ c.rank)
    (hc : b ≤ c.rank) :
    ∃ c', b ≤ c'.rank ∧
      Holds ts rest c' (complete b operand frames).2 (complete b operand frames).1 ∧
      Stops b (complete b operand frames).2 := by
  induction frames generalizing c operand with
  | nil => exact ⟨c, hc, h, trivial⟩
  | cons frame frames ih =>
      obtain ⟨hlevel, start, hopened, hderives⟩ := h
      cases frame with
      | group | array | call => exact ⟨c, hc, ⟨hlevel, start, hopened, hderives⟩, trivial⟩
      | minus offset =>
          rw [level_of_nests rfl] at hlevel hderives
          cases hopened with
          | minus sign hsign hopened =>
              rw [complete_minus]
              apply ih (c := .signed) _ (demand_le_signed frames) hb
              refine ⟨by omega, sign :: start, hopened, ?_⟩
              exact .signed sign hsign hlevel (hderives.loosen hdemand)
      | binary offset op left =>
          by_cases hstrength : b ≤ strength op
          · rw [complete_binary_of_le hstrength]
            rw [level_binary] at hlevel hderives
            cases hopened with
            | binary sign hop hfits hopened hleft =>
                apply ih (c := op.category) _ hfits (by rwa [rank_category])
                refine ⟨le_trans (by split <;> omega) hlevel, _, hopened, ?_⟩
                refine .binary sign hop ?_ hleft (hderives.loosen hdemand)
                intro hpower
                rwa [if_pos hpower] at hlevel
          · have hstops : strength op < b := by omega
            rw [complete_binary_of_lt hstops]
            exact ⟨c, hc, ⟨hlevel, start, hopened, hderives⟩, hstops⟩

/-! ## States -/

/-- The tokens of `ts` before `rest` are accounted for by the frames and the phase of a state. -/
def Reached (ts rest : List Token) (state : State) : Prop :=
  match state.phase with
  | .start => Opened ts state.frames rest
  | .list => Opened ts state.frames rest ∧ level state.frames.tail ≤ maxNesting ∧
      ((∃ offset, state.frames.head? = some (.array offset [])) ∨
        ∃ offset name, state.frames.head? = some (.call offset name []))
  | .operand => Opened ts state.frames rest ∧ level state.frames ≤ maxNesting
  | .name offset name => level state.frames ≤ maxNesting ∧
      ∃ t : Token, t.kind = .identifier ∧ t.offset = offset ∧ t.text = name ∧
        Opened ts state.frames (t :: rest)
  | .after operand => Holds ts rest .factorial state.frames operand

theorem Reached.takeOperand {next : State}
    (hlevel : level frames ≤ maxNesting)
    (hopened : Opened ts frames (token :: rest))
    (htake : takeOperand frames token = .ok next) :
    Reached ts rest next := by
  rw [Parser.takeOperand] at htake
  cases hkind : token.kind with
  | number =>
      simp only [hkind] at htake
      by_cases hfinite : (Binary64.ofNumeral token.text).isFinite = true
      · rw [if_pos hfinite] at htake
        cases htake
        exact ⟨hlevel, _, hopened, .ofPrimary (.number token hkind hfinite)⟩
      · rw [if_neg hfinite] at htake
        cases htake
  | identifier =>
      simp only [hkind] at htake
      cases htake
      exact ⟨hlevel, token, hkind, rfl, rfl, hopened⟩
  | leftParen =>
      simp only [hkind] at htake
      cases htake
      exact .group token hkind hopened
  | leftBracket =>
      simp only [hkind] at htake
      cases htake
      exact ⟨.array token hkind hopened (.inl ⟨rfl, rfl⟩), hlevel, .inl ⟨_, rfl⟩⟩
  | minus =>
      simp only [hkind] at htake
      by_cases hdeep : maxNesting ≤ level frames
      · rw [if_pos hdeep] at htake
        cases htake
      · rw [if_neg hdeep] at htake
        cases htake
        refine ⟨.minus token hkind hopened, ?_⟩
        rw [level_of_nests rfl]
        omega
  | _ =>
      simp only [hkind] at htake
      cases htake

theorem Reached.takeStart {next : State}
    (hopened : Opened ts frames (token :: rest))
    (htake : takeStart frames token = .ok next) :
    Reached ts rest next := by
  rw [Parser.takeStart] at htake
  by_cases hdeep : maxNesting < level frames
  · rw [if_pos hdeep] at htake
    cases htake
  · rw [if_neg hdeep] at htake
    exact Reached.takeOperand (by omega) hopened htake

theorem Reached.addItem {next : State} {item : Expr}
    (hcomma : token.kind = .comma)
    (h : Holds ts (token :: rest) .sum frames item)
    (hadd : addItem item frames = some next) :
    Reached ts rest next := by
  obtain ⟨hlevel, start, hopened, hderives⟩ := h
  cases hopened with
  | array opening hopening hopened hitems =>
      cases hadd
      rw [level_of_nests rfl] at hlevel hderives
      refine .array opening hopening hopened (.inr ⟨by simp, token, hcomma, ?_⟩)
      rw [List.reverse_cons]
      exact hitems.add hlevel hderives
  | call name opening hname hopening hopened hitems =>
      cases hadd
      rw [level_of_nests rfl] at hlevel hderives
      refine .call name opening hname hopening hopened (.inr ⟨by simp, token, hcomma, ?_⟩)
      rw [List.reverse_cons]
      exact hitems.add hlevel hderives
  | _ => cases hadd

theorem Reached.close {next : State} {item : Expr}
    (hcloser : token.kind ∈ closers frames)
    (hcomma : token.kind ≠ .comma)
    (h : Holds ts (token :: rest) .sum frames item)
    (hclose : close [item] frames = some next) :
    Reached ts rest next := by
  obtain ⟨hlevel, start, hopened, hderives⟩ := h
  cases hopened with
  | group opening hopening hopened =>
      cases hclose
      rw [level_of_nests rfl] at hlevel hderives
      have hclosing : token.kind = .rightParen := List.mem_singleton.mp hcloser
      refine ⟨Nat.le_of_succ_le hlevel, _, hopened, ?_⟩
      exact .ofPrimary (.group opening token hopening hclosing hlevel hderives)
  | array opening hopening hopened hitems =>
      cases hclose
      rw [level_of_nests rfl] at hlevel hderives
      have hclosing : token.kind = .rightBracket := by
        simpa [closers, hcomma] using hcloser
      refine ⟨Nat.le_of_succ_le hlevel, _, hopened, ?_⟩
      rw [List.singleton_append, List.reverse_cons]
      exact .ofPrimary (.array opening token hopening hclosing (hitems.add hlevel hderives))
  | call name opening hname hopening hopened hitems =>
      cases hclose
      rw [level_of_nests rfl] at hlevel hderives
      have hclosing : token.kind = .rightParen := by
        simpa [closers, hcomma] using hcloser
      refine ⟨Nat.le_of_succ_le hlevel, _, hopened, ?_⟩
      rw [List.singleton_append, List.reverse_cons]
      exact .ofPrimary (.call name opening token hname hopening hclosing
        (hitems.add hlevel hderives))
  | _ => cases hclose

theorem Reached.takeAfter {next : State}
    (h : Holds ts (token :: rest) .factorial frames operand)
    (htake : takeAfter frames operand token = .ok next) :
    Reached ts rest next := by
  have hdemand : demand frames ≤ Category.factorial.rank :=
    (demand_le_signed frames).trans (by decide)
  by_cases hbang : token.kind = .bang
  · rw [takeAfter_bang hbang] at htake
    cases htake
    obtain ⟨hlevel, start, hopened, hderives⟩ := h
    exact ⟨hlevel, start, hopened, .factorial token hbang hderives⟩
  · cases hop : operator? token.kind with
    | some op =>
        have hbound : bound op ≤ Category.signed.rank := by
          cases op <;> decide
        obtain ⟨c, hc, ⟨hlevel, start, hopened, hderives⟩, hstops⟩ :=
          h.complete hbound hdemand (hbound.trans (by decide))
        rw [takeAfter_operator hop] at htake
        split at htake
        · cases htake
        · rename_i hdeep
          cases htake
          rw [← rank_leftCategory] at hc
          refine ⟨.binary token hop hstops.demand_le hopened (hderives.loosen hc), ?_⟩
          rw [level_binary]
          split
          · rename_i hpower
            exact Nat.lt_of_not_le fun h => hdeep ⟨hpower, h⟩
          · exact hlevel
    | none =>
        obtain ⟨c, -, hholds, hstops⟩ :=
          h.complete (b := 0) (Nat.zero_le _) hdemand (Nat.zero_le _)
        have hsum := hholds.loosen (d := .sum) (by cases c <;> decide)
        rw [takeAfter_closer hbang hop, takeCloser] at htake
        split at htake
        · rename_i state hnext
          cases htake
          split at hnext
          · rename_i hcloser
            split at hnext
            · exact Reached.addItem ‹_› hsum hnext
            · exact Reached.close hcloser ‹_› hsum hnext
          · cases hnext
        · cases htake

theorem Reached.closeEmpty {next : State}
    (hopened : Opened ts frames (token :: rest))
    (hlevel : level frames.tail ≤ maxNesting)
    (hempty : (∃ offset, frames.head? = some (.array offset [])) ∨
      ∃ offset name, frames.head? = some (.call offset name []))
    (hkind : closing? frames = some token.kind)
    (hclose : Parser.close [] frames = some next) :
    Reached ts rest next := by
  cases hopened with
  | array opening hopening hopened hitems =>
      cases hclose
      obtain ⟨-, ⟨⟩⟩ | ⟨-, -, ⟨⟩⟩ := hempty
      have hinside := hitems.resolve_right fun h => h.1 rfl
      rw [hinside.2] at hopened
      refine ⟨hlevel, _, hopened, ?_⟩
      exact .ofPrimary (.array opening token hopening (Option.some.inj hkind).symm .none)
  | call name opening hname hopening hopened hitems =>
      cases hclose
      obtain ⟨-, ⟨⟩⟩ | ⟨-, -, ⟨⟩⟩ := hempty
      have hinside := hitems.resolve_right fun h => h.1 rfl
      rw [hinside.2] at hopened
      refine ⟨hlevel, _, hopened, ?_⟩
      exact .ofPrimary (.call name opening token hname hopening (Option.some.inj hkind).symm .none)
  | _ => cases hclose

theorem resolveName_eq_ok {name : String} {value : Binary64}
    (h : resolveName name token = .ok value) : namedConstant? name = some value := by
  rw [resolveName] at h
  cases hvalue : namedConstant? name with
  | none =>
      rw [hvalue] at h
      cases h
  | some found =>
      rw [hvalue] at h
      cases h
      rfl

theorem Holds.of_name {name : Token} {value : Binary64}
    (hlevel : level frames ≤ maxNesting)
    (hkind : name.kind = .identifier)
    (hopened : Opened ts frames (name :: rest))
    (hvalue : namedConstant? name.text = some value)
    (hrest : NotCalled rest) :
    Holds ts rest .factorial frames (.number name.offset value) :=
  ⟨hlevel, _, hopened, .ofPrimary (.constant name hkind hvalue hrest)⟩

/-- Taking a token accounts for it. -/
theorem Reached.take {state next : State}
    (h : Reached ts (token :: rest) state)
    (htake : state.take token = .ok next) :
    Reached ts rest next := by
  obtain ⟨frames, phase⟩ := state
  cases phase with
  | start => exact Reached.takeStart h htake
  | list =>
      obtain ⟨hopened, hlevel, hempty⟩ := h
      by_cases hkind : closing? frames = some token.kind
      · simp only [State.take] at htake
        rw [if_pos hkind] at htake
        split at htake
        · cases htake
          exact Reached.closeEmpty hopened hlevel hempty hkind ‹_›
        · cases htake
      · rw [take_list hkind] at htake
        exact Reached.takeStart hopened htake
  | operand =>
      obtain ⟨hopened, hlevel⟩ := h
      exact Reached.takeOperand hlevel hopened htake
  | name offset name =>
      obtain ⟨hlevel, t, hkind, rfl, rfl, hopened⟩ := h
      by_cases hparen : token.kind = .leftParen
      · rw [take_name_paren hparen] at htake
        cases htake
        exact ⟨.call t token hkind hparen hopened (.inl ⟨rfl, rfl⟩), hlevel, .inr ⟨_, _, rfl⟩⟩
      · rw [take_name hparen] at htake
        cases hvalue : resolveName t.text token with
        | error e =>
            rw [hvalue] at htake
            cases htake
        | ok value =>
            rw [hvalue] at htake
            have hrest : NotCalled (token :: rest) := by
              rintro u ⟨⟩
              exact hparen
            exact Reached.takeAfter
              (Holds.of_name hlevel hkind hopened (resolveName_eq_ok hvalue) hrest) htake
  | after operand => exact Reached.takeAfter h htake

theorem Holds.finish
    (h : Holds ts [] .factorial frames operand)
    (hfinish : finishAfter frames operand token = .ok e) :
    Derives maxNesting .sum 1 ts [] e := by
  have hdemand : demand frames ≤ Category.factorial.rank :=
    (demand_le_signed frames).trans (by decide)
  obtain ⟨c, -, ⟨hlevel, start, hopened, hderives⟩, hstops⟩ :=
    h.complete (b := 0) (Nat.zero_le _) hdemand (Nat.zero_le _)
  rw [finishAfter] at hfinish
  split at hfinish
  · rename_i whole hcomplete
    cases hfinish
    rw [hcomplete] at hopened hderives
    cases hopened
    exact hderives.loosen (by cases c <;> decide)
  · cases hfinish

/-- The end of the input is accepted after an expression only. -/
theorem Reached.finish {state : State}
    (h : Reached ts [] state)
    (hfinish : state.finish token = .ok e) :
    Derives maxNesting .sum 1 ts [] e := by
  obtain ⟨frames, phase⟩ := state
  cases phase with
  | start | list =>
      simp only [State.finish] at hfinish
      split at hfinish <;> cases hfinish
  | operand => cases hfinish
  | name offset name =>
      obtain ⟨hlevel, t, hkind, rfl, rfl, hopened⟩ := h
      simp only [State.finish] at hfinish
      cases hvalue : resolveName t.text token with
      | error e =>
          rw [hvalue] at hfinish
          cases hfinish
      | ok value =>
          rw [hvalue] at hfinish
          have hrest : NotCalled [] := by
            rintro u ⟨⟩
          exact (Holds.of_name hlevel hkind hopened (resolveName_eq_ok hvalue) hrest).finish hfinish
  | after operand => exact Holds.finish h hfinish

/-- An accepted run reads an expression. -/
theorem Reached.run {state : State}
    (h : Reached ts rest state)
    (hrun : state.run rest atEnd = .ok e) :
    Derives maxNesting .sum 1 ts [] e := by
  induction rest generalizing state with
  | nil => exact h.finish hrun
  | cons token rest ih =>
      rw [State.run] at hrun
      cases htake : state.take token with
      | error e =>
          rw [htake] at hrun
          cases hrun
      | ok next =>
          rw [htake] at hrun
          exact ih (h.take htake) hrun

end Parser

theorem Expr.ofTokens_eq_ok_iff_derives {ts : Tokens} {e : Expr} :
    Expr.ofTokens ts = .ok e ↔ Derives maxNesting .sum 1 ts.tokens [] e := by
  constructor
  · intro h
    have hinitial : Parser.Reached ts.tokens ts.tokens .initial := .whole
    exact hinitial.run h
  · intro h
    exact Parser.run_of_derives h

/-- The reader accepts exactly the expressions of the grammar, with the trees they denote, and no
token list denotes two trees. -/
theorem Expr.ofTokens_iff_derives (ts : Tokens) :
    (∀ e, Expr.ofTokens ts = .ok e ↔ Derives maxNesting .sum 1 ts.tokens [] e) ∧
      ∀ e e', Derives maxNesting .sum 1 ts.tokens [] e →
        Derives maxNesting .sum 1 ts.tokens [] e' → e = e' := by
  refine ⟨fun e => ofTokens_eq_ok_iff_derives, ?_⟩
  intro e e' h h'
  rw [← ofTokens_eq_ok_iff_derives] at h h'
  exact Except.ok.inj (h.symm.trans h')

end StackCalc
