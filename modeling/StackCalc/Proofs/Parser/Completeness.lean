import Mathlib
import StackCalc.Proofs.Parser.Frames

/-!
# Every expression of the grammar is read

Reading a phrase inside open frames comes to its end with some operand and some frames, from which
completing the open operators gives the phrase inside the frames at the start.  Each rule of the
grammar preserves this, so it holds of every derivation.  At the end of the input everything is
completed, and the tree of the whole derivation is left.
-/

namespace StackCalc

namespace Parser

variable {frames : List Frame} {operand e left right : Expr} {token : Token}
  {ts mid rest : List Token} {atEnd : Token} {c d : Category} {op : BinaryOperator}

/-! ## Runs over single tokens -/

theorem run_cons_ok {state next : State} (h : state.take token = .ok next) :
    state.run (token :: ts) atEnd = next.run ts atEnd := by
  rw [State.run, h]
  rfl

theorem run_start (h : level frames ≤ maxNesting) :
    State.run ⟨frames, .start⟩ (token :: ts) atEnd =
      State.run ⟨frames, .operand⟩ (token :: ts) atEnd := by
  rw [State.run, State.run, take_start, takeStart_of_le h, take_operand]

theorem run_list (h : level frames ≤ maxNesting) (hopen : closing? frames ≠ some token.kind) :
    State.run ⟨frames, .list⟩ (token :: ts) atEnd =
      State.run ⟨frames, .operand⟩ (token :: ts) atEnd := by
  rw [State.run, State.run, take_list hopen, takeStart_of_le h, take_operand]

theorem run_name {offset : Nat} {name : String} {value : Binary64}
    (hvalue : namedConstant? name = some value) (hrest : NotCalled rest) :
    State.run ⟨frames, .name offset name⟩ rest atEnd =
      State.run ⟨frames, .after (.number offset value)⟩ rest atEnd := by
  cases rest with
  | nil =>
      simp only [State.run, State.finish]
      rw [resolveName_of_some hvalue]
      rfl
  | cons token rest =>
      have hkind : token.kind ≠ .leftParen := hrest token rfl
      rw [State.run, State.run, take_name hkind, resolveName_of_some hvalue, take_after]
      rfl

theorem run_operator {inner : List Frame}
    (hop : operator? token.kind = some op)
    (hcomplete : complete (bound op) operand inner = (left, frames))
    (hlevel : op = .power → level frames + 1 ≤ maxNesting) :
    State.run ⟨inner, .after operand⟩ (token :: ts) atEnd =
      State.run ⟨.binary token.offset op left :: frames, .operand⟩ ts atEnd := by
  apply run_cons_ok
  rw [take_after, takeAfter_operator hop, hcomplete]
  simp only
  rw [if_neg]
  rintro ⟨hpower, hdeep⟩
  have := hlevel hpower
  omega

theorem run_closer (frames : List Frame) (item : Expr) {inner : List Frame} {next : State}
    (hkind : token.kind ∈ [TokenKind.comma, .rightParen, .rightBracket])
    (hcomplete : complete 0 operand inner = (item, frames))
    (hcloser : token.kind ∈ closers frames)
    (hnext : (if token.kind = .comma then addItem item frames else close [item] frames) =
      some next) :
    State.run ⟨inner, .after operand⟩ (token :: ts) atEnd = next.run ts atEnd := by
  have hbang : token.kind ≠ .bang := by
    intro h
    rw [h] at hkind
    revert hkind
    decide
  have hop : operator? token.kind = none := by
    simp only [List.mem_cons, List.not_mem_nil, or_false] at hkind
    rcases hkind with h | h | h <;> rw [h] <;> rfl
  apply run_cons_ok
  rw [take_after, takeAfter_closer hbang hop, hcomplete, takeCloser]
  simp only
  rw [if_pos hcloser, hnext]

/-! ## Phrases -/

/-- Reading the tokens of `ts` before `rest` inside the frames reads the phrase `e`: operators up
to the tightness of its category complete it.  A phrase as tight as a factorial is complete. -/
def Reads (c : Category) (frames : List Frame) (ts rest : List Token) (e : Expr) : Prop :=
  ∃ inner operand,
    (∀ atEnd, State.run ⟨frames, .operand⟩ ts atEnd =
      State.run ⟨inner, .after operand⟩ rest atEnd) ∧
    (∀ b ≤ c.rank, complete b operand inner = complete b e frames) ∧
    (Category.factorial.rank ≤ c.rank → inner = frames ∧ operand = e)

theorem Reads.loosen
    (h : Reads c frames ts rest e)
    (hrank : d.rank ≤ c.rank) :
    Reads d frames ts rest e := by
  obtain ⟨inner, operand, hrun, hcomplete, htight⟩ := h
  refine ⟨inner, operand, hrun, ?_, ?_⟩
  · intro b hb
    exact hcomplete b (hb.trans hrank)
  · intro hd
    exact htight (hd.trans hrank)

theorem Reads.of_run
    (h : ∀ atEnd, State.run ⟨frames, .operand⟩ ts atEnd = State.run ⟨frames, .after e⟩ rest atEnd) :
    Reads c frames ts rest e :=
  ⟨frames, e, h, fun _ _ => rfl, fun _ => ⟨rfl, rfl⟩⟩

/-- Before an operator whose result may stand inside the frames, its left operand is complete. -/
theorem Reads.exists_left {sign : Token}
    (h : Reads op.leftCategory frames ts (sign :: mid) left)
    (hdemand : demand frames ≤ op.category.rank) :
    ∃ inner operand,
      (∀ atEnd, State.run ⟨frames, .operand⟩ ts atEnd =
        State.run ⟨inner, .after operand⟩ (sign :: mid) atEnd) ∧
      complete (bound op) operand inner = (left, frames) := by
  obtain ⟨inner, operand, hrun, hcomplete, -⟩ := h
  rw [rank_category] at hdemand
  rw [rank_leftCategory] at hcomplete
  refine ⟨inner, operand, hrun, ?_⟩
  rw [hcomplete _ le_rfl, complete_bound hdemand]

theorem Reads.run_operator {sign : Token}
    (h : Reads op.leftCategory frames ts (sign :: mid) left)
    (hop : operator? sign.kind = some op)
    (hlevel : op = .power → level frames + 1 ≤ maxNesting)
    (hdemand : demand frames ≤ op.category.rank) :
    State.run ⟨frames, .operand⟩ ts atEnd =
      State.run ⟨.binary sign.offset op left :: frames, .operand⟩ mid atEnd := by
  obtain ⟨inner, operand, hrun, hstops⟩ := h.exists_left hdemand
  rw [hrun, Parser.run_operator hop hstops hlevel]

theorem Reads.binary (sign : Token)
    (hop : operator? sign.kind = some op)
    (hlevel : op = .power → level frames + 1 ≤ maxNesting)
    (hdemand : demand frames ≤ op.category.rank)
    (hleft : Reads op.leftCategory frames ts (sign :: mid) left)
    (hright : Reads op.rightCategory (.binary sign.offset op left :: frames) mid rest right) :
    Reads op.category frames ts rest (.binary sign.offset op left right) := by
  obtain ⟨inner, operand, hrun, hcomplete, -⟩ := hright
  refine ⟨inner, operand, ?_, ?_, ?_⟩
  · intro atEnd
    rw [hleft.run_operator hop hlevel hdemand, hrun]
  · intro b hb
    rw [rank_category] at hb
    -- the operator is not completed itself while its right operand is
    have hb' : b ≤ op.rightCategory.rank := hb.trans (by cases op <;> decide)
    rw [hcomplete b hb', complete_binary_of_le hb]
  · intro h
    exact absurd h (by cases op <;> decide)

theorem Reads.minus (sign : Token)
    (hsign : sign.kind = .minus)
    (hlevel : level frames + 1 ≤ maxNesting)
    (h : Reads .signed (.minus sign.offset :: frames) ts rest operand) :
    Reads .signed frames (sign :: ts) rest (.unary sign.offset .negation operand) := by
  obtain ⟨inner, operand', hrun, hcomplete, -⟩ := h
  have htake : State.take ⟨frames, .operand⟩ sign =
      .ok ⟨.minus sign.offset :: frames, .operand⟩ := by
    rw [take_operand, takeOperand, hsign]
    simp only
    rw [if_neg (by omega)]
  refine ⟨inner, operand', ?_, ?_, ?_⟩
  · intro atEnd
    rw [run_cons_ok htake, hrun]
  · intro b hb
    rw [hcomplete b hb, complete_minus]
  · intro h
    exact absurd h (by decide)

theorem Reads.factorial (mark : Token)
    (hmark : mark.kind = .bang)
    (h : Reads .factorial frames ts (mark :: rest) operand) :
    Reads .factorial frames ts rest (.unary mark.offset .factorial operand) := by
  obtain ⟨inner, operand', hrun, -, htight⟩ := h
  obtain ⟨rfl, rfl⟩ := htight le_rfl
  apply Reads.of_run
  intro atEnd
  rw [hrun]
  apply run_cons_ok
  rw [take_after, takeAfter_bang hmark]

theorem Reads.number (numeral : Token)
    (hkind : numeral.kind = .number)
    (hfinite : (Binary64.ofNumeral numeral.text).isFinite = true) :
    Reads .primary frames (numeral :: rest) rest
      (.number numeral.offset (Binary64.ofNumeral numeral.text)) := by
  apply Reads.of_run
  intro atEnd
  apply run_cons_ok
  rw [take_operand, takeOperand, hkind]
  simp only
  rw [if_pos hfinite]

theorem Reads.constant {value : Binary64} (name : Token)
    (hkind : name.kind = .identifier)
    (hvalue : namedConstant? name.text = some value)
    (hrest : NotCalled rest) :
    Reads .primary frames (name :: rest) rest (.number name.offset value) := by
  apply Reads.of_run
  intro atEnd
  rw [← run_name hvalue hrest]
  apply run_cons_ok
  rw [take_operand, takeOperand, hkind]

theorem Reads.group (opening closing : Token)
    (hopening : opening.kind = .leftParen)
    (hclosing : closing.kind = .rightParen)
    (hlevel : level frames + 1 ≤ maxNesting)
    (hstarts : ts ≠ [])
    (h : Reads .sum (.group :: frames) ts (closing :: rest) e) :
    Reads .primary frames (opening :: ts) rest e := by
  obtain ⟨inner, operand, hrun, hcomplete, -⟩ := h
  obtain ⟨first, ts, rfl⟩ := List.exists_cons_of_ne_nil hstarts
  have htake : State.take ⟨frames, .operand⟩ opening = .ok ⟨.group :: frames, .start⟩ := by
    rw [take_operand, takeOperand, hopening]
  have hlevel' : level (.group :: frames) ≤ maxNesting := by
    rw [level_cons]
    exact hlevel
  apply Reads.of_run
  intro atEnd
  rw [run_cons_ok htake, run_start hlevel', hrun]
  apply run_closer (.group :: frames) e
  · rw [hclosing]
    decide
  · rw [hcomplete 0 (Nat.zero_le _)]
    rfl
  · rw [hclosing]
    exact List.mem_singleton_self _
  · rw [if_neg (by rw [hclosing]; decide)]
    rfl

/-! ## Lists -/

/-- The frames of a kind of list, the token kind that closes it and the expression it builds. -/
structure IsList (opened : List Expr → Frame) (closing : TokenKind) (build : List Expr → Expr) :
    Prop where
  kind : closing ∈ [TokenKind.rightParen, .rightBracket]
  nests : ∀ items, (opened items).nests = true
  bracketed : ∀ items frames, Bracketed (opened items :: frames)
  closing? : ∀ items frames, closing? (opened items :: frames) = some closing
  closers : ∀ items frames, closers (opened items :: frames) = [.comma, closing]
  addItem : ∀ item items frames,
    addItem item (opened items :: frames) = some ⟨opened (item :: items) :: frames, .start⟩
  close : ∀ last items frames,
    close last (opened items :: frames) = some ⟨frames, .after (build (last ++ items).reverse)⟩

theorem isList_array (offset : Int) :
    IsList (.array offset) .rightBracket (.array offset) where
  kind := by decide
  nests _ := rfl
  bracketed _ _ := trivial
  closing? _ _ := rfl
  closers _ _ := rfl
  addItem _ _ _ := rfl
  close _ _ _ := rfl

theorem isList_call (offset : Int) (name : String) :
    IsList (.call offset name) .rightParen (.call offset name) where
  kind := by decide
  nests _ := rfl
  bracketed _ _ := trivial
  closing? _ _ := rfl
  closers _ _ := rfl
  addItem _ _ _ := rfl
  close _ _ _ := rfl

variable {opened : List Expr → Frame} {closing : TokenKind} {build : List Expr → Expr}
  {items : List Expr}

/-- Reading the tokens of `ts` before `rest` inside an opened list reads its items, of which the
last is not yet in the list. -/
def ReadsItems (opened : List Expr → Frame) (frames : List Frame) (ts rest : List Token)
    (items : List Expr) : Prop :=
  ∃ init last inner operand,
    items = init ++ [last] ∧
    (∀ atEnd, State.run ⟨opened [] :: frames, .operand⟩ ts atEnd =
      State.run ⟨inner, .after operand⟩ rest atEnd) ∧
    complete 0 operand inner = (last, opened init.reverse :: frames)

theorem ReadsItems.one (hlist : IsList opened closing build)
    (h : Reads .sum (opened [] :: frames) ts rest e) :
    ReadsItems opened frames ts rest [e] := by
  obtain ⟨inner, operand, hrun, hcomplete, -⟩ := h
  refine ⟨[], e, inner, operand, rfl, hrun, ?_⟩
  rw [hcomplete 0 (Nat.zero_le _), complete_of_bracketed (hlist.bracketed _ _)]
  rfl

theorem ReadsItems.run_separator (hlist : IsList opened closing build) {separator : Token}
    (h : ReadsItems opened frames ts (separator :: mid) items)
    (hseparator : separator.kind = .comma)
    (hlevel : level (opened items.reverse :: frames) ≤ maxNesting)
    (hstarts : mid ≠ []) :
    State.run ⟨opened [] :: frames, .operand⟩ ts atEnd =
      State.run ⟨opened items.reverse :: frames, .operand⟩ mid atEnd := by
  obtain ⟨init, last, inner, operand, rfl, hrun, hcomplete⟩ := h
  obtain ⟨first, mid, rfl⟩ := List.exists_cons_of_ne_nil hstarts
  rw [hrun, ← run_start hlevel]
  apply run_closer (opened init.reverse :: frames) last
  · rw [hseparator]
    decide
  · exact hcomplete
  · rw [hseparator, hlist.closers]
    exact List.mem_cons_self
  · rw [if_pos hseparator, hlist.addItem, List.reverse_append]
    rfl

theorem ReadsItems.more (hlist : IsList opened closing build) (separator : Token)
    (hseparator : separator.kind = .comma)
    (hlevel : level (opened items.reverse :: frames) ≤ maxNesting)
    (hitems : ReadsItems opened frames ts (separator :: mid) items)
    (hstarts : mid ≠ [])
    (h : Reads .sum (opened items.reverse :: frames) mid rest e) :
    ReadsItems opened frames ts rest (items ++ [e]) := by
  obtain ⟨inner, operand, hrun, hcomplete, -⟩ := h
  refine ⟨items, e, inner, operand, rfl, ?_, ?_⟩
  · intro atEnd
    rw [hitems.run_separator hlist hseparator hlevel hstarts, hrun]
  · rw [hcomplete 0 (Nat.zero_le _), complete_of_bracketed (hlist.bracketed _ _)]

theorem IsList.closing?_ne (hlist : IsList opened closing build)
    (htoken : token.kind ∈ operandStart) :
    Parser.closing? (opened items :: frames) ≠ some token.kind := by
  have hclosing : closing = .rightParen ∨ closing = .rightBracket := by
    simpa using hlist.kind
  rw [hlist.closing?]
  intro heq
  rw [← Option.some.inj heq] at htoken
  rcases hclosing with h | h <;> rw [h] at htoken <;> revert htoken <;> decide

/-- After its last item a list is closed. -/
theorem ReadsItems.run_list (hlist : IsList opened closing build)
    (htoken : token.kind = closing)
    (hlevel : level (opened [] :: frames) ≤ maxNesting)
    (hstarts : ∃ first ts', ts = first :: ts' ∧ first.kind ∈ operandStart)
    (h : ReadsItems opened frames ts (token :: rest) items) :
    State.run ⟨opened [] :: frames, .list⟩ ts atEnd =
      State.run ⟨frames, .after (build items)⟩ rest atEnd := by
  obtain ⟨init, last, inner, operand, rfl, hrun, hcomplete⟩ := h
  obtain ⟨first, ts, rfl, hfirst⟩ := hstarts
  have hclosing : closing = .rightParen ∨ closing = .rightBracket := by
    simpa using hlist.kind
  rw [Parser.run_list hlevel (hlist.closing?_ne hfirst), hrun]
  apply run_closer (opened init.reverse :: frames) last
  · rw [htoken]
    rcases hclosing with h | h <;> rw [h] <;> decide
  · exact hcomplete
  · rw [htoken, hlist.closers]
    exact List.mem_cons_of_mem _ (List.mem_singleton_self _)
  · rw [if_neg, hlist.close]
    · simp
    · rw [htoken]
      rcases hclosing with h | h <;> rw [h] <;> decide

theorem run_empty_list (hlist : IsList opened closing build) (htoken : token.kind = closing) :
    State.run ⟨opened [] :: frames, .list⟩ (token :: rest) atEnd =
      State.run ⟨frames, .after (build [])⟩ rest atEnd := by
  apply run_cons_ok
  simp only [State.take]
  rw [hlist.closing?, htoken, if_pos rfl, hlist.close]
  rfl

/-! ## Derivations -/

theorem run_list_of_derives {n : Nat}
    (h : DerivesItems maxNesting n ts (token :: rest) items)
    (hlist : IsList opened closing build)
    (htoken : token.kind = closing)
    (hlevel : level frames + 1 = n)
    (hreads : items ≠ [] → ReadsItems opened frames ts (token :: rest) items) :
    State.run ⟨opened [] :: frames, .list⟩ ts atEnd =
      State.run ⟨frames, .after (build items)⟩ rest atEnd := by
  by_cases hitems : items = []
  · subst hitems
    rw [h.eq_of_nil]
    exact run_empty_list hlist htoken
  · apply ReadsItems.run_list hlist htoken
    · rw [level_cons, hlist.nests, if_pos rfl, hlevel]
      exact h.level_le hitems
    · exact h.starts hitems
    · exact hreads hitems

mutual

/-- A derived phrase is read. -/
theorem reads_of_derives {c : Category} {n : Nat} {ts rest : List Token} {e : Expr}
    (h : Derives maxNesting c n ts rest e) :
    ∀ frames, level frames = n → demand frames ≤ c.rank → Reads c frames ts rest e :=
  match h with
  | .ofProduct h | .ofPower h | .ofSigned h | .ofFactorial h | .ofPrimary h => by
      intro frames hlevel hdemand
      exact (reads_of_derives h frames hlevel (hdemand.trans (by decide))).loosen (by decide)
  | .sum sign hsign hl hr => by
      intro frames hlevel hdemand
      obtain ⟨hop, hpower, hcategory, hleft, hright⟩ := additive?_eq_some hsign
      rw [← hcategory] at hdemand ⊢
      apply Reads.binary sign hop (fun h => absurd h hpower) hdemand
      · rw [hleft]
        exact reads_of_derives hl frames hlevel (hcategory ▸ hdemand)
      · rw [hright]
        apply reads_of_derives hr
        · rw [level_binary, if_neg hpower, hlevel]
        · rw [demand, hright]
  | .product sign hsign hl hr => by
      intro frames hlevel hdemand
      obtain ⟨hop, hpower, hcategory, hleft, hright⟩ := multiplicative?_eq_some hsign
      rw [← hcategory] at hdemand ⊢
      apply Reads.binary sign hop (fun h => absurd h hpower) hdemand
      · rw [hleft]
        exact reads_of_derives hl frames hlevel (hcategory ▸ hdemand)
      · rw [hright]
        apply reads_of_derives hr
        · rw [level_binary, if_neg hpower, hlevel]
        · rw [demand, hright]
  | .power sign hsign hlimit hl hr => by
      intro frames hlevel hdemand
      have hop : operator? sign.kind = some .power := by
        rw [hsign]
        rfl
      change Reads BinaryOperator.power.category _ _ _ _
      apply Reads.binary sign hop (fun _ => by omega) hdemand
      · exact reads_of_derives hl frames hlevel (hdemand.trans (by decide))
      · apply reads_of_derives hr
        · rw [level_binary, if_pos rfl, hlevel]
        · exact le_rfl
  | .signed sign hsign hlimit h => by
      intro frames hlevel hdemand
      apply Reads.minus sign hsign (by omega)
      apply reads_of_derives h
      · rw [level_cons, hlevel]
        rfl
      · exact le_rfl
  | .factorial mark hmark h => by
      intro frames hlevel hdemand
      exact Reads.factorial mark hmark (reads_of_derives h frames hlevel hdemand)
  | .number numeral hkind hfinite => by
      intro frames hlevel hdemand
      exact Reads.number numeral hkind hfinite
  | .constant name hkind hvalue hrest => by
      intro frames hlevel hdemand
      exact Reads.constant name hkind hvalue hrest
  | .group opening closing hopening hclosing hlimit h => by
      intro frames hlevel hdemand
      obtain ⟨first, ts', hts, -⟩ := h.starts
      apply Reads.group opening closing hopening hclosing (by omega) (by simp [hts])
      apply reads_of_derives h
      · rw [level_cons, hlevel]
        rfl
      · exact le_rfl
  | .array opening closing hopening hclosing h => by
      intro frames hlevel hdemand
      apply Reads.of_run
      intro atEnd
      have htake : State.take ⟨frames, .operand⟩ opening =
          .ok ⟨.array opening.offset [] :: frames, .list⟩ := by
        rw [take_operand, takeOperand, hopening]
      rw [run_cons_ok htake]
      exact run_list_of_derives h (isList_array _) hclosing (by omega) fun hitems =>
        readsItems_of_derives h hitems frames (isList_array _) (by omega)
  | .call name opening closing hname hopening hclosing h => by
      intro frames hlevel hdemand
      apply Reads.of_run
      intro atEnd
      have htake : State.take ⟨frames, .operand⟩ name =
          .ok ⟨frames, .name name.offset name.text⟩ := by
        rw [take_operand, takeOperand, hname]
      rw [run_cons_ok htake, run_cons_ok (take_name_paren hopening)]
      exact run_list_of_derives h (isList_call _ _) hclosing (by omega) fun hitems =>
        readsItems_of_derives h hitems frames (isList_call _ _) (by omega)

theorem readsItems_of_derives {n : Nat} {ts rest : List Token} {items : List Expr}
    (h : DerivesItems maxNesting n ts rest items) :
    items ≠ [] → ∀ {opened closing build} frames, IsList opened closing build →
      level frames + 1 = n → ReadsItems opened frames ts rest items :=
  match h with
  | .none => fun hitems => absurd rfl hitems
  | .one hlimit h => by
      intro _ opened closing build frames hlist hlevel
      apply ReadsItems.one hlist
      apply reads_of_derives h
      · rw [level_cons, hlist.nests, ← hlevel]
        rfl
      · exact (demand_of_bracketed (hlist.bracketed _ _)).le
  | .more separator hseparator hne hitems hlimit h => by
      intro _ opened closing build frames hlist hlevel
      obtain ⟨first, ts', hts, -⟩ := h.starts
      have hinside : ∀ items, level (opened items :: frames) = level frames + 1 := by
        intro items
        rw [level_cons, hlist.nests]
        rfl
      apply ReadsItems.more hlist separator hseparator
      · rw [hinside]
        omega
      · exact readsItems_of_derives hitems hne frames hlist hlevel
      · simp [hts]
      · apply reads_of_derives h
        · rw [hinside, hlevel]
        · exact (demand_of_bracketed (hlist.bracketed _ _)).le

end

/-- Every expression of the grammar is read from the tokens it is derived from. -/
theorem run_of_derives (h : Derives maxNesting .sum 1 ts [] e) :
    State.initial.run ts atEnd = .ok e := by
  obtain ⟨first, ts', rfl, -⟩ := h.starts
  obtain ⟨inner, operand, hrun, hcomplete, -⟩ := reads_of_derives h [] rfl le_rfl
  rw [State.initial, run_start (by decide), hrun]
  simp only [State.run, State.finish, finishAfter]
  rw [hcomplete 0 (Nat.zero_le _)]
  rfl

end Parser

end StackCalc
