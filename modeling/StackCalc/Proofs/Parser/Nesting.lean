import Mathlib
import StackCalc.Proofs.Parser.Soundness

/-!
# How deep expressions may nest

Five constructs nest: a group, an array around its elements, a call around its arguments, a prefix
minus around its operand and a power around its right operand.  The depth of a token is the number
of constructs around it.  Here the grammar is stated once more without any limit, with the depth of
every token beside the tree.

The reader counts the whole expression as one level.  So it accepts a token inside 63 constructs
and refuses an expression with a token inside 64, whatever the mixture, and this is the only
reason why an expression of the grammar is refused.
-/

namespace StackCalc

mutual

/-- `Nested c depth ts rest e depths` holds if the tokens of `ts` before `rest` are a phrase of
category `c` that stands inside `depth` constructs, denotes `e` and has tokens of these depths. -/
inductive Nested :
    Category → Nat → List Token → List Token → Expr → List Nat → Prop where
  | loosen {c d depth ts rest e depths} :
      d.rank ≤ c.rank →
      Nested c depth ts rest e depths →
      Nested d depth ts rest e depths
  | binary {depth ts mid rest left right op before after} (sign : Token) :
      Parser.operator? sign.kind = some op →
      Nested op.leftCategory depth ts (sign :: mid) left before →
      Nested op.rightCategory (if op = .power then depth + 1 else depth) mid rest right after →
      Nested op.category depth ts rest (.binary sign.offset op left right)
        (before ++ depth :: after)
  | signed {depth ts rest operand depths} (sign : Token) :
      sign.kind = .minus →
      Nested .signed (depth + 1) ts rest operand depths →
      Nested .signed depth (sign :: ts) rest (.unary sign.offset .negation operand)
        (depth :: depths)
  | factorial {depth ts rest operand depths} (mark : Token) :
      mark.kind = .bang →
      Nested .factorial depth ts (mark :: rest) operand depths →
      Nested .factorial depth ts rest (.unary mark.offset .factorial operand) (depths ++ [depth])
  | number {depth rest} (numeral : Token) :
      numeral.kind = .number →
      (Binary64.ofNumeral numeral.text).isFinite = true →
      Nested .primary depth (numeral :: rest) rest
        (.number numeral.offset (Binary64.ofNumeral numeral.text)) [depth]
  | constant {depth rest value} (name : Token) :
      name.kind = .identifier →
      namedConstant? name.text = some value →
      NotCalled rest →
      Nested .primary depth (name :: rest) rest (.number name.offset value) [depth]
  | group {depth ts rest e depths} (opening closing : Token) :
      opening.kind = .leftParen →
      closing.kind = .rightParen →
      Nested .sum (depth + 1) ts (closing :: rest) e depths →
      Nested .primary depth (opening :: ts) rest e (depth :: depths ++ [depth])
  | array {depth ts rest items depths} (opening closing : Token) :
      opening.kind = .leftBracket →
      closing.kind = .rightBracket →
      NestedItems depth ts (closing :: rest) items depths →
      Nested .primary depth (opening :: ts) rest (.array opening.offset items)
        (depth :: depths ++ [depth])
  | call {depth ts rest args depths} (name opening closing : Token) :
      name.kind = .identifier →
      opening.kind = .leftParen →
      closing.kind = .rightParen →
      NestedItems depth ts (closing :: rest) args depths →
      Nested .primary depth (name :: opening :: ts) rest (.call name.offset name.text args)
        (depth :: depth :: depths ++ [depth])

/-- `NestedItems depth ts rest es depths` holds if the tokens of `ts` before `rest` are the items of
a list that stands inside `depth` constructs.  The commas have the depth of the list. -/
inductive NestedItems : Nat → List Token → List Token → List Expr → List Nat → Prop where
  | none {depth ts} :
      NestedItems depth ts ts [] []
  | one {depth ts rest e depths} :
      Nested .sum (depth + 1) ts rest e depths →
      NestedItems depth ts rest [e] depths
  | more {depth ts mid rest es e before after} (separator : Token) :
      separator.kind = .comma →
      es ≠ [] →
      NestedItems depth ts (separator :: mid) es before →
      Nested .sum (depth + 1) mid rest e after →
      NestedItems depth ts rest (es ++ [e]) (before ++ depth :: after)

end

variable {limit depth : Nat} {c : Category} {ts rest : List Token} {e : Expr} {es : List Expr}
  {depths : List Nat}

/-! ## Depths and limits -/

theorem Nested.depth_mem {c : Category} {depth : Nat} {ts rest : List Token} {e : Expr}
    {depths : List Nat} (h : Nested c depth ts rest e depths) : depth ∈ depths :=
  match h with
  | .loosen _ h => h.depth_mem
  | .binary _ _ _ _ => List.mem_append_right _ List.mem_cons_self
  | .signed _ _ _ => List.mem_cons_self
  | .factorial _ _ _ => List.mem_append_right _ List.mem_cons_self
  | .number _ _ _ | .constant _ _ _ _ => List.mem_cons_self
  | .group _ _ _ _ _ | .array _ _ _ _ _ | .call _ _ _ _ _ _ _ =>
    List.mem_append_left _ List.mem_cons_self

mutual

theorem Nested.length_depths {c : Category} {depth : Nat} {ts rest : List Token} {e : Expr}
    {depths : List Nat} (h : Nested c depth ts rest e depths) :
    depths.length + rest.length = ts.length :=
  match h with
  | .loosen _ h => h.length_depths
  | .binary _ _ hl hr => by
      have hleft := hl.length_depths
      have hright := hr.length_depths
      simp only [List.length_append, List.length_cons] at hleft ⊢
      omega
  | .signed _ _ h => by
      have hoperand := h.length_depths
      simp only [List.length_cons]
      omega
  | .factorial _ _ h => by
      have hoperand := h.length_depths
      simp only [List.length_append, List.length_cons, List.length_nil] at hoperand ⊢
      omega
  | .number _ _ _ | .constant _ _ _ _ => by
      simp only [List.length_cons, List.length_nil]
      omega
  | .group _ _ _ _ h => by
      have hinner := h.length_depths
      simp only [List.length_append, List.length_cons, List.length_nil] at hinner ⊢
      omega
  | .array _ _ _ _ h | .call _ _ _ _ _ _ h => by
      have hitems := h.length_depths
      simp only [List.length_append, List.length_cons, List.length_nil] at hitems ⊢
      omega

theorem NestedItems.length_depths {depth : Nat} {ts rest : List Token} {es : List Expr}
    {depths : List Nat} (h : NestedItems depth ts rest es depths) :
    depths.length + rest.length = ts.length :=
  match h with
  | .none => Nat.zero_add _
  | .one h => h.length_depths
  | .more _ _ _ hitems h => by
      have hbefore := hitems.length_depths
      have hlast := h.length_depths
      simp only [List.length_append, List.length_cons] at hbefore ⊢
      omega

end

mutual

/-- A phrase whose tokens are all below a limit is derived within this limit. -/
theorem Nested.derives {c : Category} {depth : Nat} {ts rest : List Token} {e : Expr}
    {depths : List Nat} (h : Nested c depth ts rest e depths) (hbelow : ∀ d ∈ depths, d < limit) :
    Derives limit c (depth + 1) ts rest e :=
  match h with
  | .loosen hrank h => (h.derives hbelow).loosen hrank
  | .binary sign hop hl hr => by
      obtain ⟨hbefore, hcons⟩ := List.forall_mem_append.mp hbelow
      have hafter := (List.forall_mem_cons.mp hcons).2
      have hright := hr.derives hafter
      have hdepth := hafter _ hr.depth_mem
      apply Derives.binary sign hop
      · rintro rfl
        exact hdepth
      · exact hl.derives hbefore
      · rw [apply_ite (· + 1)] at hright
        exact hright
  | .signed sign hsign h => by
      have hinner := (List.forall_mem_cons.mp hbelow).2
      exact .signed sign hsign (hinner _ h.depth_mem) (h.derives hinner)
  | .factorial mark hmark h =>
    .factorial mark hmark (h.derives (List.forall_mem_append.mp hbelow).1)
  | .number numeral hkind hfinite => .number numeral hkind hfinite
  | .constant name hkind hvalue hrest => .constant name hkind hvalue hrest
  | .group opening closing hopening hclosing h => by
      have hinner := (List.forall_mem_cons.mp (List.forall_mem_append.mp hbelow).1).2
      exact .group opening closing hopening hclosing (hinner _ h.depth_mem) (h.derives hinner)
  | .array opening closing hopening hclosing h => by
      have hinner := (List.forall_mem_cons.mp (List.forall_mem_append.mp hbelow).1).2
      exact .array opening closing hopening hclosing (h.derives hinner)
  | .call name opening closing hname hopening hclosing h => by
      have htokens := (List.forall_mem_cons.mp (List.forall_mem_append.mp hbelow).1).2
      have hinner := (List.forall_mem_cons.mp htokens).2
      exact .call name opening closing hname hopening hclosing (h.derives hinner)

theorem NestedItems.derives {depth : Nat} {ts rest : List Token} {es : List Expr}
    {depths : List Nat} (h : NestedItems depth ts rest es depths)
    (hbelow : ∀ d ∈ depths, d < limit) :
    DerivesItems limit (depth + 2) ts rest es :=
  match h with
  | .none => .none
  | .one h => .one (hbelow _ h.depth_mem) (h.derives hbelow)
  | .more separator hseparator hne hitems h => by
      obtain ⟨hbefore, hcons⟩ := List.forall_mem_append.mp hbelow
      have hafter := (List.forall_mem_cons.mp hcons).2
      exact .more separator hseparator hne (hitems.derives hbefore) (hafter _ h.depth_mem)
        (h.derives hafter)

end

theorem exists_forall_mem_lt (depths : List Nat) : ∃ limit, ∀ d ∈ depths, d < limit :=
  ⟨depths.sum + 1, fun _ hd => Nat.lt_succ_of_le (List.le_sum_of_mem hd)⟩

theorem Nested.starts (h : Nested c depth ts rest e depths) :
    ∃ t ts', ts = t :: ts' ∧ t.kind ∈ Parser.operandStart := by
  obtain ⟨limit, hbelow⟩ := exists_forall_mem_lt depths
  exact (h.derives hbelow).starts

theorem NestedItems.starts (h : NestedItems depth ts rest es depths) (hes : es ≠ []) :
    ∃ t ts', ts = t :: ts' ∧ t.kind ∈ Parser.operandStart := by
  obtain ⟨limit, hbelow⟩ := exists_forall_mem_lt depths
  exact (h.derives hbelow).starts hes

theorem Nested.sameDepth {mid : List Token} {left right : Expr} {op : BinaryOperator}
    {before after : List Nat} (sign : Token)
    (hop : Parser.operator? sign.kind = some op)
    (hpower : op ≠ .power)
    (hleft : Nested op.leftCategory depth ts (sign :: mid) left before)
    (hright : Nested op.rightCategory depth mid rest right after) :
    Nested op.category depth ts rest (.binary sign.offset op left right)
      (before ++ depth :: after) :=
  .binary sign hop hleft (by rwa [if_neg hpower])

mutual

/-- The tokens of every phrase have depths, within whatever limit it is derived. -/
theorem Derives.exists_nested {c : Category} {level : Nat} {ts rest : List Token} {e : Expr}
    (h : Derives limit c level ts rest e) :
    ∀ depth, level = depth + 1 → ∃ depths, Nested c depth ts rest e depths :=
  match h with
  | .ofProduct h | .ofPower h | .ofSigned h | .ofFactorial h | .ofPrimary h => by
      intro depth hlevel
      obtain ⟨depths, hnested⟩ := h.exists_nested depth hlevel
      exact ⟨depths, .loosen (by decide) hnested⟩
  | .sum sign hsign hl hr => by
      intro depth hlevel
      obtain ⟨hop, hpower, hcategory, hleft, hright⟩ := additive?_eq_some hsign
      obtain ⟨before, hbefore⟩ := hl.exists_nested depth hlevel
      obtain ⟨after, hafter⟩ := hr.exists_nested depth hlevel
      rw [← hcategory]
      exact ⟨_, .sameDepth sign hop hpower (hleft ▸ hbefore) (hright ▸ hafter)⟩
  | .product sign hsign hl hr => by
      intro depth hlevel
      obtain ⟨hop, hpower, hcategory, hleft, hright⟩ := multiplicative?_eq_some hsign
      obtain ⟨before, hbefore⟩ := hl.exists_nested depth hlevel
      obtain ⟨after, hafter⟩ := hr.exists_nested depth hlevel
      rw [← hcategory]
      exact ⟨_, .sameDepth sign hop hpower (hleft ▸ hbefore) (hright ▸ hafter)⟩
  | .power sign hsign _ hl hr => by
      intro depth hlevel
      have hop : Parser.operator? sign.kind = some .power := by
        rw [hsign]
        rfl
      obtain ⟨before, hbefore⟩ := hl.exists_nested depth hlevel
      obtain ⟨after, hafter⟩ := hr.exists_nested (depth + 1) (by rw [hlevel])
      have hnested :
          Nested BinaryOperator.power.category depth ts rest _ (before ++ depth :: after) :=
        .binary sign hop hbefore hafter
      exact ⟨_, hnested⟩
  | .signed sign hsign _ h => by
      intro depth hlevel
      obtain ⟨depths, hnested⟩ := h.exists_nested (depth + 1) (by rw [hlevel])
      exact ⟨_, .signed sign hsign hnested⟩
  | .factorial mark hmark h => by
      intro depth hlevel
      obtain ⟨depths, hnested⟩ := h.exists_nested depth hlevel
      exact ⟨_, .factorial mark hmark hnested⟩
  | .number numeral hkind hfinite => fun _ _ => ⟨_, .number numeral hkind hfinite⟩
  | .constant name hkind hvalue hrest => fun _ _ => ⟨_, .constant name hkind hvalue hrest⟩
  | .group opening closing hopening hclosing _ h => by
      intro depth hlevel
      obtain ⟨depths, hnested⟩ := h.exists_nested (depth + 1) (by rw [hlevel])
      exact ⟨_, .group opening closing hopening hclosing hnested⟩
  | .array opening closing hopening hclosing h => by
      intro depth hlevel
      obtain ⟨depths, hnested⟩ := h.exists_nested depth (by rw [hlevel])
      exact ⟨_, .array opening closing hopening hclosing hnested⟩
  | .call name opening closing hname hopening hclosing h => by
      intro depth hlevel
      obtain ⟨depths, hnested⟩ := h.exists_nested depth (by rw [hlevel])
      exact ⟨_, .call name opening closing hname hopening hclosing hnested⟩

theorem DerivesItems.exists_nested {level : Nat} {ts rest : List Token} {es : List Expr}
    (h : DerivesItems limit level ts rest es) :
    ∀ depth, level = depth + 2 → ∃ depths, NestedItems depth ts rest es depths :=
  match h with
  | .none => fun _ _ => ⟨[], .none⟩
  | .one _ h => by
      intro depth hlevel
      obtain ⟨depths, hnested⟩ := h.exists_nested (depth + 1) hlevel
      exact ⟨_, .one hnested⟩
  | .more separator hseparator hne hitems _ h => by
      intro depth hlevel
      obtain ⟨before, hbefore⟩ := hitems.exists_nested depth hlevel
      obtain ⟨after, hafter⟩ := h.exists_nested (depth + 1) hlevel
      exact ⟨_, .more separator hseparator hne hbefore hafter⟩

end

/-! ## Depths at the limit -/

/-- Some token is inside as many constructs as the limit on levels, or more. -/
def ReachesLimit (depths : List Nat) : Prop := ∃ d ∈ depths, maxNesting ≤ d

theorem not_reachesLimit_iff : ¬ ReachesLimit depths ↔ ∀ d ∈ depths, d < maxNesting := by
  simp only [ReachesLimit, not_exists, not_and, not_le]

theorem ReachesLimit.of_cons (h : ReachesLimit (depth :: depths)) (hdepth : depth < maxNesting) :
    ReachesLimit depths := by
  obtain ⟨d, hd, hle⟩ := h
  rcases List.mem_cons.mp hd with rfl | hd
  · omega
  · exact ⟨d, hd, hle⟩

theorem ReachesLimit.of_concat
    (h : ReachesLimit (depths ++ [depth])) (hdepth : depth < maxNesting) : ReachesLimit depths := by
  obtain ⟨d, hd, hle⟩ := h
  rcases List.mem_append.mp hd with hd | hd
  · exact ⟨d, hd, hle⟩
  · obtain rfl := List.mem_singleton.mp hd
    omega

/-- Either the tokens before some place reach the limit, or only those after it do. -/
theorem ReachesLimit.before_or_after {before after : List Nat}
    (h : ReachesLimit (before ++ depth :: after)) (hdepth : depth < maxNesting) :
    ReachesLimit before ∨ (∀ d ∈ before, d < maxNesting) ∧ ReachesLimit after := by
  by_cases hbefore : ReachesLimit before
  · exact Or.inl hbefore
  · have hbelow := not_reachesLimit_iff.mp hbefore
    obtain ⟨d, hd, hle⟩ := h
    rcases List.mem_append.mp hd with hd | hd
    · exact absurd hle (Nat.not_le_of_lt (hbelow d hd))
    · exact Or.inr ⟨hbelow, ReachesLimit.of_cons ⟨d, hd, hle⟩ hdepth⟩

/-! ## Refusals -/

namespace Parser

/-- Whatever follows, reading the tokens is refused because they nest too deeply. -/
def RunsTooDeep (state : State) (ts : List Token) : Prop :=
  ∃ token, ∀ atEnd, state.run ts atEnd = .error ⟨token, .tooDeep⟩

variable {state next : State} {frames : List Frame} {token : Token} {mid : List Token}
  {op : BinaryOperator} {left : Expr} {opened : List Expr → Frame} {closing : TokenKind}
  {build : List Expr → Expr} {items : List Expr}

theorem RunsTooDeep.of_run_eq (h : RunsTooDeep next mid)
    (hrun : ∀ atEnd, state.run ts atEnd = next.run mid atEnd) : RunsTooDeep state ts := by
  obtain ⟨token, herror⟩ := h
  exact ⟨token, fun atEnd => (hrun atEnd).trans (herror atEnd)⟩

theorem RunsTooDeep.of_take (h : RunsTooDeep next ts) (htake : state.take token = .ok next) :
    RunsTooDeep state (token :: ts) :=
  h.of_run_eq fun _ => run_cons_ok htake

theorem runsTooDeep_of_take (htake : state.take token = refuse token .tooDeep) :
    RunsTooDeep state (token :: ts) := by
  refine ⟨token, fun atEnd => ?_⟩
  rw [State.run, htake]
  rfl

theorem takeStart_of_lt (h : maxNesting < level frames) :
    takeStart frames token = refuse token .tooDeep := by
  rw [takeStart, if_pos h]

theorem demand_le_leftCategory (h : demand frames ≤ op.category.rank) :
    demand frames ≤ op.leftCategory.rank :=
  h.trans (by cases op <;> decide)

/-- An expression with a complete left operand is refused if its right operand is.  A power without
room for its right operand is refused at its sign. -/
theorem Reads.runsTooDeep {sign : Token}
    (hleft : Reads op.leftCategory frames ts (sign :: mid) left)
    (hop : operator? sign.kind = some op)
    (hdemand : demand frames ≤ op.category.rank)
    (hright : (op = .power → level frames + 1 ≤ maxNesting) →
      RunsTooDeep ⟨.binary sign.offset op left :: frames, .operand⟩ mid) :
    RunsTooDeep ⟨frames, .operand⟩ ts := by
  by_cases hroom : op = .power → level frames + 1 ≤ maxNesting
  · exact (hright hroom).of_run_eq fun _ => hleft.run_operator hop hroom hdemand
  · obtain ⟨hpower, hfull⟩ := Classical.not_imp.mp hroom
    obtain ⟨inner, operand, hrun, hstops⟩ := hleft.exists_left hdemand
    refine RunsTooDeep.of_run_eq (runsTooDeep_of_take ?_) hrun
    rw [take_after, takeAfter_operator hop, hstops]
    exact if_pos ⟨hpower, Nat.le_of_lt_succ (Nat.lt_of_not_le hfull)⟩

theorem runsTooDeep_minus {sign : Token} (hsign : sign.kind = .minus)
    (hoperand : level frames + 1 ≤ maxNesting →
      RunsTooDeep ⟨.minus sign.offset :: frames, .operand⟩ ts) :
    RunsTooDeep ⟨frames, .operand⟩ (sign :: ts) := by
  rcases Nat.lt_or_ge (level frames) maxNesting with hroom | hfull
  · apply (hoperand hroom).of_take
    rw [take_operand, takeOperand, hsign]
    exact if_neg (by omega)
  · apply runsTooDeep_of_take
    rw [take_operand, takeOperand, hsign]
    exact if_pos hfull

theorem runsTooDeep_start (hstarts : ts ≠ [])
    (h : level frames ≤ maxNesting → RunsTooDeep ⟨frames, .operand⟩ ts) :
    RunsTooDeep ⟨frames, .start⟩ ts := by
  obtain ⟨first, ts, rfl⟩ := List.exists_cons_of_ne_nil hstarts
  rcases Nat.lt_or_ge maxNesting (level frames) with hfull | hroom
  · exact runsTooDeep_of_take (takeStart_of_lt hfull)
  · exact (h hroom).of_run_eq fun _ => run_start hroom

theorem runsTooDeep_list (hlist : IsList opened closing build)
    (hstarts : ∃ first ts', ts = first :: ts' ∧ first.kind ∈ operandStart)
    (h : level (opened [] :: frames) ≤ maxNesting →
      RunsTooDeep ⟨opened [] :: frames, .operand⟩ ts) :
    RunsTooDeep ⟨opened [] :: frames, .list⟩ ts := by
  obtain ⟨first, ts, rfl, hfirst⟩ := hstarts
  have hopen : closing? (opened [] :: frames) ≠ some first.kind := hlist.closing?_ne hfirst
  rcases Nat.lt_or_ge maxNesting (level (opened [] :: frames)) with hfull | hroom
  · apply runsTooDeep_of_take
    rw [take_list hopen, takeStart_of_lt hfull]
  · exact (h hroom).of_run_eq fun _ => run_list hroom hopen

theorem take_array {opening : Token} (hopening : opening.kind = .leftBracket) :
    State.take ⟨frames, .operand⟩ opening = .ok ⟨.array opening.offset [] :: frames, .list⟩ := by
  rw [take_operand, takeOperand, hopening]

mutual

/-- A phrase with a token at the limit is refused, inside whatever frames it is read. -/
theorem runsTooDeep_of_nested {c : Category} {depth : Nat} {ts rest : List Token} {e : Expr}
    {depths : List Nat} (h : Nested c depth ts rest e depths) :
    ReachesLimit depths → ∀ frames, level frames = depth + 1 → depth < maxNesting →
      demand frames ≤ c.rank → RunsTooDeep ⟨frames, .operand⟩ ts :=
  match h with
  | .loosen hrank h => by
      intro hdeep frames hlevel hdepth hdemand
      exact runsTooDeep_of_nested h hdeep frames hlevel hdepth (hdemand.trans hrank)
  | .binary sign hop hl hr => by
      intro hdeep frames hlevel hdepth hdemand
      have hdemand' := demand_le_leftCategory hdemand
      rcases hdeep.before_or_after hdepth with hbefore | ⟨hbefore, hafter⟩
      · exact runsTooDeep_of_nested hl hbefore frames hlevel hdepth hdemand'
      · have hleft := reads_of_derives (hl.derives hbefore) frames hlevel hdemand'
        apply hleft.runsTooDeep hop hdemand
        intro hroom
        apply runsTooDeep_of_nested hr hafter
        · rw [level_binary, hlevel]
          split <;> rfl
        · split
          · have := hroom ‹_›
            omega
          · exact hdepth
        · exact le_rfl
  | .signed sign hsign h => by
      intro hdeep frames hlevel hdepth hdemand
      apply runsTooDeep_minus hsign
      intro hroom
      apply runsTooDeep_of_nested h (hdeep.of_cons hdepth)
      · rw [level_of_nests rfl, hlevel]
      · omega
      · exact le_rfl
  | .factorial mark hmark h => by
      intro hdeep frames hlevel hdepth hdemand
      exact runsTooDeep_of_nested h (hdeep.of_concat hdepth) frames hlevel hdepth hdemand
  | .number _ _ _ | .constant _ _ _ _ => by
      intro hdeep frames hlevel hdepth hdemand
      obtain ⟨d, hd, -⟩ := hdeep.of_cons hdepth
      cases hd
  | .group opening closing hopening hclosing h => by
      intro hdeep frames hlevel hdepth hdemand
      obtain ⟨first, ts', hts, -⟩ := h.starts
      have htake : State.take ⟨frames, .operand⟩ opening = .ok ⟨.group :: frames, .start⟩ := by
        rw [take_operand, takeOperand, hopening]
      have hlevel' : level (.group :: frames) = depth + 1 + 1 := by
        rw [level_of_nests rfl, hlevel]
      refine RunsTooDeep.of_take (runsTooDeep_start (by simp [hts]) fun hroom => ?_) htake
      have hinner := (hdeep.of_concat hdepth).of_cons hdepth
      exact runsTooDeep_of_nested h hinner _ hlevel' (by omega) le_rfl
  | .array opening closing hopening hclosing h => by
      intro hdeep frames hlevel hdepth hdemand
      refine RunsTooDeep.of_take ?_ (take_array hopening)
      have hinner := (hdeep.of_concat hdepth).of_cons hdepth
      exact runsTooDeep_of_nestedItems h hinner frames (isList_array _) hlevel hdepth
  | .call name opening closing hname hopening hclosing h => by
      intro hdeep frames hlevel hdepth hdemand
      have htake : State.take ⟨frames, .operand⟩ name =
          .ok ⟨frames, .name name.offset name.text⟩ := by
        rw [take_operand, takeOperand, hname]
      refine RunsTooDeep.of_take (RunsTooDeep.of_take ?_ (take_name_paren hopening)) htake
      have hinner := ((hdeep.of_concat hdepth).of_cons hdepth).of_cons hdepth
      exact runsTooDeep_of_nestedItems h hinner frames (isList_call _ _) hlevel hdepth

theorem runsTooDeep_of_nestedItems {depth : Nat} {ts rest : List Token} {items : List Expr}
    {depths : List Nat} (h : NestedItems depth ts rest items depths) :
    ReachesLimit depths → ∀ {opened closing build} frames, IsList opened closing build →
      level frames = depth + 1 → depth < maxNesting → RunsTooDeep ⟨opened [] :: frames, .list⟩ ts :=
  match h with
  | .none => by
      intro hdeep
      obtain ⟨d, hd, -⟩ := hdeep
      cases hd
  | .one h => by
      intro hdeep opened closing build frames hlist hlevel hdepth
      have hlevel' : level (opened [] :: frames) = depth + 1 + 1 := by
        rw [level_of_nests (hlist.nests _), hlevel]
      apply runsTooDeep_list hlist h.starts
      intro hroom
      exact runsTooDeep_of_nested h hdeep _ hlevel' (by omega)
        (demand_of_bracketed (hlist.bracketed _ _)).le
  | .more separator hseparator hne hitems h => by
      intro hdeep opened closing build frames hlist hlevel hdepth
      rcases hdeep.before_or_after hdepth with hbefore | ⟨hbefore, hafter⟩
      · exact runsTooDeep_of_nestedItems hitems hbefore frames hlist hlevel hdepth
      · have hlevel' : ∀ items, level (opened items :: frames) = depth + 1 + 1 := by
          intro items
          rw [level_of_nests (hlist.nests _), hlevel]
        obtain ⟨first, ts', hmid, -⟩ := h.starts
        apply runsTooDeep_list hlist (hitems.starts hne)
        intro hroom
        rw [hlevel'] at hroom
        have hread := readsItems_of_derives (hitems.derives hbefore) hne frames hlist (by omega)
        refine RunsTooDeep.of_run_eq ?_ fun _ =>
          hread.run_separator hlist hseparator (by rwa [hlevel']) (by simp [hmid])
        exact runsTooDeep_of_nested h hafter _ (hlevel' _) (by omega)
          (demand_of_bracketed (hlist.bracketed _ _)).le

end

end Parser

/-! ## Phrases inside groups -/

/-- The tokens of a phrase inside some groups. -/
def inGroups (groups : Nat) (inner : List Token) : Tokens where
  tokens := (List.range groups).map (fun i => ⟨.leftParen, "(", i⟩) ++
    (inner ++ (List.range groups).map fun i => ⟨.rightParen, ")", groups + inner.length + i⟩)
  stop := 2 * groups + inner.length

/-- Groups around a phrase put as many constructs around its tokens. -/
theorem Nested.exists_groups {opening closing : List Token} {bound : Nat}
    (hlength : opening.length = closing.length)
    (hopening : ∀ t ∈ opening, t.kind = .leftParen)
    (hclosing : ∀ t ∈ closing, t.kind = .rightParen)
    (h : Nested .sum (depth + opening.length) ts (closing ++ rest) e depths)
    (hbound : ∀ d ∈ depths, d ≤ bound) :
    ∃ depths', Nested .sum depth (opening ++ ts) rest e depths' ∧ depths ⊆ depths' ∧
      ∀ d ∈ depths', d ≤ bound := by
  induction opening generalizing depth closing rest with
  | nil =>
      rw [List.eq_nil_of_length_eq_zero hlength.symm] at h
      exact ⟨depths, h, List.Subset.refl depths, hbound⟩
  | cons first opening ih =>
      rcases List.eq_nil_or_concat closing with rfl | ⟨closing, last, rfl⟩
      · cases hlength
      · have hdepth : depth ≤ bound := le_trans (Nat.le_add_right _ _) (hbound _ h.depth_mem)
        have hlength' : opening.length = closing.length := by
          simpa using hlength
        rw [List.concat_eq_append] at h hclosing
        rw [List.length_cons, Nat.add_comm opening.length, ← Nat.add_assoc, List.append_assoc] at h
        obtain ⟨hfirst, hopening'⟩ := List.forall_mem_cons.mp hopening
        obtain ⟨hclosing', hlast⟩ := List.forall_mem_append.mp hclosing
        obtain ⟨inner, hinner, hsub, hle⟩ := ih hlength' hopening' hclosing' h
        refine ⟨_, .loosen (by decide)
          (.group first last hfirst (hlast last List.mem_cons_self) hinner), ?_, ?_⟩
        · exact fun d hd => List.mem_append_left _ (List.mem_cons_of_mem _ (hsub hd))
        · have hends : ∀ d ∈ [depth], d ≤ bound := List.forall_mem_singleton.mpr hdepth
          exact List.forall_mem_append.mpr ⟨List.forall_mem_cons.mpr ⟨hdepth, hle⟩, hends⟩

theorem exists_nested_inGroups {groups bound : Nat} {inner : List Token}
    (h : ∀ rest, Nested .sum groups (inner ++ rest) rest e depths)
    (hbound : ∀ d ∈ depths, d ≤ bound) :
    ∃ depths', Nested .sum 0 (inGroups groups inner).tokens [] e depths' ∧ depths ⊆ depths' ∧
      ∀ d ∈ depths', d ≤ bound := by
  rw [inGroups]
  generalize hopening : (List.range groups).map (fun i => (⟨.leftParen, "(", i⟩ : Token)) = opening
  generalize hclosing : (List.range groups).map
    (fun i => (⟨.rightParen, ")", groups + inner.length + i⟩ : Token)) = closing
  have hlength : opening.length = groups := by
    simp [← hopening]
  have hlength' : closing.length = groups := by
    simp [← hclosing]
  have hnested : Nested .sum (0 + opening.length) (inner ++ closing) (closing ++ []) e depths := by
    rw [hlength, Nat.zero_add, List.append_nil]
    exact h closing
  apply Nested.exists_groups (hlength.trans hlength'.symm) _ _ hnested hbound
  · simp [← hopening]
  · simp [← hclosing]

/-! ## The bound -/

theorem Expr.exists_tooDeep_of_nested {ts : Tokens} (h : Nested .sum 0 ts.tokens [] e depths)
    (hdeep : ReachesLimit depths) : ∃ token, Expr.ofTokens ts = .error ⟨token, .tooDeep⟩ := by
  obtain ⟨first, ts', hts, -⟩ := h.starts
  have hrun := Parser.runsTooDeep_of_nested h hdeep [] rfl (by decide) le_rfl
  obtain ⟨token, herror⟩ := Parser.runsTooDeep_start (by simp [hts]) fun _ => hrun
  exact ⟨token, herror _⟩

/-- An expression of the grammar is refused for one reason only: some token is inside 64
constructs, which is the number of levels.  The whole expression counts as a level, so 63
constructs are the most that are accepted. -/
theorem Expr.ofTokens_refuses_deep {ts : Tokens} {limit : Nat} {e : Expr}
    (h : Derives limit .sum 1 ts.tokens [] e) :
    (∃ depths, Nested .sum 0 ts.tokens [] e depths) ∧
      ∀ e' depths, Nested .sum 0 ts.tokens [] e' depths →
        depths.length = ts.tokens.length ∧
        ((∃ error, Expr.ofTokens ts = .error error ∧
            error.message = "Expression nested too deeply") ↔
          ∃ d ∈ depths, maxNesting ≤ d) ∧
        ((∀ d ∈ depths, d < maxNesting) → Expr.ofTokens ts = .ok e') := by
  refine ⟨h.exists_nested 0 rfl, ?_⟩
  intro e' depths hnested
  have haccepts : (∀ d ∈ depths, d < maxNesting) → Expr.ofTokens ts = .ok e' := fun hbelow =>
    ofTokens_eq_ok_iff_derives.mpr (hnested.derives hbelow)
  refine ⟨hnested.length_depths, ⟨?_, ?_⟩, haccepts⟩
  · rintro ⟨error, herror, -⟩
    by_contra hnot
    rw [haccepts (not_reachesLimit_iff.mp hnot)] at herror
    cases herror
  · intro hdeep
    obtain ⟨token, herror⟩ := exists_tooDeep_of_nested hnested hdeep
    exact ⟨_, herror, rfl⟩

/-- The tokens of a negated group with a power. -/
def negatedTokens (offset : Nat) : List Token :=
  [⟨.minus, "-", offset⟩, ⟨.leftParen, "(", offset + 1⟩, ⟨.number, "2", offset + 2⟩,
    ⟨.caret, "^", offset + 3⟩, ⟨.number, "3", offset + 4⟩, ⟨.rightParen, ")", offset + 5⟩]

/-- The expression of these tokens. -/
def negatedExpr (offset : Nat) : Expr :=
  .unary offset .negation (.binary ((offset + 3 : Nat) : Int) .power
    (.number ((offset + 2 : Nat) : Int) (.ofNumeral "2"))
    (.number ((offset + 4 : Nat) : Int) (.ofNumeral "3")))

/-- The tokens of an array with a function of a negated group. -/
def mixedTokens (offset : Nat) : List Token :=
  ⟨.leftBracket, "[", offset⟩ :: ⟨.identifier, "f", offset + 1⟩ ::
    ⟨.leftParen, "(", offset + 2⟩ :: negatedTokens (offset + 3) ++
    [⟨.rightParen, ")", offset + 9⟩, ⟨.rightBracket, "]", offset + 10⟩]

/-- The expression of these tokens. -/
def mixedExpr (offset : Nat) : Expr :=
  .array offset [.call ((offset + 1 : Nat) : Int) "f" [negatedExpr (offset + 3)]]

theorem nested_negated (depth offset : Nat) (rest : List Token) :
    Nested .signed depth (negatedTokens offset ++ rest) rest (negatedExpr offset)
      [depth, depth + 1, depth + 2, depth + 2, depth + 3, depth + 1] := by
  have htwo : (Binary64.ofNumeral "2").isFinite = true := by
    decide +kernel
  have hthree : (Binary64.ofNumeral "3").isFinite = true := by
    decide +kernel
  have hpower : ∀ rest, Nested BinaryOperator.power.category (depth + 2)
      (⟨.number, "2", offset + 2⟩ :: ⟨.caret, "^", offset + 3⟩ ::
        ⟨.number, "3", offset + 4⟩ :: rest)
      rest _ [depth + 2, depth + 2, depth + 3] := fun rest =>
    .binary ⟨.caret, "^", offset + 3⟩ rfl
      (.loosen (by decide) (.number ⟨.number, "2", offset + 2⟩ rfl htwo))
      (.loosen (by decide) (.number ⟨.number, "3", offset + 4⟩ rfl hthree))
  exact .signed _ rfl (.loosen (by decide)
    (.group _ ⟨.rightParen, ")", offset + 5⟩ rfl rfl (.loosen (by decide) (hpower _))))

theorem nested_mixed (depth offset : Nat) (rest : List Token) :
    Nested .sum depth (mixedTokens offset ++ rest) rest (mixedExpr offset)
      [depth, depth + 1, depth + 1, depth + 2, depth + 3, depth + 4, depth + 4, depth + 5,
        depth + 3, depth + 1, depth] := by
  have hcall : Nested .primary (depth + 1) _ (⟨.rightBracket, "]", offset + 10⟩ :: rest) _ _ :=
    .call ⟨.identifier, "f", offset + 1⟩ ⟨.leftParen, "(", offset + 2⟩
      ⟨.rightParen, ")", offset + 9⟩ rfl rfl rfl
      (.one (.loosen (by decide) (nested_negated (depth + 2) (offset + 3) _)))
  exact .loosen (by decide)
    (.array ⟨.leftBracket, "[", offset⟩ _ rfl rfl (.one (.loosen (by decide) hcall)))

/-- A mixture of 63 constructs is accepted. -/
theorem refuses_deep_mixed :
    ∃ depths, Nested .sum 0 (inGroups 58 (mixedTokens 58)).tokens [] (mixedExpr 58) depths ∧
      63 ∈ depths ∧ (∀ d ∈ depths, d < 64) ∧
      Derives 64 .sum 1 (inGroups 58 (mixedTokens 58)).tokens [] (mixedExpr 58) ∧
      Expr.ofTokens (inGroups 58 (mixedTokens 58)) = .ok (mixedExpr 58) := by
  have hbound : ∀ d ∈ [58, 59, 59, 60, 61, 62, 62, 63, 61, 59, 58], d ≤ 63 := by
    decide
  obtain ⟨depths, hnested, hsub, hle⟩ := exists_nested_inGroups (nested_mixed 58 58) hbound
  have hbelow : ∀ d ∈ depths, d < maxNesting := fun d hd => Nat.lt_succ_of_le (hle d hd)
  have hderives : Derives maxNesting .sum 1 _ [] (mixedExpr 58) := hnested.derives hbelow
  refine ⟨depths, hnested, hsub (by decide), hbelow, hderives, ?_⟩
  exact ((Expr.ofTokens_refuses_deep hderives).2 _ depths hnested).2.2 hbelow

/-- No token of 64 groups around a numeral is inside more than 64 constructs, but it is refused. -/
theorem groups_refused_at_bound :
    (∃ e depths, Nested .sum 0 (inGroups 64 [⟨.number, "1", 64⟩]).tokens [] e depths ∧
      64 ∈ depths ∧ ∀ d ∈ depths, d ≤ 64) ∧
      Expr.ofTokens (inGroups 64 [⟨.number, "1", 64⟩]) =
        .error ⟨⟨.number, "1", 64⟩, .tooDeep⟩ ∧
      ParseError.message ⟨⟨.number, "1", 64⟩, .tooDeep⟩ = "Expression nested too deeply" := by
  have hfinite : (Binary64.ofNumeral "1").isFinite = true := by
    decide +kernel
  have hnested : ∀ rest, Nested .sum 64 ([⟨.number, "1", 64⟩] ++ rest) rest
      (.number (64 : Nat) (.ofNumeral "1")) [64] := fun rest =>
    .loosen (by decide) (.number ⟨.number, "1", 64⟩ rfl hfinite)
  have hbound : ∀ d ∈ [64], d ≤ 64 := List.forall_mem_singleton.mpr le_rfl
  obtain ⟨depths, hgroups, hsub, hle⟩ := exists_nested_inGroups hnested hbound
  exact ⟨⟨_, depths, hgroups, hsub List.mem_cons_self, hle⟩, rfl, rfl⟩

end StackCalc
