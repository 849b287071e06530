import Mathlib
import StackCalc.Expr.Parser

/-!
# The grammar of expressions

The grammar says which token lists are expressions and which tree each of them denotes.  It knows
nothing of frames, phases or binding strengths: each category of phrases has its own rules, and
sums and products are left-recursive where powers are right-recursive.

A derivation reads a token list up to some rest, so a rule with several parts reads each part from
where the part before it stopped.  Every phrase has a level of nesting.  It grows by one inside a
group, an array, the arguments of a call, the operand of a prefix minus and the right operand of a
power, and no phrase may be deeper than a limit.
-/

namespace StackCalc

/-- The categories of phrases, from the loosest to the tightest. -/
inductive Category where
  /-- Products joined by additive signs. -/
  | sum
  /-- Powers joined by multiplicative signs. -/
  | product
  /-- A signed phrase, raised to a power or not. -/
  | power
  /-- A factorial under any number of prefix minuses. -/
  | signed
  /-- A primary followed by any number of factorial marks. -/
  | factorial
  /-- A numeral, a constant, a group, an array or a call. -/
  | primary
deriving DecidableEq

/-- The operator of an additive sign. -/
def additive? : TokenKind → Option BinaryOperator
  | .plus => some .plus
  | .minus => some .minus
  | _ => none

/-- The operator of a multiplicative sign. -/
def multiplicative? : TokenKind → Option BinaryOperator
  | .star => some .times
  | .slash => some .over
  | .percent => some .modulo
  | _ => none

/-- A name that stands before these tokens is not called. -/
def NotCalled (rest : List Token) : Prop :=
  ∀ t ∈ rest.head?, t.kind ≠ .leftParen

mutual

/-- `Derives limit c level ts rest e` holds if the tokens of `ts` before `rest` are a phrase of
category `c` at the given level of nesting and denote `e`. -/
inductive Derives (limit : Nat) : Category → Nat → List Token → List Token → Expr → Prop where
  | ofProduct {level ts rest e} :
      Derives limit .product level ts rest e →
      Derives limit .sum level ts rest e
  | sum {level ts mid rest left right op} (sign : Token) :
      additive? sign.kind = some op →
      Derives limit .sum level ts (sign :: mid) left →
      Derives limit .product level mid rest right →
      Derives limit .sum level ts rest (.binary sign.offset op left right)
  | ofPower {level ts rest e} :
      Derives limit .power level ts rest e →
      Derives limit .product level ts rest e
  | product {level ts mid rest left right op} (sign : Token) :
      multiplicative? sign.kind = some op →
      Derives limit .product level ts (sign :: mid) left →
      Derives limit .power level mid rest right →
      Derives limit .product level ts rest (.binary sign.offset op left right)
  | ofSigned {level ts rest e} :
      Derives limit .signed level ts rest e →
      Derives limit .power level ts rest e
  | power {level ts mid rest left right} (sign : Token) :
      sign.kind = .caret →
      level + 1 ≤ limit →
      Derives limit .signed level ts (sign :: mid) left →
      Derives limit .power (level + 1) mid rest right →
      Derives limit .power level ts rest (.binary sign.offset .power left right)
  | ofFactorial {level ts rest e} :
      Derives limit .factorial level ts rest e →
      Derives limit .signed level ts rest e
  | signed {level ts rest operand} (sign : Token) :
      sign.kind = .minus →
      level + 1 ≤ limit →
      Derives limit .signed (level + 1) ts rest operand →
      Derives limit .signed level (sign :: ts) rest (.unary sign.offset .negation operand)
  | ofPrimary {level ts rest e} :
      Derives limit .primary level ts rest e →
      Derives limit .factorial level ts rest e
  | factorial {level ts rest operand} (mark : Token) :
      mark.kind = .bang →
      Derives limit .factorial level ts (mark :: rest) operand →
      Derives limit .factorial level ts rest (.unary mark.offset .factorial operand)
  | number {level rest} (numeral : Token) :
      numeral.kind = .number →
      (Binary64.ofNumeral numeral.text).isFinite = true →
      Derives limit .primary level (numeral :: rest) rest
        (.number numeral.offset (Binary64.ofNumeral numeral.text))
  | constant {level rest value} (name : Token) :
      name.kind = .identifier →
      namedConstant? name.text = some value →
      NotCalled rest →
      Derives limit .primary level (name :: rest) rest (.number name.offset value)
  | group {level ts rest e} (opening closing : Token) :
      opening.kind = .leftParen →
      closing.kind = .rightParen →
      level + 1 ≤ limit →
      Derives limit .sum (level + 1) ts (closing :: rest) e →
      Derives limit .primary level (opening :: ts) rest e
  | array {level ts rest items} (opening closing : Token) :
      opening.kind = .leftBracket →
      closing.kind = .rightBracket →
      DerivesItems limit (level + 1) ts (closing :: rest) items →
      Derives limit .primary level (opening :: ts) rest (.array opening.offset items)
  | call {level ts rest args} (name opening closing : Token) :
      name.kind = .identifier →
      opening.kind = .leftParen →
      closing.kind = .rightParen →
      DerivesItems limit (level + 1) ts (closing :: rest) args →
      Derives limit .primary level (name :: opening :: ts) rest
        (.call name.offset name.text args)

/-- `DerivesItems limit level ts rest es` holds if the tokens of `ts` before `rest` are expressions
at the given level of nesting, separated by commas, and denote `es`. -/
inductive DerivesItems (limit : Nat) : Nat → List Token → List Token → List Expr → Prop where
  | none {level ts} :
      DerivesItems limit level ts ts []
  | one {level ts rest e} :
      level ≤ limit →
      Derives limit .sum level ts rest e →
      DerivesItems limit level ts rest [e]
  | more {level ts mid rest es e} (separator : Token) :
      separator.kind = .comma →
      es ≠ [] →
      DerivesItems limit level ts (separator :: mid) es →
      level ≤ limit →
      Derives limit .sum level mid rest e →
      DerivesItems limit level ts rest (es ++ [e])

end

variable {limit level : Nat} {c d : Category} {ts mid rest : List Token} {e left right : Expr}
  {es : List Expr}

/-! ## Categories -/

/-- How tight a category is. -/
def Category.rank : Category → Nat
  | .sum => 1
  | .product => 2
  | .power => 3
  | .signed => 4
  | .factorial => 5
  | .primary => 6

/-- A phrase of a category is a phrase of every looser one. -/
theorem Derives.loosen
    (h : Derives limit c level ts rest e)
    (hrank : d.rank ≤ c.rank) :
    Derives limit d level ts rest e := by
  have toFactorial : ∀ {c}, Category.factorial.rank ≤ c.rank →
      Derives limit c level ts rest e → Derives limit .factorial level ts rest e := by
    intro c hc h
    cases c with
    | factorial => exact h
    | primary => exact .ofPrimary h
    | _ => exact absurd hc (by decide)
  have toSigned : ∀ {c}, Category.signed.rank ≤ c.rank →
      Derives limit c level ts rest e → Derives limit .signed level ts rest e := by
    intro c hc h
    cases c with
    | signed => exact h
    | factorial | primary => exact .ofFactorial (toFactorial (by decide) h)
    | _ => exact absurd hc (by decide)
  have toPower : ∀ {c}, Category.power.rank ≤ c.rank →
      Derives limit c level ts rest e → Derives limit .power level ts rest e := by
    intro c hc h
    cases c with
    | power => exact h
    | signed | factorial | primary => exact .ofSigned (toSigned (by decide) h)
    | _ => exact absurd hc (by decide)
  have toProduct : ∀ {c}, Category.product.rank ≤ c.rank →
      Derives limit c level ts rest e → Derives limit .product level ts rest e := by
    intro c hc h
    cases c with
    | product => exact h
    | power | signed | factorial | primary => exact .ofPower (toPower (by decide) h)
    | sum => exact absurd hc (by decide)
  cases d with
  | sum =>
      cases c with
      | sum => exact h
      | _ => exact .ofProduct (toProduct (by decide) h)
  | product => exact toProduct hrank h
  | power => exact toPower hrank h
  | signed => exact toSigned hrank h
  | factorial => exact toFactorial hrank h
  | primary =>
      cases c with
      | primary => exact h
      | _ => exact absurd hrank (by decide)

/-! ## Operators with two operands -/

/-- The category of a phrase that an operator builds. -/
def BinaryOperator.category : BinaryOperator → Category
  | .plus | .minus => .sum
  | .times | .over | .modulo => .product
  | .power => .power

/-- The category of the left operand of an operator. -/
def BinaryOperator.leftCategory : BinaryOperator → Category
  | .plus | .minus => .sum
  | .times | .over | .modulo => .product
  | .power => .signed

/-- The category of the right operand of an operator. -/
def BinaryOperator.rightCategory : BinaryOperator → Category
  | .plus | .minus => .product
  | .times | .over | .modulo | .power => .power

theorem additive?_eq_some {kind : TokenKind} {op : BinaryOperator}
    (h : additive? kind = some op) :
    Parser.operator? kind = some op ∧ op ≠ .power ∧
      op.category = .sum ∧ op.leftCategory = .sum ∧ op.rightCategory = .product := by
  cases kind <;> cases h <;> decide

theorem multiplicative?_eq_some {kind : TokenKind} {op : BinaryOperator}
    (h : multiplicative? kind = some op) :
    Parser.operator? kind = some op ∧ op ≠ .power ∧
      op.category = .product ∧ op.leftCategory = .product ∧ op.rightCategory = .power := by
  cases kind <;> cases h <;> decide

theorem operator?_eq_some {kind : TokenKind} {op : BinaryOperator}
    (h : Parser.operator? kind = some op) :
    additive? kind = some op ∨ multiplicative? kind = some op ∨ kind = .caret ∧ op = .power := by
  cases kind <;> cases h <;> decide

/-- The three rules for two operands as one rule. -/
theorem Derives.binary {op : BinaryOperator} (sign : Token)
    (hop : Parser.operator? sign.kind = some op)
    (hlevel : op = .power → level + 1 ≤ limit)
    (hleft : Derives limit op.leftCategory level ts (sign :: mid) left)
    (hright : Derives limit op.rightCategory (if op = .power then level + 1 else level) mid rest
      right) :
    Derives limit op.category level ts rest (.binary sign.offset op left right) := by
  rcases operator?_eq_some hop with hsign | hsign | ⟨hsign, rfl⟩
  · obtain ⟨-, hpower, hcategory, hl, hr⟩ := additive?_eq_some hsign
    rw [hl] at hleft
    rw [hr, if_neg hpower] at hright
    rw [hcategory]
    exact .sum sign hsign hleft hright
  · obtain ⟨-, hpower, hcategory, hl, hr⟩ := multiplicative?_eq_some hsign
    rw [hl] at hleft
    rw [hr, if_neg hpower] at hright
    rw [hcategory]
    exact .product sign hsign hleft hright
  · exact .power sign hsign (hlevel rfl) hleft hright

/-! ## Where phrases start -/

/-- A phrase starts with a token that can start an operand. -/
theorem Derives.starts {c : Category} {level : Nat} {ts rest : List Token} {e : Expr}
    (h : Derives limit c level ts rest e) :
    ∃ t ts', ts = t :: ts' ∧ t.kind ∈ Parser.operandStart :=
  match h with
  | .ofProduct h | .ofPower h | .ofSigned h | .ofFactorial h | .ofPrimary h => h.starts
  | .sum _ _ h _ | .product _ _ h _ | .power _ _ _ h _ | .factorial _ _ h => h.starts
  | .signed t ht _ _ | .number t ht _ | .constant t ht _ _ | .group t _ ht _ _ _
  | .array t _ ht _ _ | .call t _ _ ht _ _ _ => ⟨t, _, rfl, by rw [ht]; decide⟩

theorem DerivesItems.starts {level : Nat} {ts rest : List Token} {es : List Expr}
    (h : DerivesItems limit level ts rest es) (hes : es ≠ []) :
    ∃ t ts', ts = t :: ts' ∧ t.kind ∈ Parser.operandStart :=
  match h with
  | .none => absurd rfl hes
  | .one _ h => h.starts
  | .more _ _ hes h _ _ => h.starts hes

theorem DerivesItems.level_le
    (h : DerivesItems limit level ts rest es)
    (hes : es ≠ []) :
    level ≤ limit := by
  cases h with
  | none => exact absurd rfl hes
  | one hlevel h => exact hlevel
  | more separator hseparator hitems h hlevel he => exact hlevel

theorem DerivesItems.eq_of_nil
    (h : DerivesItems limit level ts rest []) :
    ts = rest := by
  generalize hes : ([] : List Expr) = es at h
  cases h with
  | none => rfl
  | one hlevel h => cases hes
  | more separator hseparator hitems h hlevel he =>
      exact absurd hes.symm (List.append_ne_nil_of_right_ne_nil _ (List.cons_ne_nil _ _))

theorem DerivesItems.cons {level : Nat} {ts mid rest : List Token} {e : Expr} {es : List Expr}
    (separator : Token) (hseparator : separator.kind = .comma) (hlevel : level ≤ limit)
    (he : Derives limit .sum level ts (separator :: mid) e)
    (h : DerivesItems limit level mid rest es) (hes : es ≠ []) :
    DerivesItems limit level ts rest (e :: es) :=
  match h with
  | .none => absurd rfl hes
  | .one _ hlast =>
    have hfirst : DerivesItems limit level ts (separator :: mid) [e] := .one hlevel he
    .more separator hseparator (List.cons_ne_nil e []) hfirst hlevel hlast
  | .more next hnext hitems h _ hlast =>
    .more next hnext (List.cons_ne_nil e _) (h.cons separator hseparator hlevel he hitems)
      hlevel hlast

end StackCalc
