import Mathlib
import StackCalc.Proofs.Parser.Grammar

/-!
# Open frames and categories

Each frame demands a category of the phrase that comes to stand inside it: a minus a signed
phrase, an operator its right operand, and the other frames a sum.  Completing open operators at
the bound of an operator stops at frames that may stand around its result.
-/

namespace StackCalc

namespace Parser

variable {frames : List Frame} {operand : Expr} {token : Token} {op : BinaryOperator}

/-- How tight a phrase must be to stand inside the frames. -/
def demand : List Frame → Nat
  | .minus _ :: _ => Category.signed.rank
  | .binary _ op _ :: _ => op.rightCategory.rank
  | _ => Category.sum.rank

/-- The bound at which open operators are completed before an operator. -/
def bound (op : BinaryOperator) : Nat :=
  if op = .power then 4 else strength op

theorem strength_lt_bound {op' : BinaryOperator} (h : op'.rightCategory.rank ≤ strength op) :
    strength op' < bound op := by
  revert h
  cases op <;> cases op' <;> decide

theorem level_cons (frame : Frame) (frames : List Frame) :
    level (frame :: frames) = level frames + if frame.nests then 1 else 0 := by
  rw [level, level, List.countP_cons]
  omega

theorem level_of_nests {frame : Frame} (h : frame.nests = true) :
    level (frame :: frames) = level frames + 1 := by
  rw [level_cons, if_pos h]

theorem level_binary (offset : Int) (op : BinaryOperator) (left : Expr) (frames : List Frame) :
    level (.binary offset op left :: frames) =
      if op = .power then level frames + 1 else level frames := by
  rw [level_cons]
  cases op <;> rfl

theorem rank_category (op : BinaryOperator) : op.category.rank = strength op := by
  cases op <;> rfl

theorem rank_leftCategory (op : BinaryOperator) : op.leftCategory.rank = bound op := by
  cases op <;> rfl

/-! ## Completing operators -/

theorem complete_minus (b : Nat) (offset : Int) :
    complete b operand (.minus offset :: frames) =
      complete b (.unary offset .negation operand) frames := by
  rw [complete]

theorem complete_binary_of_le {b : Nat} {offset : Int} {left : Expr} (h : b ≤ strength op) :
    complete b operand (.binary offset op left :: frames) =
      complete b (.binary offset op left operand) frames := by
  rw [complete, if_pos h]

theorem complete_binary_of_lt {b : Nat} {offset : Int} {left : Expr} (h : strength op < b) :
    complete b operand (.binary offset op left :: frames) =
      (operand, .binary offset op left :: frames) := by
  rw [complete, if_neg (by omega)]

/-- Nothing is completed before an operator whose result may stand inside the frames. -/
theorem complete_bound (h : demand frames ≤ strength op) :
    complete (bound op) operand frames = (operand, frames) := by
  cases frames with
  | nil => rfl
  | cons frame frames =>
      cases frame with
      | group | array | call => rfl
      | minus offset =>
          have : strength op ≤ 3 := by cases op <;> decide
          simp only [demand, Category.rank] at h
          omega
      | binary offset op' left =>
          exact complete_binary_of_lt (strength_lt_bound h)

/-- Whether the frames are empty or their top is a bracket. -/
def Bracketed : List Frame → Prop
  | .minus _ :: _ | .binary _ _ _ :: _ => False
  | _ => True

theorem demand_of_bracketed (h : Bracketed frames) : demand frames = Category.sum.rank := by
  rcases frames with _ | ⟨_ | _ | _ | _ | _, frames⟩
  all_goals first | rfl | cases h

theorem complete_of_bracketed {b : Nat} (h : Bracketed frames) :
    complete b operand frames = (operand, frames) := by
  rcases frames with _ | ⟨_ | _ | _ | _ | _, frames⟩
  all_goals first | rfl | cases h

/-! ## Taking single tokens -/

theorem take_start : State.take ⟨frames, .start⟩ token = takeStart frames token := rfl

theorem take_operand : State.take ⟨frames, .operand⟩ token = takeOperand frames token := rfl

theorem take_after : State.take ⟨frames, .after operand⟩ token = takeAfter frames operand token :=
  rfl

theorem take_list (h : closing? frames ≠ some token.kind) :
    State.take ⟨frames, .list⟩ token = takeStart frames token := by
  simp only [State.take]
  rw [if_neg h]

theorem take_name_paren {offset : Nat} {name : String} (h : token.kind = .leftParen) :
    State.take ⟨frames, .name offset name⟩ token =
      .ok ⟨.call offset name [] :: frames, .list⟩ := by
  simp only [State.take]
  rw [if_pos h]

theorem take_name {offset : Nat} {name : String} (h : token.kind ≠ .leftParen) :
    State.take ⟨frames, .name offset name⟩ token =
      (resolveName name token).bind fun value =>
        takeAfter frames (.number offset value) token := by
  simp only [State.take]
  rw [if_neg h]
  rfl

theorem resolveName_of_some {name : String} {value : Binary64}
    (h : namedConstant? name = some value) : resolveName name token = .ok value := by
  simp only [resolveName, h]

theorem takeStart_of_le (h : level frames ≤ maxNesting) :
    takeStart frames token = takeOperand frames token := by
  rw [takeStart, if_neg (by omega)]

theorem operator?_ne_bang {kind : TokenKind} (h : operator? kind = some op) : kind ≠ .bang := by
  rintro rfl
  cases h

theorem takeAfter_bang (h : token.kind = .bang) :
    takeAfter frames operand token =
      .ok ⟨frames, .after (.unary token.offset .factorial operand)⟩ := by
  rw [takeAfter, if_pos h]

theorem takeAfter_operator (h : operator? token.kind = some op) :
    takeAfter frames operand token =
      if op = .power ∧ maxNesting ≤ level (complete (bound op) operand frames).2 then
        refuse token .tooDeep
      else
        .ok ⟨.binary token.offset op (complete (bound op) operand frames).1 ::
          (complete (bound op) operand frames).2, .operand⟩ := by
  rw [takeAfter, if_neg (operator?_ne_bang h), h]
  rfl

/-- Takes a closing token after an operand whose open operators are complete. -/
def takeCloser (frames : List Frame) (item : Expr) (token : Token) : Except ParseError State :=
  let next :=
    if token.kind ∈ closers frames then
      if token.kind = .comma then addItem item frames else close [item] frames
    else none
  match next with
  | some state => .ok state
  | none => refuse token (.unexpected (closers frames))

theorem takeAfter_closer (hbang : token.kind ≠ .bang) (h : operator? token.kind = none) :
    takeAfter frames operand token =
      takeCloser (complete 0 operand frames).2 (complete 0 operand frames).1 token := by
  rw [takeAfter, if_neg hbang, h]
  rfl

end Parser

end StackCalc
