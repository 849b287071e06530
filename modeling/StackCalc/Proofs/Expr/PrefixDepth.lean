import Mathlib
import StackCalc.Proofs.Expr.Typing

/-!
# Writing high trees

A tree is written within some room exactly if the calls that write it are not nested deeper.  Every
level of the tree takes one or two calls, so the room that a tree needs lies between its height and
twice its height.
-/

namespace StackCalc

namespace Expr

mutual

/-- How deep calls are nested when an expression is written. -/
def prefixDepth : Expr → Nat
  | .number _ _ => 1
  | .array _ items => prefixDepths items + 2
  | .unary _ _ operand => operand.prefixDepth + 1
  | .binary _ _ left right => max left.prefixDepth right.prefixDepth + 1
  | .call _ _ args => prefixDepths args + 2
  | .hole _ => 1

/-- How deep calls are nested when expressions are written one after another. -/
def prefixDepths : List Expr → Nat
  | [] => 0
  | e :: es => max e.prefixDepth (prefixDepths es)

end

theorem prefixTextsWithin_eq {es : List Expr} {room : Nat}
    (h : ∀ e ∈ es, prefixTextWithin room e =
      if e.prefixDepth ≤ room then some e.prefixText else none) :
    prefixTextsWithin (room + 1) es =
      if prefixDepths es ≤ room then some (prefixTexts es) else none := by
  induction es with
  | nil => simp [prefixTextsWithin, prefixDepths, prefixTexts]
  | cons e es ih =>
      obtain ⟨he, hes⟩ := List.forall_mem_cons.mp h
      rw [prefixTextsWithin, he, ih hes, prefixDepths, prefixTexts]
      by_cases hdepth : e.prefixDepth ≤ room
      · by_cases hdepths : prefixDepths es ≤ room
        · simp [hdepth, hdepths]
        · simp [hdepths]
      · simp [hdepth]

theorem prefixTextsWithin_eq_of_room (es : List Expr) (room : Nat)
    (h : ∀ e ∈ es, ∀ room, prefixTextWithin room e =
      if e.prefixDepth ≤ room then some e.prefixText else none) :
    prefixTextsWithin room es =
      if prefixDepths es + 1 ≤ room then some (prefixTexts es) else none := by
  cases room with
  | zero => simp [prefixTextsWithin]
  | succ room =>
      rw [prefixTextsWithin_eq fun e he => h e he room]
      simp only [Nat.add_le_add_iff_right]

theorem prefixTextWithin_eq (e : Expr) (room : Nat) :
    prefixTextWithin room e = if e.prefixDepth ≤ room then some e.prefixText else none := by
  induction e using operandInduction generalizing room with
  | node e ih =>
      cases room with
      | zero => cases e <;> simp [prefixTextWithin, prefixDepth]
      | succ room =>
          cases e with
          | number offset value => simp [prefixTextWithin, prefixDepth, prefixText]
          | hole offset => simp [prefixTextWithin, prefixDepth, prefixText]
          | unary offset op operand =>
              rw [prefixTextWithin, ih operand (by simp [operands])]
              by_cases hdepth : operand.prefixDepth ≤ room
              · simp [prefixDepth, prefixText, hdepth]
              · simp [prefixDepth, hdepth]
          | binary offset op left right =>
              rw [prefixTextWithin, ih left (by simp [operands]), ih right (by simp [operands])]
              by_cases hleft : left.prefixDepth ≤ room
              · by_cases hright : right.prefixDepth ≤ room
                · simp [prefixDepth, prefixText, hleft, hright]
                · simp [prefixDepth, hright]
              · simp [prefixDepth, hleft]
          | array offset items =>
              rw [prefixTextWithin, prefixTextsWithin_eq_of_room items room ih]
              by_cases hdepth : prefixDepths items + 1 ≤ room
              · simp [prefixDepth, prefixText, hdepth]
              · simp [prefixDepth, hdepth]
          | call offset name args =>
              rw [prefixTextWithin, prefixTextsWithin_eq_of_room args room ih]
              by_cases hdepth : prefixDepths args + 1 ≤ room
              · simp [prefixDepth, prefixText, hdepth]
              · simp [prefixDepth, hdepth]

theorem prefixDepths_bounds {es : List Expr}
    (h : ∀ e ∈ es, e.height ≤ e.prefixDepth ∧ e.prefixDepth ≤ 2 * e.height) :
    heights es ≤ prefixDepths es ∧ prefixDepths es ≤ 2 * heights es := by
  induction es with
  | nil => exact ⟨Nat.le_refl 0, Nat.le_refl 0⟩
  | cons e es ih =>
      obtain ⟨⟨hlow, hhigh⟩, hes⟩ := List.forall_mem_cons.mp h
      obtain ⟨hlows, hhighs⟩ := ih hes
      rw [heights, prefixDepths]
      omega

/-- A tree needs at least one call for each of its levels, and at most two. -/
theorem prefixDepth_bounds (e : Expr) :
    e.height ≤ e.prefixDepth ∧ e.prefixDepth ≤ 2 * e.height := by
  induction e using operandInduction with
  | node e ih =>
      cases e with
      | number offset value => simp [height, prefixDepth]
      | hole offset => simp [height, prefixDepth]
      | unary offset op operand =>
          obtain ⟨hlow, hhigh⟩ := ih operand (by simp [operands])
          rw [height, prefixDepth]
          omega
      | binary offset op left right =>
          obtain ⟨hleft, hleft'⟩ := ih left (by simp [operands])
          obtain ⟨hright, hright'⟩ := ih right (by simp [operands])
          rw [height, prefixDepth]
          omega
      | array offset items =>
          have hitems :
              heights items ≤ prefixDepths items ∧ prefixDepths items ≤ 2 * heights items :=
            prefixDepths_bounds ih
          rw [height, prefixDepth]
          omega
      | call offset name args =>
          have hargs : heights args ≤ prefixDepths args ∧ prefixDepths args ≤ 2 * heights args :=
            prefixDepths_bounds ih
          rw [height, prefixDepth]
          omega

end Expr

end StackCalc
