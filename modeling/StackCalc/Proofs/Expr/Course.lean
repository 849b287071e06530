import Mathlib
import StackCalc.Proofs.Expr.Violations

/-!
# The course of a traversal

A traversal of an expression goes from left to right and meets two kinds of events.  It completes a
node when everything inside the node lies behind it, and it meets violations on the way: on entering
a node, and where the type of an operand is looked at that has just been completed.

The course lists the events in the order of time, as if the traversal went on after a violation.  A
call that is itself refused is not entered, so neither the call nor anything inside it is completed.
Up to the first violation the nodes are completed in post-order.
-/

namespace StackCalc

/-- What a traversal comes to. -/
inductive Event where
  | violation (found : CompileError)
  /-- The node and everything inside it lie behind. -/
  | completed (node : Expr)

def Event.violation? : Event → Option CompileError
  | .violation found => some found
  | .completed _ => none

namespace Expr

mutual

/-- The events of the traversal of an expression at a level. -/
def course (functions : Functions) (level : Nat) : Expr → List Event
  | .number offset value =>
    (levelViolations level offset).map .violation ++ [.completed (.number offset value)]
  | .array offset items =>
    (levelViolations level offset).map .violation ++
      operandsCourse functions (level + 1) ⟨.number, .arrayElement⟩ items ++
        [.completed (.array offset items)]
  | .unary offset op operand =>
    (levelViolations level offset).map .violation ++
      (operand.course functions (level + 1) ++
        (typeViolations (.ofOperator op.sign) operand).map .violation) ++
        [.completed (.unary offset op operand)]
  | .binary offset op left right =>
    (levelViolations level offset).map .violation ++
      (left.course functions (level + 1) ++
        (typeViolations (.ofOperator op.sign) left).map .violation ++
        (right.course functions (level + 1) ++
          (typeViolations (.ofOperator op.sign) right).map .violation)) ++
        [.completed (.binary offset op left right)]
  | .call offset name args =>
    (levelViolations level offset).map .violation ++
      match Demand.ofCall functions offset name args.length with
      | .error violation => [.violation violation]
      | .ok demand =>
        operandsCourse functions (level + 1) demand args ++ [.completed (.call offset name args)]
  | .hole offset => (levelViolations level offset).map .violation ++ [.completed (.hole offset)]

/-- The events of the traversal of operands that have to meet a demand. -/
def operandsCourse (functions : Functions) (level : Nat) (demand : Demand) :
    List Expr → List Event
  | [] => []
  | e :: es =>
    e.course functions level ++ (typeViolations demand e).map .violation ++
      operandsCourse functions level demand es

end

variable {functions : Functions} {level : Nat} {demand : Demand}

/-! ## Violations -/

theorem filterMap_violation? (violations : List CompileError) :
    (violations.map Event.violation).filterMap Event.violation? = violations := by
  rw [List.filterMap_map]
  change violations.filterMap some = violations
  exact List.filterMap_some

theorem filterMap_operandsCourse (demand : Demand) {es : List Expr}
    (hes : ∀ a ∈ es, (a.course functions level).filterMap Event.violation? =
      a.violations functions level) :
    (operandsCourse functions level demand es).filterMap Event.violation? =
      operandViolations functions level demand es := by
  induction es with
  | nil => rfl
  | cons e es ih =>
      have hfirst := hes e List.mem_cons_self
      have hrest := ih fun a ha => hes a (List.mem_cons_of_mem e ha)
      rw [operandsCourse, operandViolations, List.filterMap_append, List.filterMap_append, hfirst,
        hrest, filterMap_violation?]

/-- The violations of the course are those of the expression. -/
theorem filterMap_course (functions : Functions) (level : Nat) (e : Expr) :
    (e.course functions level).filterMap Event.violation? = e.violations functions level := by
  induction e using operandInduction generalizing level with
  | node e ih =>
      have hoperands (demand : Demand) := filterMap_operandsCourse demand fun a ha =>
        ih a ha (level + 1)
      have hcompleted (node : Expr) :
          List.filterMap Event.violation? [Event.completed node] = [] := rfl
      cases e with
      | number offset value | hole offset =>
          rw [course, violations, List.filterMap_append, filterMap_violation?, hcompleted,
            List.append_nil]
      | array offset items =>
          rw [course, violations, List.filterMap_append, List.filterMap_append,
            filterMap_violation?, hcompleted, List.append_nil]
          exact congrArg _ (hoperands ⟨.number, .arrayElement⟩)
      | unary offset op operand =>
          have hoperand := ih operand (by simp [operands]) (level + 1)
          simp only [course, violations, List.filterMap_append, filterMap_violation?, hcompleted,
            List.append_nil, hoperand]
      | binary offset op left right =>
          have hleft := ih left (by simp [operands]) (level + 1)
          have hright := ih right (by simp [operands]) (level + 1)
          simp only [course, violations, List.filterMap_append, filterMap_violation?, hcompleted,
            List.append_nil, hleft, hright]
      | call offset name args =>
          rw [course, violations, List.filterMap_append, filterMap_violation?]
          cases Demand.ofCall functions offset name args.length with
          | error violation => rfl
          | ok demand =>
              rw [List.filterMap_append, hcompleted, List.append_nil]
              exact congrArg _ (hoperands demand)

theorem head?_violations_of_course_eq
    {e : Expr} {done : List Expr} {violation : CompileError} {rest : List Event}
    (h : e.course functions level = done.map .completed ++ .violation violation :: rest) :
    (e.violations functions level).head? = some violation := by
  have hdone : (done.map Event.completed).filterMap Event.violation? = [] := by
    rw [List.filterMap_map]
    exact List.filterMap_none done
  rw [← filterMap_course, h, List.filterMap_append, hdone]
  rfl

/-! ## Completed nodes -/

/-- The events complete the nodes, or some first ones of them before the first violation. -/
def Completes (events : List Event) (nodes : List Expr) : Prop :=
  events = nodes.map .completed ∨
    ∃ done violation rest, events = done.map .completed ++ .violation violation :: rest ∧
      done <+: nodes

theorem completes_violations (violations : List CompileError) :
    Completes (violations.map .violation) [] := by
  cases violations with
  | nil => exact Or.inl rfl
  | cons violation rest =>
      exact Or.inr ⟨[], violation, rest.map .violation, rfl, List.prefix_refl []⟩

theorem Completes.append {events later : List Event} {nodes following : List Expr}
    (h : Completes events nodes) (h' : Completes later following) :
    Completes (events ++ later) (nodes ++ following) := by
  rcases h with rfl | ⟨done, violation, rest, rfl, hdone⟩
  · rcases h' with rfl | ⟨done, violation, rest, rfl, hdone⟩
    · exact Or.inl List.map_append.symm
    · refine Or.inr ⟨nodes ++ done, violation, rest, ?_, ?_⟩
      · rw [List.map_append, List.append_assoc]
      · exact (List.prefix_append_right_inj nodes).mpr hdone
  · refine Or.inr ⟨done, violation, rest ++ later, ?_, hdone.trans (List.prefix_append _ _)⟩
    rw [List.append_assoc, List.cons_append]

theorem Completes.node {e : Expr} {events : List Event}
    (h : Completes events (postorders e.operands)) (offset : Int) :
    Completes ((levelViolations level offset).map .violation ++ events ++ [.completed e])
      e.postorder := by
  rw [postorder_eq, ← List.nil_append (postorders e.operands)]
  exact ((completes_violations _).append h).append (Or.inl rfl)

theorem Completes.operand {e : Expr} (h : Completes (e.course functions level) e.postorder)
    (demand : Demand) :
    Completes (e.course functions level ++ (typeViolations demand e).map .violation)
      e.postorder := by
  rw [← List.append_nil e.postorder]
  exact h.append (completes_violations _)

theorem completes_operandsCourse {es : List Expr}
    (hes : ∀ a ∈ es, Completes (a.course functions level) a.postorder) :
    Completes (operandsCourse functions level demand es) (postorders es) := by
  induction es with
  | nil => exact Or.inl (by rw [operandsCourse, postorders_nil, List.map_nil])
  | cons e es ih =>
      rw [operandsCourse, postorders_cons]
      apply ((hes e List.mem_cons_self).operand demand).append
      exact ih fun a ha => hes a (List.mem_cons_of_mem e ha)

/-- The traversal completes the nodes of an expression in post-order, until it meets a violation. -/
theorem completes_course (functions : Functions) (level : Nat) (e : Expr) :
    Completes (e.course functions level) e.postorder := by
  induction e using operandInduction generalizing level with
  | node e ih =>
      cases e with
      | number offset value | hole offset =>
          rw [course, postorder, ← List.nil_append [_]]
          exact (completes_violations _).append (Or.inl rfl)
      | array offset items =>
          rw [course]
          exact (completes_operandsCourse fun a ha => ih a ha (level + 1)).node offset
      | unary offset op operand =>
          have hoperand := (ih operand (by simp [operands]) (level + 1)).operand
            (.ofOperator op.sign)
          rw [course]
          refine Completes.node ?_ offset
          rw [operands, postorders_cons, postorders_nil, List.append_nil]
          exact hoperand
      | binary offset op left right =>
          have hleft := (ih left (by simp [operands]) (level + 1)).operand (.ofOperator op.sign)
          have hright := (ih right (by simp [operands]) (level + 1)).operand (.ofOperator op.sign)
          rw [course]
          refine Completes.node ?_ offset
          rw [operands, postorders_cons, postorders_cons, postorders_nil, List.append_nil]
          exact hleft.append hright
      | call offset name args =>
          rw [course]
          cases Demand.ofCall functions offset name args.length with
          | error violation =>
              -- The call is not entered: none of its nodes are completed.
              rw [← List.nil_append (postorder _)]
              refine (completes_violations _).append (Or.inr ?_)
              exact ⟨[], violation, [], rfl, List.nil_prefix⟩
          | ok demand =>
              rw [← List.append_assoc]
              exact (completes_operandsCourse fun a ha => ih a ha (level + 1)).node offset

/-- The nodes completed before the first violation. -/
def completedFirst : List Event → List Expr
  | [] => []
  | .violation _ :: _ => []
  | .completed node :: events => node :: completedFirst events

theorem completedFirst_append (nodes : List Expr) (events : List Event) :
    completedFirst (nodes.map .completed ++ events) = nodes ++ completedFirst events := by
  induction nodes with
  | nil => rfl
  | cons node nodes ih => exact congrArg (node :: ·) ih

theorem prefix_postorder_of_course_eq
    {e : Expr} {done : List Expr} {violation : CompileError} {rest : List Event}
    (h : e.course functions level = done.map .completed ++ .violation violation :: rest) :
    done <+: e.postorder := by
  have hdone : completedFirst (e.course functions level) = done := by
    rw [h, completedFirst_append, completedFirst, List.append_nil]
  rcases completes_course functions level e with hall | ⟨first, violation', rest', hfirst, hprefix⟩
  · rw [hall, ← List.append_nil (List.map _ _), completedFirst_append, completedFirst,
      List.append_nil] at hdone
    rw [hdone]
  · rw [hfirst, completedFirst_append, completedFirst, List.append_nil] at hdone
    rwa [hdone] at hprefix

end Expr

end StackCalc
