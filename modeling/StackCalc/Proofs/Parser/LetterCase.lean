import Mathlib
import StackCalc.Expr.Parser
import StackCalc.Proofs.Token.LetterCase

/-!
# Letter case in the reader

The reader looks at the name of a token only to find the constant of that name, whatever the case
of its letters.  So it makes the same tree of tokens in lower case, but for the names in it, and
refuses the same token for the same reason.
-/

namespace StackCalc

mutual

/-- The expression with its names in lower case. -/
def Expr.lowered : Expr → Expr
  | .number offset value => .number offset value
  | .array offset items => .array offset (Expr.loweredAll items)
  | .unary offset op operand => .unary offset op operand.lowered
  | .binary offset op left right => .binary offset op left.lowered right.lowered
  | .call offset name args => .call offset name.toLower (Expr.loweredAll args)
  | .hole offset => .hole offset

def Expr.loweredAll : List Expr → List Expr
  | [] => []
  | e :: es => e.lowered :: Expr.loweredAll es

end

theorem Expr.loweredAll_eq (es : List Expr) : Expr.loweredAll es = es.map Expr.lowered := by
  induction es with
  | nil => rfl
  | cons e es ih => rw [Expr.loweredAll, ih, List.map_cons]

theorem namedConstant?_toLower (name : String) :
    namedConstant? name.toLower = namedConstant? name := by
  rw [namedConstant?, namedConstant?, toLower_toLower]

def ParseFault.lowered : ParseFault → ParseFault
  | .uncalled name => .uncalled name.toLower
  | fault => fault

def ParseError.lowered (e : ParseError) : ParseError := ⟨e.token.lowered, e.fault.lowered⟩

theorem ParseFault.expected_lowered (fault : ParseFault) :
    fault.lowered.expected = fault.expected := by
  cases fault <;> rfl

namespace Parser

def Frame.lowered : Frame → Frame
  | .group => .group
  | .array offset items => .array offset (items.map Expr.lowered)
  | .call offset name args => .call offset name.toLower (args.map Expr.lowered)
  | .binary offset op left => .binary offset op left.lowered
  | .minus offset => .minus offset

def Phase.lowered : Phase → Phase
  | .start => .start
  | .list => .list
  | .operand => .operand
  | .name offset text => .name offset text.toLower
  | .after e => .after e.lowered

def State.lowered (s : State) : State := ⟨s.frames.map Frame.lowered, s.phase.lowered⟩

variable {frames : List Frame} {t : Token}

theorem kind_lowered (t : Token) : t.lowered.kind = t.kind := rfl

theorem level_lowered (frames : List Frame) : level (frames.map Frame.lowered) = level frames := by
  have hnests : Frame.nests ∘ Frame.lowered = Frame.nests := by
    funext frame
    cases frame <;> rfl
  rw [level, level, List.countP_map, hnests]

theorem closing?_lowered (frames : List Frame) :
    closing? (frames.map Frame.lowered) = closing? frames := by
  rcases frames with _ | ⟨_ | _ | _ | _ | _, frames⟩ <;> rfl

theorem closers_lowered (frames : List Frame) :
    closers (frames.map Frame.lowered) = closers frames := by
  rcases frames with _ | ⟨_ | _ | _ | _ | _, frames⟩ <;> rfl

theorem complete_lowered (bound : Nat) (operand : Expr) (frames : List Frame) :
    complete bound operand.lowered (frames.map Frame.lowered) =
      ((complete bound operand frames).1.lowered,
        (complete bound operand frames).2.map Frame.lowered) := by
  induction frames generalizing operand with
  | nil => rfl
  | cons frame frames ih =>
      cases frame with
      | minus offset => exact ih (.unary offset .negation operand)
      | binary offset op left =>
          rw [List.map_cons, Frame.lowered, complete, complete]
          split
          · exact ih (.binary offset op left operand)
          · rfl
      | _ => rfl

theorem close_lowered (last : List Expr) (frames : List Frame) :
    close (last.map Expr.lowered) (frames.map Frame.lowered) =
      (close last frames).map State.lowered := by
  rcases frames with _ | ⟨_ | _ | _ | _ | _, frames⟩
  · rfl
  · cases last <;> rfl
  · simp [close, State.lowered, Phase.lowered, Frame.lowered, Expr.lowered, Expr.loweredAll_eq]
  · simp [close, State.lowered, Phase.lowered, Frame.lowered, Expr.lowered, Expr.loweredAll_eq]
  · rfl
  · rfl

theorem close_nil_lowered (frames : List Frame) :
    close [] (frames.map Frame.lowered) = (close [] frames).map State.lowered :=
  close_lowered [] frames

theorem close_one_lowered (item : Expr) (frames : List Frame) :
    close [item.lowered] (frames.map Frame.lowered) = (close [item] frames).map State.lowered :=
  close_lowered [item] frames

theorem addItem_lowered (item : Expr) (frames : List Frame) :
    addItem item.lowered (frames.map Frame.lowered) =
      (addItem item frames).map State.lowered := by
  rcases frames with _ | ⟨_ | _ | _ | _ | _, frames⟩ <;> rfl

/-- The outcome of a part of the reader, in lower case. -/
def lowerOutcome {α : Type} (lower : α → α) (outcome : Except ParseError α) : Except ParseError α :=
  (outcome.map lower).mapError ParseError.lowered

theorem takeOperand_lowered (frames : List Frame) (t : Token) :
    takeOperand (frames.map Frame.lowered) t.lowered =
      lowerOutcome State.lowered (takeOperand frames t) := by
  obtain ⟨kind, text, offset⟩ := t
  cases kind with
  | number =>
      change (if (Binary64.ofNumeral text).isFinite then _ else _) =
        lowerOutcome State.lowered (if (Binary64.ofNumeral text).isFinite then _ else _)
      split
      · rfl
      · rfl
  | minus =>
      simp only [takeOperand, Token.lowered, level_lowered]
      split
      · rfl
      · rfl
  | _ => rfl

theorem takeStart_lowered (frames : List Frame) (t : Token) :
    takeStart (frames.map Frame.lowered) t.lowered =
      lowerOutcome State.lowered (takeStart frames t) := by
  rw [takeStart, takeStart, level_lowered]
  split
  · rfl
  · exact takeOperand_lowered frames t

theorem takeAfter_lowered (frames : List Frame) (operand : Expr) (t : Token) :
    takeAfter (frames.map Frame.lowered) operand.lowered t.lowered =
      lowerOutcome State.lowered (takeAfter frames operand t) := by
  rw [takeAfter, takeAfter, kind_lowered]
  split
  · rfl
  · cases operator? t.kind with
    | some op =>
        simp only [complete_lowered, level_lowered]
        generalize complete (if op = .power then 4 else strength op) operand frames = completed
        by_cases hdeep : op = .power ∧ maxNesting ≤ level completed.2
        · rw [if_pos hdeep, if_pos hdeep]
          rfl
        · rw [if_neg hdeep, if_neg hdeep]
          rfl
    | none =>
        simp only [complete_lowered, closers_lowered, addItem_lowered, close_one_lowered]
        generalize complete 0 operand frames = completed
        by_cases hcloses : t.kind ∈ closers completed.2
        · simp only [if_pos hcloses, ← apply_ite (Option.map State.lowered)]
          cases (if t.kind = .comma then addItem completed.1 completed.2
            else close [completed.1] completed.2) <;> rfl
        · simp only [if_neg hcloses]
          rfl

theorem resolveName_lowered (name : String) (t : Token) :
    resolveName name.toLower t.lowered = lowerOutcome id (resolveName name t) := by
  rw [resolveName, resolveName, namedConstant?_toLower]
  cases namedConstant? name <;> rfl

theorem take_lowered (s : State) (t : Token) :
    s.lowered.take t.lowered = lowerOutcome State.lowered (s.take t) := by
  obtain ⟨frames, phase⟩ := s
  cases phase with
  | start => exact takeStart_lowered frames t
  | list =>
      simp only [State.take, State.lowered, Phase.lowered, closing?_lowered, kind_lowered]
      split
      · rw [close_nil_lowered]
        cases close [] frames <;> rfl
      · exact takeStart_lowered frames t
  | operand => exact takeOperand_lowered frames t
  | name offset name =>
      by_cases hcalled : t.kind = .leftParen
      · have hlowered : t.lowered.kind = .leftParen := hcalled
        simp only [State.take, State.lowered, Phase.lowered, if_pos hcalled, if_pos hlowered]
        rfl
      · have hlowered : t.lowered.kind ≠ .leftParen := hcalled
        simp only [State.take, State.lowered, Phase.lowered, if_neg hcalled, if_neg hlowered,
          resolveName_lowered]
        cases resolveName name t with
        | error e => rfl
        | ok value => exact takeAfter_lowered frames (.number offset value) t
  | after operand => exact takeAfter_lowered frames operand t

theorem finishAfter_lowered (frames : List Frame) (operand : Expr) (t : Token) :
    finishAfter (frames.map Frame.lowered) operand.lowered t.lowered =
      lowerOutcome Expr.lowered (finishAfter frames operand t) := by
  rw [finishAfter, finishAfter, complete_lowered]
  obtain ⟨whole, _ | ⟨frame, rest⟩⟩ := complete 0 operand frames
  · rfl
  · simp only [List.map_cons]
    rw [← List.map_cons, closers_lowered]
    rfl

theorem finish_lowered (s : State) (t : Token) :
    s.lowered.finish t.lowered = lowerOutcome Expr.lowered (s.finish t) := by
  obtain ⟨frames, phase⟩ := s
  cases phase with
  | start | list =>
      simp only [State.finish, State.lowered, Phase.lowered, level_lowered]
      split
      · rfl
      · rfl
  | operand => rfl
  | name offset name =>
      simp only [State.finish, State.lowered, Phase.lowered]
      rw [resolveName_lowered]
      cases resolveName name t with
      | error e => rfl
      | ok value => exact finishAfter_lowered frames (.number offset value) t
  | after operand => exact finishAfter_lowered frames operand t

/-- The reader takes all tokens of a list in lower case as it takes the tokens themselves. -/
theorem run_lowered (s : State) (ts : List Token) (atEnd : Token) :
    s.lowered.run (ts.map Token.lowered) atEnd.lowered =
      lowerOutcome Expr.lowered (s.run ts atEnd) := by
  induction ts generalizing s with
  | nil => exact finish_lowered s atEnd
  | cons t ts ih =>
      rw [List.map_cons, State.run, State.run, take_lowered]
      cases s.take t with
      | error e => rfl
      | ok next => exact ih next

end Parser

theorem Expr.ofTokens_lowered (ts : Tokens) :
    Expr.ofTokens ts.lowered = ((Expr.ofTokens ts).map Expr.lowered).mapError ParseError.lowered :=
  Parser.run_lowered .initial ts.tokens (Token.atEnd ts.stop)

end StackCalc
