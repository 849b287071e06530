import Mathlib
import StackCalc.Evaluation
import StackCalc.Proofs.Compiler.Correctness
import StackCalc.Proofs.Decimal.Shortest
import StackCalc.Proofs.Enclosure.Logarithm
import StackCalc.Proofs.Operation.Division
import StackCalc.Proofs.Parser.Trees
import StackCalc.Proofs.Token.Numerals

/-!
# Evaluation is safe

An evaluation ends in one of four stages.  What each stage hands on is what the next one needs:
well-formed tokens, a tree without holes and with finite literals, and a program that is compiled
from such a tree.  So no stage meets a fault, every error has an offset, and every value is
finite.
-/

namespace StackCalc

variable {source : String} {ts : Tokens} {e : Expr} {p : Program}

/-! ## Stages -/

theorem parseSource_eq (htokens : tokenize source = .ok ts) :
    parseSource source = (Expr.ofTokens ts).mapError .parse := by
  rw [parseSource, htokens]
  rfl

theorem exists_tokens_of_parseSource (h : parseSource source = .ok e) :
    ∃ ts, tokenize source = .ok ts ∧ Expr.ofTokens ts = .ok e := by
  cases htokens : tokenize source with
  | error error =>
      rw [parseSource, htokens] at h
      cases h
  | ok ts =>
      rw [parseSource_eq htokens] at h
      cases hread : Expr.ofTokens ts with
      | error error =>
          rw [hread] at h
          cases h
      | ok e =>
          rw [hread] at h
          cases h
          exact ⟨ts, rfl, hread⟩

theorem compileSource_eq
    (htokens : tokenize source = .ok ts) (hread : Expr.ofTokens ts = .ok e) :
    compileSource source = e.compile.mapError .ofCompileFailure := by
  rw [compileSource, parseSource_eq htokens, hread]
  rfl

theorem compileSource_of_parseSource (h : parseSource source = .ok e) :
    compileSource source = e.compile.mapError .ofCompileFailure := by
  rw [compileSource, h]
  rfl

theorem compileSource_of_parseSource_error {error : CalcError}
    (h : parseSource source = .error error) : compileSource source = .error error := by
  rw [compileSource, h]
  rfl

/-! ## Outcomes -/

/-- An error of the source text, which has an offset, and no fault. -/
def CalcError.Located : CalcError → Prop
  | .compileFault _ => False
  | .machineFault _ => False
  | e => ∃ offset, e.offset = some offset

/-- A finite value or an error of the source text. -/
def Safe : Except CalcError Value → Prop
  | .ok v => v.isFinite = true
  | .error e => e.Located

theorem located_ofCompileFailure {failure : CompileFailure}
    (hread : Expr.ofTokens ts = .ok e) (hcompile : e.compile = .error failure) :
    (CalcError.ofCompileFailure failure).Located := by
  cases failure with
  | error error => exact ⟨error.offset, rfl⟩
  | fault fault =>
      have hcomplete := e.isComplete_of_wellBuilt (Expr.wellBuilt_of_ofTokens hread)
      exact Expr.compileWith_ne_fault Functions.standard_consistent hcomplete fault hcompile

/-! ## Evaluations -/

section

variable [Library]

/-- The stage at which an evaluation ends, and its outcome there. -/
inductive Ends (source : String) : Except CalcError Value → Prop where
  | lexical {error : LexError} :
      tokenize source = .error error →
      Ends source (.error (.lexical error))
  | parse {ts : Tokens} {error : ParseError} :
      tokenize source = .ok ts →
      Expr.ofTokens ts = .error error →
      Ends source (.error (.parse error))
  | compile {ts : Tokens} {e : Expr} {failure : CompileFailure} :
      tokenize source = .ok ts →
      Expr.ofTokens ts = .ok e →
      e.compile = .error failure →
      Ends source (.error (.ofCompileFailure failure))
  | run {ts : Tokens} {e : Expr} {p : Program} :
      tokenize source = .ok ts →
      Expr.ofTokens ts = .ok e →
      e.compile = .ok p →
      Ends source p.evaluate

theorem evaluate_eq
    (htokens : tokenize source = .ok ts) (hread : Expr.ofTokens ts = .ok e)
    (hcompile : e.compile = .ok p) : evaluate source = p.evaluate := by
  rw [evaluate, compileSource_eq htokens hread, hcompile]
  rfl

theorem evaluate_of_compileSource (h : compileSource source = .ok p) :
    evaluate source = p.evaluate := by
  rw [evaluate, h]
  rfl

theorem evaluate_of_compileSource_error {error : CalcError}
    (h : compileSource source = .error error) : evaluate source = .error error := by
  rw [evaluate, h]
  rfl

theorem ends_evaluate (source : String) : Ends source (evaluate source) := by
  cases htokens : tokenize source with
  | error error =>
      have heval : evaluate source = .error (.lexical error) := by
        rw [evaluate, compileSource, parseSource, htokens]
        rfl
      rw [heval]
      exact .lexical htokens
  | ok ts =>
      cases hread : Expr.ofTokens ts with
      | error error =>
          have heval : evaluate source = .error (.parse error) := by
            rw [evaluate, compileSource, parseSource_eq htokens, hread]
            rfl
          rw [heval]
          exact .parse htokens hread
      | ok e =>
          cases hcompile : e.compile with
          | error failure =>
              have heval : evaluate source = .error (.ofCompileFailure failure) := by
                rw [evaluate, compileSource_eq htokens hread, hcompile]
                rfl
              rw [heval]
              exact .compile htokens hread hcompile
          | ok p =>
              rw [evaluate_eq htokens hread hcompile]
              exact .run htokens hread hcompile

/-- A program that is compiled from a tree that was read leaves a finite value or fails at a
node of the tree. -/
theorem safe_evaluate_program
    (hread : Expr.ofTokens ts = .ok e) (hcompile : e.compile = .ok p) : Safe p.evaluate := by
  have hrun := Expr.run_compileWith Functions.standard_consistent hcompile false
  rw [Program.evaluate]
  cases hvalue : e.value .standard with
  | ok v =>
      have hliterals := Expr.finiteLiterals_of_wellBuilt (Expr.wellBuilt_of_ofTokens hread)
      rw [hvalue] at hrun
      rw [hrun]
      exact e.isFinite_of_value hliterals hvalue
  | error failure =>
      rw [hvalue] at hrun
      obtain ⟨place, node, cause, -, hresult⟩ := hrun
      rw [hresult]
      exact ⟨node.offset, rfl⟩

theorem safe_evaluate (source : String) : Safe (evaluate source) := by
  have hends := ends_evaluate source
  generalize evaluate source = outcome at hends ⊢
  cases hends with
  | lexical _ => exact ⟨_, rfl⟩
  | parse _ _ => exact ⟨_, rfl⟩
  | compile _ hread hcompile => exact located_ofCompileFailure hread hcompile
  | run _ hread hcompile => exact safe_evaluate_program hread hcompile

/-- With a lawful library, every source text evaluates to a finite value or to an error with an
offset.  On the way every number token holds a numeral, the reader finds a token at every index it
looks at and refuses only tokens of the text, and no operation of the machine divides by zero. -/
theorem evaluate_safe [Library.Lawful] (source : String) :
    (∀ v, evaluate source = .ok v → v.isFinite = true) ∧
      (∀ e, evaluate source = .error e → e.Located) ∧
      (∀ ts, tokenize source = .ok ts →
        (∀ t ∈ ts.tokens, t.WellFormed) ∧
        Parser.State.initial.scan? ts.withEnd 0 = some (Expr.ofTokens ts) ∧
        ∀ e, Expr.ofTokens ts = .error e → e.token ∈ ts.withEnd) ∧
      (∀ (op : BinaryOperation) (a b : Binary64), op.compute? a b = some (op.compute a b)) ∧
      ∀ (op : Reducer) (xs : List Binary64), op.outcome? xs = some (op.apply xs) := by
  have hsafe := safe_evaluate source
  refine ⟨?_, ?_, ?_, BinaryOperation.compute?_eq, Reducer.outcome?_eq⟩
  · intro v hv
    rw [hv] at hsafe
    exact hsafe
  · intro e he
    rw [he] at hsafe
    exact hsafe
  · intro ts hts
    have hwellFormed := wellFormed_of_tokenize hts
    refine ⟨hwellFormed, ?_, fun e => Expr.token_of_ofTokens⟩
    exact Parser.scan?_eq [] .initial (fun t ht => (hwellFormed t ht).kind_ne) rfl

end

/-! ## The standard library -/

instance Library.standard_lawful : Library.Lawful where
  isZero_ln {x} _ hone := by
    apply Binary64.isZero_ln
    rintro rfl
    cases hone
  toBinary64_decimal hfinite _ := Binary64.toBinary64_shortestDecimal hfinite

/-- The logarithm of eight to the base two is a quotient by a logarithm that is not zero. -/
theorem evaluate_safe_logarithm :
    evaluate "log(8, 2)" = .ok (.number (.ofNat 3)) ∧
      (Value.number (.ofNat 3)).isFinite = true ∧
      BinaryOperation.logBase.compute? (.ofNat 8) (.ofNat 2) =
        some (BinaryOperation.logBase.compute (.ofNat 8) (.ofNat 2)) := by
  have hvalue : evaluate "log(8, 2)" = .ok (.number (.ofNat 3)) := by
    decide +kernel
  obtain ⟨hfinite, -, -, hdivisions, -⟩ := evaluate_safe "log(8, 2)"
  exact ⟨hvalue, hfinite _ hvalue, hdivisions .logBase _ _⟩

end StackCalc
