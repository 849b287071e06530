import Mathlib
import StackCalc.Evaluation
import StackCalc.Proofs.Compiler.LetterCase

/-!
# Letter case in source texts

A source text in lower case is compiled to the program of the text, or fails with its error, in
which at most a character or a name is in lower case.  So of two texts that differ in the case of
letters, both evaluate to the same value or both fail alike.
-/

namespace StackCalc

/-- The error of the source in lower case. -/
def CalcError.lowered : CalcError → CalcError
  | .lexical e => .lexical e.lowered
  | .parse e => .parse e.lowered
  | .compile e => .compile e.lowered
  | e => e

/-- Two errors with which the same kind of thing is wrong at the same place. -/
structure CalcError.Alike (e e' : CalcError) : Prop where
  stage : e'.stage = e.stage
  className : e'.className = e.className
  offset : e'.offset = e.offset
  /-- Errors of the reader name the same kinds of tokens that could stand at the place. -/
  expected : ∀ refusal, e = .parse refusal →
    ∃ refusal', e' = .parse refusal' ∧ refusal'.expectedNames = refusal.expectedNames

namespace CalcError

theorem stage_lowered (e : CalcError) : e.lowered.stage = e.stage := by
  cases e <;> rfl

theorem className_lowered (e : CalcError) : e.lowered.className = e.className := by
  cases e <;> rfl

theorem offset_lowered (e : CalcError) : e.lowered.offset = e.offset := by
  cases e <;> rfl

theorem alike_of_lowered_eq {e e' : CalcError} (h : e.lowered = e'.lowered) : e.Alike e' where
  stage := by rw [← stage_lowered, ← h, stage_lowered]
  className := by rw [← className_lowered, ← h, className_lowered]
  offset := by rw [← offset_lowered, ← h, offset_lowered]
  expected refusal hrefusal := by
    subst hrefusal
    cases e' with
    | parse refusal' =>
        have hfault := congrArg ParseError.fault (CalcError.parse.inj h)
        have hexpected := congrArg ParseFault.expected hfault
        refine ⟨refusal', rfl, ?_⟩
        rw [ParseError.lowered, ParseError.lowered, ParseFault.expected_lowered,
          ParseFault.expected_lowered] at hexpected
        rw [ParseError.expectedNames, ParseError.expectedNames, hexpected]
    | _ => cases h

end CalcError

theorem parseSource_toLower (source : String) :
    parseSource source.toLower =
      ((parseSource source).map Expr.lowered).mapError CalcError.lowered := by
  rw [parseSource, parseSource, tokenize_toLower]
  cases tokenize source with
  | error e => rfl
  | ok ts =>
      change (Expr.ofTokens ts.lowered).mapError CalcError.parse =
        (((Expr.ofTokens ts).mapError CalcError.parse).map Expr.lowered).mapError CalcError.lowered
      rw [Expr.ofTokens_lowered]
      cases Expr.ofTokens ts <;> rfl

theorem compileSource_toLower (source : String) :
    compileSource source.toLower = (compileSource source).mapError CalcError.lowered := by
  rw [compileSource, compileSource, parseSource_toLower]
  cases parseSource source with
  | error e => rfl
  | ok e =>
      change e.lowered.compile.mapError CalcError.ofCompileFailure =
        (e.compile.mapError CalcError.ofCompileFailure).mapError CalcError.lowered
      rw [Expr.compile, Expr.compile, Expr.compileWith_lowered]
      rcases (e.compileWith .standard).1 with (failure | fault) | p
      · rfl
      · rfl
      · rfl

/-- The case of the letters of ASCII, which are all that `String.toLower` changes, does not
matter: two texts that differ in it are compiled to the same program and evaluate to the same
value or fail with the same error, or both are refused before that for the same kind of error at
the same place. -/
theorem evaluate_ignores_case [Library] {source source' : String}
    (h : source.toLower = source'.toLower) :
    (∃ p, compileSource source = .ok p ∧ compileSource source' = .ok p ∧
      evaluate source = evaluate source') ∨
    ∃ e e', compileSource source = .error e ∧ compileSource source' = .error e' ∧
      evaluate source = .error e ∧ evaluate source' = .error e' ∧ e.Alike e' := by
  have hcompile : (compileSource source).mapError CalcError.lowered =
      (compileSource source').mapError CalcError.lowered := by
    rw [← compileSource_toLower, ← compileSource_toLower, h]
  rw [evaluate, evaluate]
  cases hsource : compileSource source with
  | ok p =>
      cases hsource' : compileSource source' with
      | ok p' =>
          rw [hsource, hsource'] at hcompile
          cases hcompile
          exact Or.inl ⟨p, rfl, rfl, rfl⟩
      | error e' =>
          rw [hsource, hsource'] at hcompile
          cases hcompile
  | error e =>
      cases hsource' : compileSource source' with
      | ok p' =>
          rw [hsource, hsource'] at hcompile
          cases hcompile
      | error e' =>
          rw [hsource, hsource'] at hcompile
          have hlowered : e.lowered = e'.lowered := Except.error.inj hcompile
          exact Or.inr ⟨e, e', rfl, rfl, rfl, rfl, CalcError.alike_of_lowered_eq hlowered⟩

/-- The permutations and the constant of one text are found under other spellings in another. -/
theorem evaluate_ignores_case_mixed :
    let source := "nPr(5,2)*Pi"
    let source' := "NpR(5,2)*pI"
    source.toLower = source'.toLower ∧
      ((∃ p, compileSource source = .ok p ∧ compileSource source' = .ok p ∧
        evaluate source = evaluate source') ∨
      ∃ e e', compileSource source = .error e ∧ compileSource source' = .error e' ∧
        evaluate source = .error e ∧ evaluate source' = .error e' ∧ e.Alike e') := by
  intro source source'
  have h : source.toLower = source'.toLower := by
    rw [String.ext_iff, String.toLower, String.toLower, String.toList_map, String.toList_map]
    decide
  exact ⟨h, evaluate_ignores_case h⟩

end StackCalc
