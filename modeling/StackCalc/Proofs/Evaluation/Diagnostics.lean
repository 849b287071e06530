import Mathlib
import StackCalc.Proofs.Compiler.Acceptance
import StackCalc.Proofs.Evaluation.Encoding
import StackCalc.Proofs.Parser.Offsets
import StackCalc.Proofs.Token.Tiling
import StackCalc.Report

/-!
# Diagnostics point into the source

An offset starts at a token and is copied from there: to the node that the token stands for, to
the instruction of the node, and to the error of that instruction.  So every instruction of a
compiled program has the offset of a token of its own, and every error is at a token, at a character
that starts no token, or at the end of a text that was refused there.

In a report the caret stands below the character at the offset, because the source is shown on one
line with one column for each character.
-/

namespace StackCalc

variable {source : String} {ts : Tokens} {e node : Expr} {p : Program} {place : Nat}

/-! ## Places -/

/-- A token of the source text, other than its end marker, starts at the place. -/
def StartsToken (source : String) (place : Nat) : Prop :=
  ∃ ts, tokenize source = .ok ts ∧ ∃ t ∈ ts.tokens, t.offset = place

/-- The place of an error in a source text.  It is the end of the text exactly if the error refuses
the end of the input.  At every other place there is a character that is no blank, and either no
lexeme starts with it or it is the first of a token. -/
structure PointsInto (source : String) (error : CalcError) (place : Nat) : Prop where
  offset_eq : error.offset = some (place : Int)
  le_length : place ≤ source.length
  atEnd_iff : place = source.length ↔
    ∃ refusal, error = .parse refusal ∧ refusal.token.kind = .endOfInput
  inside : place < source.length → ∃ c, source.toList[place]? = some c ∧ isBlank c = false ∧
    match error with
    | .lexical refusal => refusal.char = c
    | _ => StartsToken source place

theorem lt_length_of_getElem? {c : Char} (h : source.toList[place]? = some c) :
    place < source.length := by
  rw [← String.length_toList]
  exact (List.getElem?_eq_some_iff.mp h).1

theorem startsToken_of_mem_postorder
    (htokens : tokenize source = .ok ts) (hread : Expr.ofTokens ts = .ok e)
    (hnode : node ∈ e.postorder) :
    ∃ place : Nat, node.offset = place ∧ StartsToken source place := by
  obtain ⟨t, ht, hoffset⟩ := Expr.exists_token_of_mem_postorder hread hnode
  exact ⟨t.offset, hoffset.symm, ts, htokens, t, ht, rfl⟩

/-! ## Errors -/

variable {error : CalcError}

/-- An error at a token points to its first character. -/
theorem StartsToken.pointsInto
    (h : StartsToken source place) (hoffset : error.offset = some (place : Int))
    (hlexical : ∀ refusal, error ≠ .lexical refusal)
    (hend : ∀ refusal, error = .parse refusal → refusal.token.kind ≠ .endOfInput) :
    PointsInto source error place := by
  obtain ⟨ts, htokens, t, ht, rfl⟩ := h
  obtain ⟨c, hc, hblank⟩ := exists_char_of_mem_tokens htokens ht
  have hlt := lt_length_of_getElem? hc
  refine ⟨hoffset, hlt.le, iff_of_false hlt.ne ?_, fun _ => ⟨c, hc, hblank, ?_⟩⟩
  · rintro ⟨refusal, hrefusal, hkind⟩
    exact hend refusal hrefusal hkind
  · cases error with
    | lexical refusal => exact absurd rfl (hlexical refusal)
    | _ => exact ⟨ts, htokens, t, ht, rfl⟩

theorem pointsInto_lexical {refusal : LexError} (h : tokenize source = .error refusal) :
    PointsInto source (.lexical refusal) refusal.offset := by
  obtain ⟨hnothing, -⟩ := tokenize_eq_error_iff.mp h
  have hlt := lt_length_of_getElem? hnothing.getElem?
  refine ⟨rfl, hlt.le, iff_of_false hlt.ne ?_, fun _ => ?_⟩
  · rintro ⟨refusal', ⟨⟩, -⟩
  · exact ⟨refusal.char, hnothing.getElem?, hnothing.isBlank, rfl⟩

theorem pointsInto_parse
    {refusal : ParseError} (htokens : tokenize source = .ok ts)
    (hread : Expr.ofTokens ts = .error refusal) :
    PointsInto source (.parse refusal) refusal.token.offset := by
  have hmem := Expr.token_of_ofTokens hread
  rw [Tokens.withEnd, List.mem_append, List.mem_singleton] at hmem
  rcases hmem with htoken | hatEnd
  · have hstarts : StartsToken source refusal.token.offset :=
      ⟨ts, htokens, refusal.token, htoken, rfl⟩
    apply hstarts.pointsInto rfl
    · rintro refusal' ⟨⟩
    · rintro refusal' ⟨⟩
      exact (wellFormed_of_tokenize htokens _ htoken).kind_ne
  · have hplace : refusal.token.offset = source.length := by
      rw [hatEnd]
      exact (tokenize_eq_ok_iff.mp htokens).1
    have hkind : refusal.token.kind = .endOfInput := by
      rw [hatEnd]
      rfl
    refine ⟨rfl, hplace.le, iff_of_true hplace ⟨refusal, rfl, hkind⟩, ?_⟩
    intro hlt
    exact absurd hplace hlt.ne

theorem exists_pointsInto_of_node
    (htokens : tokenize source = .ok ts) (hread : Expr.ofTokens ts = .ok e)
    (hnode : node ∈ e.postorder) (hoffset : error.offset = some node.offset)
    (hlexical : ∀ refusal, error ≠ .lexical refusal) (hparse : ∀ refusal, error ≠ .parse refusal) :
    ∃ place, PointsInto source error place := by
  obtain ⟨place, hplace, hstarts⟩ := startsToken_of_mem_postorder htokens hread hnode
  rw [hplace] at hoffset
  exact ⟨place, hstarts.pointsInto hoffset hlexical fun refusal h => absurd h (hparse refusal)⟩

theorem exists_pointsInto_of_compile
    {failure : CompileFailure} (htokens : tokenize source = .ok ts)
    (hread : Expr.ofTokens ts = .ok e) (hcompile : e.compile = .error failure) :
    ∃ place, PointsInto source (.ofCompileFailure failure) place := by
  have hcomplete := e.isComplete_of_wellBuilt (Expr.wellBuilt_of_ofTokens hread)
  rcases Expr.compileWith_reports Functions.standard_consistent hcomplete with
    ⟨⟨p, hp⟩, -⟩ | ⟨violation, hviolation, hfirst⟩
  · rw [Expr.compile, hp] at hcompile
    cases hcompile
  · rw [Expr.compile, hviolation] at hcompile
    cases hcompile
    obtain ⟨node, hnode, hoffset⟩ := Expr.exists_node_of_mem_violations (List.mem_of_head? hfirst)
    apply exists_pointsInto_of_node htokens hread hnode
    · rw [hoffset]
      rfl
    · rintro refusal ⟨⟩
    · rintro refusal ⟨⟩

/-! ## Programs -/

/-- The instructions of a compiled program have the offsets of different tokens. -/
theorem offsets_of_compileSource (h : compileSource source = .ok p) :
    p.offsets.length = p.instructions.length ∧ p.offsets.Nodup ∧
      ∀ offset ∈ p.offsets, ∃ place : Nat, offset = place ∧ StartsToken source place := by
  obtain ⟨ts, e, htokens, hread, hcompile⟩ := Program.exists_of_compileSource h
  obtain ⟨type, -, -, hinstructions, hoffsets⟩ :=
    Expr.compileWith_eq_ok Functions.standard_consistent hcompile
  rw [hoffsets, hinstructions, List.length_map, List.length_map]
  refine ⟨rfl, Expr.nodup_offsets hread (pairwise_offset_of_tokenize htokens), ?_⟩
  intro offset hoffset
  obtain ⟨node, hnode, rfl⟩ := List.mem_map.mp hoffset
  exact startsToken_of_mem_postorder htokens hread hnode

/-! ## Marks -/

/-- The code points at which a text is split into lines. -/
def lineBreaks : List Nat :=
  [0x0A, 0x0B, 0x0C, 0x0D, 0x1C, 0x1D, 0x1E, 0x85, 0x2028, 0x2029]

/-- The first two lines of a report, which mark a place in a source text: the text with a margin of
two columns and on one line, and a caret in the column of the place. -/
structure Marks (source : String) (place : Nat) (line caret : String) : Prop where
  margin : [' ', ' '] <+: line.toList
  length_line : line.length = 2 + source.length
  shown : ∀ i c, source.toList[i]? = some c →
    line.toList[2 + i]? = some (if isBlank c then ' ' else c)
  unbroken : ∀ c ∈ line.toList, c.toNat ∉ lineBreaks
  spaces : ∀ i < 2 + place, caret.toList[i]? = some ' '
  pointed : caret.toList[2 + place]? = some '^'
  length_caret : caret.length = 2 + place + 1

theorem isBlank_of_mem_lineBreaks {c : Char} (h : c.toNat ∈ lineBreaks) : isBlank c = true := by
  have hall : ∀ n ∈ lineBreaks,
      (blankRanges.any fun range => range.1 ≤ n && n ≤ range.2) = true := by
    decide
  exact hall _ h

theorem toList_displayLine (source : String) :
    (displayLine source).toList = source.toList.map fun c => if isBlank c then ' ' else c := by
  rw [displayLine, String.toList_ofList]

theorem not_mem_lineBreaks_of_mem_displayLine {c : Char} (h : c ∈ (displayLine source).toList) :
    c.toNat ∉ lineBreaks := by
  rw [toList_displayLine] at h
  obtain ⟨d, -, rfl⟩ := List.mem_map.mp h
  by_cases hblank : isBlank d = true
  · rw [if_pos hblank]
    decide
  · rw [if_neg hblank]
    exact fun hbreak => hblank (isBlank_of_mem_lineBreaks hbreak)

theorem toList_sourceLine (source : String) :
    ("  " ++ displayLine source).toList = [' ', ' '] ++ (displayLine source).toList := by
  rw [String.toList_append]
  rfl

theorem toList_caretLine (place : Nat) :
    ("  " ++ String.ofList (List.replicate place ' ') ++ "^").toList =
      List.replicate (2 + place) ' ' ++ ['^'] := by
  have hmargin : ("  " : String).toList = List.replicate 2 ' ' := rfl
  rw [String.toList_append, String.toList_append, hmargin, String.toList_ofList,
    List.replicate_add]
  rfl

theorem marks_caretLines (source : String) (place : Nat) :
    ∃ line caret, caretLines source place = [line, caret] ∧ Marks source place line caret := by
  refine ⟨_, _, rfl, ?_⟩
  rw [Int.toNat_natCast]
  exact
    { margin := by
        rw [toList_sourceLine]
        exact List.prefix_append _ _
      length_line := by
        rw [← String.length_toList, toList_sourceLine, List.length_append, toList_displayLine,
          List.length_map, String.length_toList]
        rfl
      shown := by
        intro i c hc
        rw [toList_sourceLine, List.getElem?_append_right (Nat.le_add_right 2 i),
          toList_displayLine, List.length_cons, List.length_singleton, Nat.add_sub_cancel_left,
          List.getElem?_map, hc]
        rfl
      unbroken := by
        intro c hc
        rw [toList_sourceLine, List.mem_append] at hc
        rcases hc with hspace | hshown
        · obtain rfl : c = ' ' := by simpa using hspace
          decide
        · exact not_mem_lineBreaks_of_mem_displayLine hshown
      spaces := by
        intro i hi
        rw [toList_caretLine, List.getElem?_append_left (by rwa [List.length_replicate]),
          List.getElem?_replicate_of_lt hi]
      pointed := by
        rw [toList_caretLine, List.getElem?_append_right (by rw [List.length_replicate]),
          List.length_replicate, Nat.sub_self]
        rfl
      length_caret := by
        rw [← String.length_toList, toList_caretLine, List.length_append, List.length_replicate]
        rfl }

/-! ## Evaluations and reports -/

section

variable [Library]

theorem exists_pointsInto_of_run
    (htokens : tokenize source = .ok ts) (hread : Expr.ofTokens ts = .ok e)
    (hcompile : e.compile = .ok p) (h : p.evaluate = .error error) :
    ∃ place, PointsInto source error place := by
  have hrun := Expr.run_compileWith Functions.standard_consistent hcompile false
  rw [Program.evaluate] at h
  cases hvalue : e.value .standard with
  | ok v =>
      rw [hvalue] at hrun
      rw [hrun] at h
      cases h
  | error failure =>
      rw [hvalue] at hrun
      obtain ⟨step, node, cause, hfirst, hresult⟩ := hrun
      rw [hresult] at h
      cases h
      have hnode := List.mem_of_getElem? hfirst.node_at
      apply exists_pointsInto_of_node htokens hread hnode rfl
      · rintro refusal ⟨⟩
      · rintro refusal ⟨⟩

/-- Every error of an evaluation points into the source text. -/
theorem exists_pointsInto_of_evaluate (h : evaluate source = .error error) :
    ∃ place, PointsInto source error place := by
  have hends := ends_evaluate source
  rw [h] at hends
  generalize houtcome : (Except.error error : Except CalcError Value) = outcome at hends
  cases hends with
  | lexical htokens =>
      cases houtcome
      exact ⟨_, pointsInto_lexical htokens⟩
  | parse htokens hread =>
      cases houtcome
      exact ⟨_, pointsInto_parse htokens hread⟩
  | compile htokens hread hcompile =>
      cases houtcome
      exact exists_pointsInto_of_compile htokens hread hcompile
  | run htokens hread hcompile =>
      exact exists_pointsInto_of_run htokens hread hcompile houtcome.symm

/-- The report of an error at a place starts with two lines that mark it. -/
theorem report_marks
    (hoffset : error.offset = some (place : Int)) (source : String) (log : List LogEntry)
    (verbose : Bool) :
    ∃ line caret rest, error.report source log verbose =
      line ++ "\n" ++ (caret ++ "\n" ++ rest) ∧ Marks source place line caret := by
  obtain ⟨line, caret, hlines, hmarks⟩ := marks_caretLines source place
  rw [CalcError.report, hoffset]
  simp only [hlines]
  rw [List.append_assoc, List.cons_append, List.cons_append, List.nil_append,
    String.intercalate_cons_cons, String.intercalate_cons_of_ne_nil (by simp)]
  exact ⟨line, caret, _, rfl, hmarks⟩

/-- Every diagnostic points into the source text.  The instructions of a compiled program have the
offsets of different tokens, an error of an evaluation is at the first character of a token, at a
character that starts nothing or at a refused end, and a report marks the place of its error in the
text. -/
theorem diagnostics_point_into (source : String) :
    (∀ p, compileSource source = .ok p →
      p.offsets.length = p.instructions.length ∧ p.offsets.Nodup ∧
        ∀ offset ∈ p.offsets, ∃ place : Nat, offset = place ∧ StartsToken source place) ∧
    (∀ error, evaluate source = .error error → ∃ place, PointsInto source error place) ∧
    ∀ (error : CalcError) (place : Nat) (log : List LogEntry) (verbose : Bool),
      error.offset = some (place : Int) →
        ∃ line caret rest, error.report source log verbose =
          line ++ "\n" ++ (caret ++ "\n" ++ rest) ∧ Marks source place line caret :=
  ⟨fun _ => offsets_of_compileSource, fun _ => exists_pointsInto_of_evaluate,
    fun _ _ log verbose hoffset => report_marks hoffset source log verbose⟩

end

/-- A division by zero after a line break: the report shows a space in its place. -/
theorem diagnostics_point_into_line_break :
    let source := "1\x0B/ 0"
    let p : Program :=
      ⟨[⟨.pushConst, some 0⟩, ⟨.pushConst, some 1⟩, ⟨.binary .div, none⟩],
        [.ofCode false 0x3FF0000000000000, .ofCode false 0], [0, 4, 2]⟩
    let error : CalcError := .runtime ⟨.divisionByZero, .binary .div, 2, some 2⟩
    compileSource source = .ok p ∧ evaluate source = .error error ∧
      (∀ offset ∈ p.offsets, ∃ place : Nat, offset = place ∧ StartsToken source place) ∧
      (∃ place, PointsInto source error place) ∧
      ∃ line caret rest, error.report source [] =
        line ++ "\n" ++ (caret ++ "\n" ++ rest) ∧ Marks source 2 line caret := by
  intro source p error
  have hcompile : compileSource source = .ok p := by
    decide +kernel
  have heval : evaluate source = .error error := by
    decide +kernel
  obtain ⟨hoffsets, herrors, hreports⟩ := diagnostics_point_into source
  exact ⟨hcompile, heval, (hoffsets p hcompile).2.2, herrors error heval,
    hreports error 2 [] false rfl⟩

end StackCalc
