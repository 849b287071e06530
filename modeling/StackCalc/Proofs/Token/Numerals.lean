import Mathlib
import StackCalc.Token.Reading

/-!
# Numerals

A numeral is a list of digits with a point at most once, and after a point there is a digit.  Every
number token carries a numeral, so its value is always defined, and no token of a text is the end
marker.

In the other direction a numeral is read as one token, whatever follows it, as long as it does not
go on with digits or with a point and a digit.
-/

namespace StackCalc

variable {c : Char} {cs rest numeral : List Char} {offset : Nat}

/-- Characters that are all digits. -/
def AllDigits (cs : List Char) : Prop :=
  ∀ c ∈ cs, c.isDigit = true

/-- A numeral without a sign. -/
inductive IsNumeral : List Char → Prop where
  | whole {digits : List Char} :
      AllDigits digits →
      digits ≠ [] →
      IsNumeral digits
  | point {digits fraction : List Char} :
      AllDigits digits →
      AllDigits fraction →
      fraction ≠ [] →
      IsNumeral (digits ++ '.' :: fraction)

theorem allDigits_takeWhile (cs : List Char) : AllDigits (cs.takeWhile Char.isDigit) := by
  intro c hc
  exact List.mem_takeWhile_imp hc

theorem takeWhile_ne_nil (h : startsWithDigit cs = true) : cs.takeWhile Char.isDigit ≠ [] := by
  cases cs with
  | nil => cases h
  | cons c cs =>
      have hc : c.isDigit = true := h
      rw [List.takeWhile_cons_of_pos hc]
      exact List.cons_ne_nil _ _

theorem isNumeral_numeralPrefix
    (h : c.isDigit = true ∨ c = '.' ∧ startsWithDigit cs = true) :
    IsNumeral (numeralPrefix (c :: cs)) := by
  have hwhole : AllDigits ((c :: cs).takeWhile Char.isDigit) := allDigits_takeWhile _
  rcases h with hc | ⟨rfl, hcs⟩
  · have hne : (c :: cs).takeWhile Char.isDigit ≠ [] := takeWhile_ne_nil hc
    rw [numeralPrefix]
    split
    · rename_i rest _
      split
      · rename_i hdigit
        exact .point hwhole (allDigits_takeWhile rest) (takeWhile_ne_nil hdigit)
      · exact .whole hwhole hne
    · exact .whole hwhole hne
  · have hfront : numeralPrefix ('.' :: cs) = [] ++ '.' :: cs.takeWhile Char.isDigit := by
      simp [numeralPrefix, hcs]
    rw [hfront]
    refine .point ?_ (allDigits_takeWhile cs) (takeWhile_ne_nil hcs)
    intro c hc
    cases hc

/-! ## Tokens of a text -/

/-- A token that is no end marker and, if it is a number, carries a numeral. -/
structure Token.WellFormed (t : Token) : Prop where
  kind_ne : t.kind ≠ .endOfInput
  isNumeral : t.kind = .number → IsNumeral t.text.toList

theorem symbolKind?_eq_some {kind : TokenKind} (h : symbolKind? c = some kind) :
    kind ≠ .endOfInput ∧ kind ≠ .number := by
  unfold symbolKind? at h
  split at h
  all_goals first | cases h; decide | cases h

theorem wellFormed_of_kind {kind : TokenKind} {text : String}
    (hkind : kind ≠ .endOfInput ∧ kind ≠ .number) :
    Token.WellFormed ⟨kind, text, offset⟩ :=
  ⟨hkind.1, fun h => absurd h hkind.2⟩

theorem wellFormed_of_first? {lexeme : Lexeme} (h : Lexeme.first? c cs = some lexeme) :
    Token.WellFormed ⟨lexeme.kind, lexeme.text, offset⟩ := by
  have hidentifier : TokenKind.identifier ≠ .endOfInput ∧ TokenKind.identifier ≠ .number := by
    decide
  unfold Lexeme.first? at h
  split at h
  · cases h
    exact wellFormed_of_kind (by decide)
  · split at h
    · rename_i kind hkind
      cases h
      exact wellFormed_of_kind (symbolKind?_eq_some hkind)
    · split at h
      · rename_i hdigit
        cases h
        refine ⟨TokenKind.noConfusion, fun _ => ?_⟩
        rw [Lexeme.ofSlice, String.toList_ofList]
        apply isNumeral_numeralPrefix
        simpa using hdigit
      · split at h
        · cases h
          exact wellFormed_of_kind hidentifier
        · split at h
          · cases h
            exact wellFormed_of_kind hidentifier
          · cases h

theorem wellFormed_of_mem_ofText {offset : Nat} {cs : List Char} :
    ∀ t ∈ (Reading.ofText offset cs).tokens, t.WellFormed := by
  fun_induction Reading.ofText offset cs with
  | case1 offset => 
      intro t ht
      cases ht
  | case2 offset c cs hblank ih => exact ih
  | case3 offset c cs hblank hnone =>
      intro t ht
      cases ht
  | case4 offset c cs hblank lexeme hlexeme reading ih =>
      intro t ht
      rcases List.mem_cons.mp ht with rfl | hrest
      · exact wellFormed_of_first? hlexeme
      · exact ih t hrest

/-- The tokens of a source text are well-formed. -/
theorem wellFormed_of_tokenize {source : String} {ts : Tokens} (h : tokenize source = .ok ts) :
    ∀ t ∈ ts.tokens, t.WellFormed := by
  rw [tokenize, Reading.result] at h
  split at h
  · cases h
    exact wellFormed_of_mem_ofText
  · cases h

/-! ## Reading numerals -/

/-- What follows a numeral and is not part of it. -/
def EndsNumeral (rest : List Char) : Prop :=
  ∀ c ∈ rest.head?, c.isDigit = false ∧ c ≠ '.'

theorem EndsNumeral.takeWhile_eq (h : EndsNumeral rest) : rest.takeWhile Char.isDigit = [] := by
  cases rest with
  | nil => rfl
  | cons c rest =>
      have hc : ¬ c.isDigit = true := by simp [(h c rfl).1]
      exact List.takeWhile_cons_of_neg hc

theorem EndsNumeral.dropWhile_eq (h : EndsNumeral rest) : rest.dropWhile Char.isDigit = rest := by
  cases rest with
  | nil => rfl
  | cons c rest =>
      have hc : ¬ c.isDigit = true := by simp [(h c rfl).1]
      exact List.dropWhile_cons_of_neg hc

theorem numeralPrefix_append (h : IsNumeral numeral) (hrest : EndsNumeral rest) :
    numeralPrefix (numeral ++ rest) = numeral := by
  cases h with
  | whole hdigits hne =>
      rw [numeralPrefix, List.takeWhile_append_of_pos hdigits, List.dropWhile_append_of_pos hdigits,
        hrest.takeWhile_eq, hrest.dropWhile_eq, List.append_nil]
      split
      · exact absurd rfl (hrest '.' rfl).2
      · rfl
  | @point digits fraction hdigits hfraction hne =>
      have hstart : startsWithDigit (fraction ++ rest) = true := by
        cases fraction with
        | nil => exact absurd rfl hne
        | cons c fraction => exact hfraction c List.mem_cons_self
      have hpoint : ¬ '.'.isDigit = true := by
        decide
      rw [List.append_assoc, List.cons_append, numeralPrefix,
        List.takeWhile_append_of_pos hdigits, List.dropWhile_append_of_pos hdigits,
        List.takeWhile_cons_of_neg hpoint, List.dropWhile_cons_of_neg hpoint, List.append_nil]
      simp only
      rw [if_pos hstart, List.takeWhile_append_of_pos hfraction, hrest.takeWhile_eq,
        List.append_nil]

theorem isDigit_of_symbolKind? {kind : TokenKind} (h : symbolKind? c = some kind) :
    c.isDigit = false ∧ c ≠ '.' := by
  unfold symbolKind? at h
  split at h
  all_goals first | decide | cases h

theorem isBlank_of_isDigit (h : c.isDigit = true) : isBlank c = false := by
  have hrange : 48 ≤ c.toNat ∧ c.toNat ≤ 57 := by
    simpa [Char.isDigit, UInt32.le_iff_toNat_le] using h
  simp only [isBlank, blankRanges, List.any_cons, List.any_nil, Bool.or_false, Bool.or_eq_false_iff,
    Bool.and_eq_false_iff, decide_eq_false_iff_not]
  omega

theorem IsNumeral.exists_cons (h : IsNumeral numeral) :
    ∃ c cs, numeral = c :: cs ∧
      (c.isDigit = true ∨ c = '.' ∧ ∀ rest, startsWithDigit (cs ++ rest) = true) := by
  cases h with
  | whole hdigits hne =>
      obtain ⟨c, cs, rfl⟩ := List.exists_cons_of_ne_nil hne
      exact ⟨c, cs, rfl, Or.inl (hdigits c List.mem_cons_self)⟩
  | @point digits fraction hdigits hfraction hne =>
      cases digits with
      | cons c cs => exact ⟨c, _, rfl, Or.inl (hdigits c List.mem_cons_self)⟩
      | nil =>
          obtain ⟨d, fraction, rfl⟩ := List.exists_cons_of_ne_nil hne
          exact ⟨'.', _, rfl, Or.inr ⟨rfl, fun rest => hfraction d List.mem_cons_self⟩⟩

theorem first?_of_numeral
    (hnumeral : IsNumeral (c :: cs)) (hrest : EndsNumeral rest)
    (hc : c.isDigit = true ∨ c = '.' ∧ ∀ rest, startsWithDigit (cs ++ rest) = true) :
    Lexeme.first? c (cs ++ rest) = some (.ofSlice .number (c :: cs)) := by
  have hsymbol : symbolKind? c = none := by
    cases h : symbolKind? c with
    | none => rfl
    | some kind =>
        obtain ⟨hdigit, hpoint⟩ := isDigit_of_symbolKind? h
        rcases hc with hc | ⟨hc, -⟩
        · rw [hdigit] at hc
          cases hc
        · exact absurd hc hpoint
  have hstar : (c == '*') = false := by
    rw [beq_eq_false_iff_ne]
    rintro rfl
    cases hsymbol
  have hstarts : (c.isDigit || (c == '.' && startsWithDigit (cs ++ rest))) = true := by
    rcases hc with hc | ⟨hc, hfollows⟩
    · rw [hc, Bool.true_or]
    · rw [hc, hfollows rest]
      rfl
  rw [Lexeme.first?, hstar, Bool.false_and, if_neg Bool.false_ne_true, hsymbol]
  simp only
  rw [if_pos hstarts, ← List.cons_append, numeralPrefix_append hnumeral hrest]

namespace Reading

/-- A reading with tokens put in front of its own. -/
def prepend (ts : List Token) (r : Reading) : Reading :=
  { r with tokens := ts ++ r.tokens }

theorem prepend_prepend (ts us : List Token) (r : Reading) :
    (r.prepend us).prepend ts = r.prepend (ts ++ us) := by
  rw [prepend, prepend, prepend, List.append_assoc]

end Reading

theorem ofText_blank (h : isBlank c = true) :
    Reading.ofText offset (c :: cs) = Reading.ofText (offset + 1) cs := by
  rw [Reading.ofText, if_pos h]

theorem ofText_lexeme {lexeme : Lexeme}
    (hblank : isBlank c = false) (h : Lexeme.first? c cs = some lexeme) :
    Reading.ofText offset (c :: cs) =
      { Reading.ofText (offset + 1 + lexeme.extra) (cs.drop lexeme.extra) with
        tokens := ⟨lexeme.kind, lexeme.text, offset⟩ ::
          (Reading.ofText (offset + 1 + lexeme.extra) (cs.drop lexeme.extra)).tokens } := by
  rw [Reading.ofText, hblank, if_neg Bool.false_ne_true, h]

/-- A numeral at the front of a text is read as one number. -/
theorem ofText_numeral (h : IsNumeral numeral) (hrest : EndsNumeral rest) :
    Reading.ofText offset (numeral ++ rest) =
      { Reading.ofText (offset + numeral.length) rest with
        tokens := ⟨.number, String.ofList numeral, offset⟩ ::
          (Reading.ofText (offset + numeral.length) rest).tokens } := by
  obtain ⟨c, cs, rfl, hc⟩ := h.exists_cons
  have hblank : isBlank c = false := by
    rcases hc with hc | ⟨rfl, -⟩
    · exact isBlank_of_isDigit hc
    · decide
  have hextra : (Lexeme.ofSlice .number (c :: cs)).extra = cs.length := by
    simp [Lexeme.ofSlice]
  have hlength : offset + 1 + cs.length = offset + (c :: cs).length := by
    rw [List.length_cons]
    omega
  rw [List.cons_append, ofText_lexeme hblank (first?_of_numeral h hrest hc), hextra,
    List.drop_left, hlength]
  rfl

theorem ofText_symbol {kind : TokenKind}
    (hblank : isBlank c = false) (hstar : (c == '*') = false) (h : symbolKind? c = some kind) :
    Reading.ofText offset (c :: cs) =
      { Reading.ofText (offset + 1) cs with
        tokens := ⟨kind, String.ofList [c], offset⟩ ::
          (Reading.ofText (offset + 1) cs).tokens } := by
  have hfirst : Lexeme.first? c cs = some (.ofSlice kind [c]) := by
    rw [Lexeme.first?, hstar, Bool.false_and, if_neg Bool.false_ne_true, h]
  exact ofText_lexeme hblank hfirst

end StackCalc
