import Mathlib
import StackCalc.Proofs.Token.Numerals

/-!
# Lexemes

The lexical grammar says which character lists are lexemes and which tokens stand for them.  It
does not say where a lexeme in a text stops: at each place there may be several, such as the star
and the two stars of a power, a numeral and its first digits, or a name and its first letters.

The reader takes the longest of them, and it takes none only where there is none.  The classes of
first characters are disjoint from each other and from the blanks, so at every place there is
nothing else to decide.
-/

namespace StackCalc

/-- `IsLexeme slice kind text` holds if the characters of `slice` are a lexeme and its token has
the kind and the text. -/
inductive IsLexeme : List Char → TokenKind → String → Prop where
  | power :
      IsLexeme ['*', '*'] .caret "**"
  | symbol {c : Char} {kind : TokenKind} :
      symbolKind? c = some kind →
      IsLexeme [c] kind (String.singleton c)
  | numeral {slice : List Char} :
      IsNumeral slice →
      IsLexeme slice .number (String.ofList slice)
  /-- A Greek letter that denotes a constant never starts a longer name. -/
  | constant {c : Char} {name : String} :
      greekConstant? c = some name →
      IsLexeme [c] .identifier name
  | name {c : Char} {cs : List Char} :
      isLetter c = true →
      greekConstant? c = none →
      (∀ d ∈ cs, isNamePart d = true) →
      IsLexeme (c :: cs) .identifier (String.ofList (c :: cs))

/-- The longest of the lexemes at the front of a text. -/
structure LongestLexeme (cs slice : List Char) (kind : TokenKind) (text : String) : Prop where
  front : slice <+: cs
  lexeme : IsLexeme slice kind text
  longest : ∀ slice' kind' text', slice' <+: cs → IsLexeme slice' kind' text' →
    slice'.length ≤ slice.length

variable {c : Char} {cs slice slice' : List Char} {kind kind' : TokenKind} {text text' : String}

/-! ## Classes of characters -/

theorem isAlpha_or_le_of_isLetter (h : isLetter c = true) : c.isAlpha = true ∨ 0xAA ≤ c.toNat := by
  have hranges : ∀ range ∈ letterRanges, 0xAA ≤ range.1 := by
    decide +kernel
  rw [isLetter, Bool.or_eq_true] at h
  rcases h with halpha | hrange
  · exact Or.inl halpha
  · obtain ⟨range, hmem, hbounds⟩ := List.any_eq_true.mp hrange
    simp only [Bool.and_eq_true, decide_eq_true_eq] at hbounds
    exact Or.inr ((hranges range hmem).trans hbounds.1)

theorem toNat_of_isAlpha (h : c.isAlpha = true) :
    65 ≤ c.toNat ∧ c.toNat ≤ 90 ∨ 97 ≤ c.toNat ∧ c.toNat ≤ 122 := by
  simpa [Char.isAlpha, Char.isUpper, Char.isLower, UInt32.le_iff_toNat_le] using h

theorem toNat_of_isDigit (h : c.isDigit = true) : 48 ≤ c.toNat ∧ c.toNat ≤ 57 := by
  simpa [Char.isDigit, UInt32.le_iff_toNat_le] using h

theorem isLetter_of_startsNumeral (h : c.isDigit = true ∨ c = '.') : isLetter c = false := by
  have hlow : 46 ≤ c.toNat ∧ c.toNat ≤ 57 := by
    rcases h with hdigit | rfl
    · have := toNat_of_isDigit hdigit
      omega
    · decide
  rw [Bool.eq_false_iff]
  intro hletter
  rcases isAlpha_or_le_of_isLetter hletter with halpha | hhigh
  · have := toNat_of_isAlpha halpha
    omega
  · omega

theorem isLetter_of_isBlank (h : isBlank c = true) : isLetter c = false := by
  have hapart : ∀ blanks ∈ blankRanges, (blanks.2 < 65 ∨ 122 < blanks.1) ∧
      ∀ letters ∈ letterRanges, blanks.2 < letters.1 ∨ letters.2 < blanks.1 := by
    decide +kernel
  obtain ⟨blanks, hblanks, hc⟩ := List.any_eq_true.mp h
  obtain ⟨hascii, hletters⟩ := hapart blanks hblanks
  simp only [Bool.and_eq_true, decide_eq_true_eq] at hc
  rw [Bool.eq_false_iff]
  intro hletter
  rw [isLetter, Bool.or_eq_true] at hletter
  rcases hletter with halpha | hrange
  · have := toNat_of_isAlpha halpha
    omega
  · obtain ⟨letters, hmem, hbounds⟩ := List.any_eq_true.mp hrange
    simp only [Bool.and_eq_true, decide_eq_true_eq] at hbounds
    have := hletters letters hmem
    omega

theorem isLetter_of_symbolKind? (h : symbolKind? c = some kind) :
    isLetter c = false ∧ greekConstant? c = none ∧ isBlank c = false := by
  unfold symbolKind? at h
  split at h
  all_goals first | decide +kernel | cases h

theorem symbolKind?_of_greekConstant? {name : String} (h : greekConstant? c = some name) :
    symbolKind? c = none ∧ c.isDigit = false ∧ c ≠ '.' ∧ isBlank c = false := by
  unfold greekConstant? at h
  split at h
  all_goals first | decide +kernel | cases h

/-! ## The longest numeral -/

theorem numeralPrefix_isPrefix (cs : List Char) : numeralPrefix cs <+: cs := by
  have hwhole : cs.takeWhile Char.isDigit <+: cs := List.takeWhile_prefix _
  rw [numeralPrefix]
  split
  · rename_i rest hrest
    split
    · obtain ⟨after, hafter⟩ := List.takeWhile_prefix (l := rest) Char.isDigit
      refine ⟨after, ?_⟩
      rw [List.append_assoc, List.cons_append, hafter, ← hrest, List.takeWhile_append_dropWhile]
    · exact hwhole
  · exact hwhole

theorem length_takeWhile_le_numeralPrefix (cs : List Char) :
    (cs.takeWhile Char.isDigit).length ≤ (numeralPrefix cs).length := by
  rw [numeralPrefix]
  split
  · split <;> simp
  · exact le_rfl

/-- No numeral at the front of a text is longer than the one that the reader takes. -/
theorem IsNumeral.length_le (h : IsNumeral slice) (hfront : slice <+: cs) :
    slice.length ≤ (numeralPrefix cs).length := by
  obtain ⟨rest, rfl⟩ := hfront
  cases h with
  | whole hdigits hne =>
      refine le_trans ?_ (length_takeWhile_le_numeralPrefix _)
      rw [List.takeWhile_append_of_pos hdigits, List.length_append]
      exact Nat.le_add_right _ _
  | @point digits fraction hdigits hfraction hne =>
      have hpoint : ¬ '.'.isDigit = true := by
        decide
      have hstart : startsWithDigit (fraction ++ rest) = true := by
        obtain ⟨d, fraction, rfl⟩ := List.exists_cons_of_ne_nil hne
        exact hfraction d List.mem_cons_self
      rw [List.append_assoc, List.cons_append, numeralPrefix,
        List.takeWhile_append_of_pos hdigits, List.dropWhile_append_of_pos hdigits,
        List.takeWhile_cons_of_neg hpoint, List.dropWhile_cons_of_neg hpoint, List.append_nil]
      simp only
      rw [if_pos hstart, List.takeWhile_append_of_pos hfraction]
      simp

/-! ## Lexemes by their first character -/

theorem IsNumeral.head (h : IsNumeral (c :: cs)) : c.isDigit = true ∨ c = '.' := by
  obtain ⟨d, ds, hcons, hd⟩ := h.exists_cons
  cases hcons
  exact hd.imp_right And.left

theorem IsLexeme.of_symbol
    (hc : symbolKind? c = some kind') (h : IsLexeme (c :: cs) kind text) :
    (c = '*' ∧ cs = ['*'] ∧ kind = .caret ∧ text = "**") ∨
      (cs = [] ∧ kind = kind' ∧ text = String.singleton c) := by
  obtain ⟨hletter, hgreek, -⟩ := isLetter_of_symbolKind? hc
  cases h with
  | power => exact Or.inl ⟨rfl, rfl, rfl, rfl⟩
  | symbol hkind =>
      rw [hc] at hkind
      cases hkind
      exact Or.inr ⟨rfl, rfl, rfl⟩
  | numeral hnumeral =>
      obtain ⟨hdigit, hpoint⟩ := isDigit_of_symbolKind? hc
      rcases hnumeral.head with hc' | hc'
      · rw [hdigit] at hc'
        cases hc'
      · exact absurd hc' hpoint
  | constant hname =>
      rw [hgreek] at hname
      cases hname
  | name hname =>
      rw [hletter] at hname
      cases hname

theorem IsLexeme.of_numeral
    (hc : c.isDigit = true ∨ c = '.') (h : IsLexeme (c :: cs) kind text) :
    IsNumeral (c :: cs) ∧ kind = .number ∧ text = String.ofList (c :: cs) := by
  cases h with
  | power => exact absurd hc (by decide)
  | symbol hkind =>
      obtain ⟨hdigit, hpoint⟩ := isDigit_of_symbolKind? hkind
      rcases hc with hc | hc
      · rw [hdigit] at hc
        cases hc
      · exact absurd hc hpoint
  | numeral hnumeral => exact ⟨hnumeral, rfl, rfl⟩
  | constant hname =>
      obtain ⟨-, hdigit, hpoint, -⟩ := symbolKind?_of_greekConstant? hname
      rcases hc with hc | hc
      · rw [hdigit] at hc
        cases hc
      · exact absurd hc hpoint
  | name hletter =>
      rw [isLetter_of_startsNumeral hc] at hletter
      cases hletter

theorem IsLexeme.of_constant {name : String}
    (hc : greekConstant? c = some name) (h : IsLexeme (c :: cs) kind text) :
    cs = [] ∧ kind = .identifier ∧ text = name := by
  obtain ⟨hsymbol, hdigit, hpoint, -⟩ := symbolKind?_of_greekConstant? hc
  cases h with
  | power => cases hc
  | symbol hkind =>
      rw [hsymbol] at hkind
      cases hkind
  | numeral hnumeral =>
      rcases hnumeral.head with hc' | hc'
      · rw [hdigit] at hc'
        cases hc'
      · exact absurd hc' hpoint
  | constant hname =>
      rw [hc] at hname
      cases hname
      exact ⟨rfl, rfl, rfl⟩
  | name _ hgreek =>
      rw [hc] at hgreek
      cases hgreek

theorem IsLexeme.of_letter
    (hc : isLetter c = true) (hgreek : greekConstant? c = none) (h : IsLexeme (c :: cs) kind text) :
    (∀ d ∈ cs, isNamePart d = true) ∧ kind = .identifier ∧ text = String.ofList (c :: cs) := by
  cases h with
  | power => exact absurd hc (by decide +kernel)
  | symbol hkind =>
      rw [(isLetter_of_symbolKind? hkind).1] at hc
      cases hc
  | numeral hnumeral =>
      rw [isLetter_of_startsNumeral hnumeral.head] at hc
      cases hc
  | constant hname =>
      rw [hgreek] at hname
      cases hname
  | name _ _ hparts => exact ⟨hparts, rfl, rfl⟩

theorem IsLexeme.ne_nil (h : IsLexeme slice kind text) : slice ≠ [] := by
  cases h with
  | numeral hnumeral =>
      obtain ⟨c, cs, rfl, -⟩ := hnumeral.exists_cons
      exact List.cons_ne_nil c cs
  | _ => exact List.cons_ne_nil _ _

/-- A lexeme determines its token. -/
theorem IsLexeme.unique
    (h : IsLexeme slice kind text) (h' : IsLexeme slice kind' text') :
    kind = kind' ∧ text = text' := by
  cases h' with
  | power =>
      have hstar : symbolKind? '*' = some .star := rfl
      obtain ⟨-, -, hkind, htext⟩ | ⟨hcs, -⟩ := h.of_symbol hstar
      · exact ⟨hkind, htext⟩
      · cases hcs
  | symbol hc =>
      obtain ⟨-, hcs, -⟩ | ⟨-, hkind, htext⟩ := h.of_symbol hc
      · cases hcs
      · exact ⟨hkind, htext⟩
  | numeral hnumeral =>
      obtain ⟨c, cs, rfl, hc⟩ := hnumeral.exists_cons
      exact (h.of_numeral (hc.imp_right And.left)).2
  | constant hc => exact (h.of_constant hc).2
  | name hletter hgreek _ => exact (h.of_letter hletter hgreek).2

theorem IsLexeme.isBlank_eq_false (h : IsLexeme (c :: cs) kind text) : isBlank c = false := by
  cases h with
  | power => decide
  | symbol hkind => exact (isLetter_of_symbolKind? hkind).2.2
  | numeral hnumeral =>
      rcases hnumeral.head with hdigit | rfl
      · exact isBlank_of_isDigit hdigit
      · decide
  | constant hname => exact (symbolKind?_of_greekConstant? hname).2.2.2
  | name hletter =>
      rw [Bool.eq_false_iff]
      intro hblank
      rw [isLetter_of_isBlank hblank] at hletter
      cases hletter

/-! ## The longest lexeme -/

theorem IsLexeme.exists_cons
    (h : IsLexeme slice kind text) (hfront : slice <+: c :: cs) :
    ∃ tail, slice = c :: tail ∧ tail <+: cs := by
  rcases List.prefix_cons_iff.mp hfront with hnil | htail
  · exact absurd hnil h.ne_nil
  · exact htail

theorem longestLexeme_cons {tail : List Char}
    (hlexeme : IsLexeme (c :: tail) kind text) (hfront : tail <+: cs)
    (hlongest : ∀ tail' kind' text', tail' <+: cs → IsLexeme (c :: tail') kind' text' →
      tail'.length ≤ tail.length) :
    LongestLexeme (c :: cs) (c :: tail) kind text := by
  refine ⟨List.cons_prefix_cons.mpr ⟨rfl, hfront⟩, hlexeme, ?_⟩
  intro slice' kind' text' hfront' hlexeme'
  obtain ⟨tail', rfl, htail'⟩ := hlexeme'.exists_cons hfront'
  exact Nat.succ_le_succ (hlongest tail' kind' text' htail' hlexeme')

/-- Two longest lexemes at a place have the same characters and the same token. -/
theorem LongestLexeme.unique
    (h : LongestLexeme cs slice kind text) (h' : LongestLexeme cs slice' kind' text') :
    slice = slice' ∧ kind = kind' ∧ text = text' := by
  have hlength : slice.length = slice'.length :=
    Nat.le_antisymm (h'.longest _ _ _ h.front h.lexeme) (h.longest _ _ _ h'.front h'.lexeme)
  obtain rfl := (List.prefix_of_prefix_length_le h.front h'.front hlength.le).eq_of_length hlength
  exact ⟨rfl, h.lexeme.unique h'.lexeme⟩

/-- What the reader takes at a place is the longest lexeme there. -/
theorem longestLexeme_of_first? {lexeme : Lexeme} (h : Lexeme.first? c cs = some lexeme) :
    ∃ slice, LongestLexeme (c :: cs) slice lexeme.kind lexeme.text ∧
      slice.length = lexeme.extra + 1 := by
  unfold Lexeme.first? at h
  split at h
  · rename_i hstars
    cases h
    simp only [Bool.and_eq_true, beq_iff_eq] at hstars
    obtain ⟨rfl, hnext⟩ := hstars
    obtain ⟨rest, rfl⟩ := List.head?_eq_some_iff.mp hnext
    have hstar : symbolKind? '*' = some .star := rfl
    refine ⟨['*', '*'], longestLexeme_cons .power ⟨rest, rfl⟩ ?_, rfl⟩
    intro tail' kind' text' hfront hlexeme
    obtain ⟨-, rfl, -⟩ | ⟨rfl, -⟩ := hlexeme.of_symbol hstar
    · exact le_rfl
    · exact Nat.zero_le _
  · rename_i hstars
    split at h
    · rename_i kind hkind
      cases h
      refine ⟨[c], longestLexeme_cons (.symbol hkind) List.nil_prefix ?_, rfl⟩
      intro tail' kind' text' hfront hlexeme
      obtain ⟨rfl, rfl, -⟩ | ⟨rfl, -⟩ := hlexeme.of_symbol hkind
      · obtain ⟨rest, rfl⟩ := hfront
        exact absurd rfl hstars
      · exact le_rfl
    · split at h
      · rename_i hdigit
        cases h
        simp only [Bool.or_eq_true, Bool.and_eq_true, beq_iff_eq] at hdigit
        have hnumeral := isNumeral_numeralPrefix hdigit
        refine ⟨numeralPrefix (c :: cs), ⟨numeralPrefix_isPrefix _, .numeral hnumeral, ?_⟩, ?_⟩
        · intro slice' kind' text' hfront hlexeme
          obtain ⟨tail', rfl, -⟩ := hlexeme.exists_cons hfront
          exact (hlexeme.of_numeral (hdigit.imp_right And.left)).1.length_le hfront
        · have hpos := List.length_pos_of_ne_nil (IsLexeme.numeral hnumeral).ne_nil
          exact (Nat.sub_add_cancel hpos).symm
      · split at h
        · rename_i name hname
          cases h
          refine ⟨[c], longestLexeme_cons (.constant hname) List.nil_prefix ?_, rfl⟩
          intro tail' kind' text' hfront hlexeme
          rw [(hlexeme.of_constant hname).1]
        · rename_i hnone
          have hgreek : greekConstant? c = none := Option.eq_none_iff_forall_ne_some.mpr hnone
          split at h
          · rename_i hletter
            cases h
            refine ⟨c :: cs.takeWhile isNamePart,
              longestLexeme_cons (.name hletter hgreek ?_) (List.takeWhile_prefix _) ?_, rfl⟩
            · intro d hd
              exact List.mem_takeWhile_imp hd
            · intro tail' kind' text' hfront hlexeme
              obtain ⟨rest, rfl⟩ := hfront
              rw [List.takeWhile_append_of_pos (hlexeme.of_letter hletter hgreek).1,
                List.length_append]
              exact Nat.le_add_right _ _
          · cases h

theorem not_isLexeme_of_first? (h : Lexeme.first? c cs = none) (hfront : slice <+: c :: cs) :
    ¬ IsLexeme slice kind text := by
  intro hlexeme
  obtain ⟨tail, rfl, rest, rfl⟩ := hlexeme.exists_cons hfront
  unfold Lexeme.first? at h
  split at h
  · cases h
  · split at h
    · cases h
    · rename_i hsymbol
      split at h
      · cases h
      · rename_i hdigit
        split at h
        · cases h
        · rename_i hgreek
          split at h
          · cases h
          · rename_i hletter
            cases hlexeme with
            | power => exact hsymbol .star rfl
            | symbol hkind => exact hsymbol _ hkind
            | numeral hnumeral =>
                obtain ⟨d, ds, hcons, hd⟩ := hnumeral.exists_cons
                cases hcons
                apply hdigit
                simp only [Bool.or_eq_true, Bool.and_eq_true, beq_iff_eq]
                exact hd.imp_right fun hpoint => ⟨hpoint.1, hpoint.2 rest⟩
            | constant hname => exact hgreek _ hname
            | name hname => exact hletter hname

end StackCalc
