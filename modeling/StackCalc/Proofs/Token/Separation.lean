import Mathlib
import StackCalc.Proofs.Token.Tiling

/-!
# Texts separated by a blank

No lexeme contains a blank, so a lexeme in front of a blank is the same whether the text ends there
or goes on.  Two texts with a blank between them are read one after the other: the second is read as
it is by itself, only at another offset, unless the first is refused already.
-/

namespace StackCalc

variable {b c : Char} {cs rest slice : List Char} {kind : TokenKind} {text : String}

/-! ## Lexemes in front of a blank -/

theorem isBlank_of_isNamePart (h : isNamePart c = true) : isBlank c = false := by
  rw [Bool.eq_false_iff]
  intro hblank
  rw [isNamePart, isLetter_of_isBlank hblank, Bool.false_or, Bool.or_eq_true, beq_iff_eq] at h
  rcases h with hdigit | rfl
  · rw [isBlank_of_isDigit hdigit] at hblank
    cases hblank
  · exact absurd hblank (by decide)

theorem IsNumeral.isDigit_of_mem (h : IsNumeral slice) (hc : c ∈ slice) :
    c.isDigit = true ∨ c = '.' := by
  cases h with
  | whole hdigits _ => exact Or.inl (hdigits c hc)
  | point hdigits hfraction _ =>
      rcases List.mem_append.mp hc with hwhole | hpoint
      · exact Or.inl (hdigits c hwhole)
      · rcases List.mem_cons.mp hpoint with rfl | hfrac
        · exact Or.inr rfl
        · exact Or.inl (hfraction c hfrac)

theorem IsLexeme.isBlank_of_mem (h : IsLexeme slice kind text) (hc : c ∈ slice) :
    isBlank c = false := by
  cases h with
  | numeral hnumeral =>
      rcases hnumeral.isDigit_of_mem hc with hdigit | rfl
      · exact isBlank_of_isDigit hdigit
      · decide
  | name hletter hgreek hparts =>
      rcases List.mem_cons.mp hc with rfl | hrest
      · exact (IsLexeme.name hletter hgreek hparts).isBlank_eq_false
      · exact isBlank_of_isNamePart (hparts c hrest)
  | power =>
      obtain rfl : c = '*' := by simpa using hc
      exact IsLexeme.power.isBlank_eq_false
  | symbol hkind =>
      obtain rfl := List.mem_singleton.mp hc
      exact (IsLexeme.symbol hkind).isBlank_eq_false
  | constant hname =>
      obtain rfl := List.mem_singleton.mp hc
      exact (IsLexeme.constant hname).isBlank_eq_false

/-- A lexeme in front of a text that goes on behind a blank ends before the blank. -/
theorem IsLexeme.isPrefix_of_blank
    (h : IsLexeme slice kind text) (hb : isBlank b = true) (hfront : slice <+: cs ++ b :: rest) :
    slice <+: cs := by
  have hnot : b ∉ slice := by
    intro hmem
    rw [h.isBlank_of_mem hmem] at hb
    cases hb
  have hwhole : cs ++ [b] <+: cs ++ b :: rest := ⟨rest, by simp⟩
  rcases List.prefix_or_prefix_of_prefix hfront hwhole with hshort | hlong
  · rcases List.prefix_concat_iff.mp hshort with rfl | hcs
    · exact absurd (List.mem_append_right cs (List.mem_singleton_self b)) hnot
    · exact hcs
  · exact absurd (hlong.subset (List.mem_append_right cs (List.mem_singleton_self b))) hnot

/-- What follows a blank does not change the longest lexeme in front of it. -/
theorem longestLexeme_append_blank_iff (hb : isBlank b = true) (rest : List Char) :
    LongestLexeme (cs ++ b :: rest) slice kind text ↔ LongestLexeme cs slice kind text := by
  constructor
  · intro h
    refine ⟨h.lexeme.isPrefix_of_blank hb h.front, h.lexeme, ?_⟩
    intro slice' kind' text' hfront hlexeme
    exact h.longest slice' kind' text' (hfront.trans (List.prefix_append cs _)) hlexeme
  · intro h
    refine ⟨h.front.trans (List.prefix_append cs _), h.lexeme, ?_⟩
    intro slice' kind' text' hfront hlexeme
    exact h.longest slice' kind' text' (hlexeme.isPrefix_of_blank hb hfront) hlexeme

theorem first?_append_blank (hb : isBlank b = true) (c : Char) (cs rest : List Char) :
    Lexeme.first? c (cs ++ b :: rest) = Lexeme.first? c cs := by
  cases hshort : Lexeme.first? c cs with
  | none =>
      cases hlong : Lexeme.first? c (cs ++ b :: rest) with
      | none => rfl
      | some lexeme =>
          obtain ⟨slice, hlongest, -⟩ := longestLexeme_of_first? hlong
          rw [← List.cons_append, longestLexeme_append_blank_iff hb rest] at hlongest
          exact absurd hlongest.lexeme (not_isLexeme_of_first? hshort hlongest.front)
  | some lexeme =>
      obtain ⟨slice, hlongest, hlength⟩ := longestLexeme_of_first? hshort
      rw [← longestLexeme_append_blank_iff hb rest, List.cons_append] at hlongest
      cases hlong : Lexeme.first? c (cs ++ b :: rest) with
      | none => exact absurd hlongest.lexeme (not_isLexeme_of_first? hlong hlongest.front)
      | some other =>
          obtain ⟨slice', hlongest', hlength'⟩ := longestLexeme_of_first? hlong
          obtain ⟨rfl, hkind, htext⟩ := hlongest'.unique hlongest
          obtain ⟨kind, text, extra⟩ := lexeme
          obtain ⟨kind', text', extra'⟩ := other
          simp only at hkind htext hlength hlength'
          obtain rfl : extra' = extra := by omega
          rw [hkind, htext]

theorem extra_le_of_first? {lexeme : Lexeme} (h : Lexeme.first? c cs = some lexeme) :
    lexeme.extra ≤ cs.length := by
  obtain ⟨slice, hlongest, hlength⟩ := longestLexeme_of_first? h
  have hle := hlongest.front.length_le
  rw [hlength, List.length_cons] at hle
  omega

/-! ## Readings at another offset -/

/-- The same token, in a text that starts `distance` characters later. -/
def Token.shift (distance : Nat) (t : Token) : Token :=
  { t with offset := distance + t.offset }

/-- The same reading of a text that starts `distance` characters later. -/
def Reading.shift (distance : Nat) (r : Reading) : Reading :=
  { r with tokens := r.tokens.map (Token.shift distance), stop := distance + r.stop }

theorem ofText_shift (distance offset : Nat) (cs : List Char) :
    Reading.ofText (distance + offset) cs = (Reading.ofText offset cs).shift distance := by
  fun_induction Reading.ofText offset cs with
  | case1 offset =>
      rw [Reading.ofText]
      rfl
  | case2 offset c cs hblank ih => rw [ofText_blank hblank, Nat.add_assoc, ih]
  | case3 offset c cs hblank hnone =>
      rw [Reading.ofText, if_neg hblank, hnone]
      rfl
  | case4 offset c cs hblank lexeme hlexeme reading ih =>
      rw [ofText_lexeme (Bool.eq_false_iff.mpr hblank) hlexeme, Nat.add_assoc, Nat.add_assoc,
        ← Nat.add_assoc offset, ih]
      rfl

/-! ## Readings of two texts -/

/-- The reading of a text that is followed by `more`, from the reading of the text alone.  A
character at which the reader has stopped is not passed. -/
def Reading.followedBy (more : List Char) (r : Reading) : Reading :=
  match r.rest with
  | [] => (Reading.ofText r.stop more).prepend r.tokens
  | left => { r with rest := left ++ more }

theorem Reading.followedBy_prepend (more : List Char) (ts : List Token) (r : Reading) :
    (r.prepend ts).followedBy more = (r.followedBy more).prepend ts := by
  obtain ⟨tokens, stop, rest⟩ := r
  cases rest with
  | nil => exact (prepend_prepend ts tokens _).symm
  | cons c cs => rfl

/-- A text in front of a blank is read as it is by itself, and then the reader goes on. -/
theorem ofText_append_blank (hb : isBlank b = true) (offset : Nat) (cs rest : List Char) :
    Reading.ofText offset (cs ++ b :: rest) =
      (Reading.ofText offset cs).followedBy (b :: rest) := by
  fun_induction Reading.ofText offset cs with
  | case1 offset => rfl
  | case2 offset c cs hblank ih => rw [List.cons_append, ofText_blank hblank, ih]
  | case3 offset c cs hblank hnone =>
      rw [← first?_append_blank hb c cs rest] at hnone
      rw [List.cons_append, Reading.ofText, if_neg hblank, hnone]
      rfl
  | case4 offset c cs hblank lexeme hlexeme reading ih =>
      have hextra := extra_le_of_first? hlexeme
      rw [← first?_append_blank hb c cs rest] at hlexeme
      rw [List.cons_append, ofText_lexeme (Bool.eq_false_iff.mpr hblank) hlexeme,
        List.drop_append_of_le_length hextra, ih]
      exact (Reading.followedBy_prepend _ [⟨lexeme.kind, lexeme.text, offset⟩] _).symm

/-! ## Source texts -/

/-- Two source texts with a blank between them are read one after the other.  The whole is refused
where the first is.  Otherwise it is refused where the second is, as far behind the first and the
blank.  Otherwise its tokens are those of the first and, as far behind, those of the second with
their end marker. -/
theorem tokenize_append_blank (a b : String) {c : Char} (hc : isBlank c = true) :
    (tokenize (a ++ String.singleton c ++ b)).map Tokens.withEnd =
      match tokenize a, tokenize b with
      | .error e, _ => .error e
      | .ok _, .error e => .error ⟨e.char, a.length + 1 + e.offset⟩
      | .ok ts, .ok us => .ok (ts.tokens ++ us.withEnd.map (Token.shift (a.length + 1))) := by
  have htext : (a ++ String.singleton c ++ b).toList = a.toList ++ c :: b.toList := by simp
  rw [tokenize, htext, ofText_append_blank hc]
  cases ha : tokenize a with
  | error e =>
      obtain ⟨hrest, hstop⟩ := result_eq_error_iff.mp ha
      obtain ⟨left, hleft⟩ := List.head?_eq_some_iff.mp hrest
      rw [Reading.followedBy, hleft, hstop]
      rfl
  | ok ts =>
      obtain ⟨hrest, htokens, hstop⟩ := result_eq_ok_iff.mp ha
      have hlength := (tokenize_eq_ok_iff.mp ha).1
      rw [Reading.followedBy, hrest]
      simp only
      rw [hstop, htokens, hlength, ofText_blank hc, ← Nat.add_zero (a.length + 1), ofText_shift]
      cases hb : tokenize b with
      | error e =>
          obtain ⟨hrest', hstop'⟩ := result_eq_error_iff.mp hb
          obtain ⟨left, hleft⟩ := List.head?_eq_some_iff.mp hrest'
          simp [Reading.result, Reading.prepend, Reading.shift, hleft, hstop', Except.map]
      | ok us =>
          obtain ⟨hrest', htokens', hstop'⟩ := result_eq_ok_iff.mp hb
          simp [Reading.result, Reading.prepend, Reading.shift, hrest', htokens', hstop',
            Except.map, Tokens.withEnd, Token.shift, Token.atEnd]

/-- Two stars with a no-break space between them are no power. -/
theorem tokenize_append_blank_stars :
    isBlank '\u00A0' = true ∧
      (tokenize ("2*" ++ String.singleton '\u00A0' ++ "*.5")).map Tokens.withEnd =
        .ok [⟨.number, "2", 0⟩, ⟨.star, "*", 1⟩, ⟨.star, "*", 3⟩, ⟨.number, ".5", 4⟩,
          .atEnd 6] := by
  have hblank : isBlank '\u00A0' = true := by
    decide
  have ha : tokenize "2*" = .ok ⟨[⟨.number, "2", 0⟩, ⟨.star, "*", 1⟩], 2⟩ := by
    decide +kernel
  have hb : tokenize "*.5" = .ok ⟨[⟨.star, "*", 0⟩, ⟨.number, ".5", 1⟩], 3⟩ := by
    decide +kernel
  have h := tokenize_append_blank "2*" "*.5" hblank
  rw [ha, hb] at h
  exact ⟨hblank, h⟩

end StackCalc
