import Mathlib
import StackCalc.Proofs.Token.Lexemes

/-!
# Letter case in tokens

A letter of ASCII is a letter in both of its cases and nothing else, so the case of letters decides
neither where a token starts nor where it ends.  A text in lower case has the tokens of the text as
it was written, with their names in lower case.
-/

namespace StackCalc

variable {c d : Char} {cs : List Char}

/-! ## Characters -/

theorem toLower_of_not_isAlpha (h : ¬ c.isAlpha = true) : c.toLower = c := by
  apply Char.toLower_eq_of_not_isUpper
  intro hupper
  exact h (by rw [Char.isAlpha, hupper, Bool.true_or])

/-- What all letters of ASCII have in common does not depend on the case of a letter. -/
theorem apply_toLower {α : Type} {f : Char → α} {a : α}
    (h : ∀ c, c.isAlpha = true → f c = a) (c : Char) : f c.toLower = f c := by
  by_cases hc : c.isAlpha = true
  · have hlower : c.toLower.isAlpha = true := by
      rwa [Char.isAlpha_toLower_eq_isAlpha]
    rw [h c hc, h c.toLower hlower]
  · rw [toLower_of_not_isAlpha hc]

theorem isLetter_ne_false_of_isAlpha (h : c.isAlpha = true) : isLetter c ≠ false := by
  rw [isLetter_of_isAlpha c h]
  decide

theorem isBlank_of_isAlpha (h : c.isAlpha = true) : isBlank c = false := by
  rw [Bool.eq_false_iff]
  exact fun hblank => isLetter_ne_false_of_isAlpha h (isLetter_of_isBlank hblank)

theorem symbolKind?_of_isAlpha (h : c.isAlpha = true) : symbolKind? c = none := by
  rw [Option.eq_none_iff_forall_ne_some]
  exact fun kind hkind => isLetter_ne_false_of_isAlpha h (isLetter_of_symbolKind? hkind).1

theorem isDigit_of_isAlpha (h : c.isAlpha = true) : c.isDigit = false := by
  rw [Bool.eq_false_iff]
  exact fun hdigit => isLetter_ne_false_of_isAlpha h (isLetter_of_startsNumeral (Or.inl hdigit))

theorem greekConstant?_of_isAlpha (h : c.isAlpha = true) : greekConstant? c = none := by
  unfold greekConstant?
  split
  all_goals first | rfl | exact absurd h (by decide)

@[simp] theorem isBlank_toLower (c : Char) : isBlank c.toLower = isBlank c :=
  apply_toLower (fun _ => isBlank_of_isAlpha) c

@[simp] theorem isDigit_toLower (c : Char) : c.toLower.isDigit = c.isDigit :=
  apply_toLower (fun _ => isDigit_of_isAlpha) c

@[simp] theorem isNamePart_toLower (c : Char) : isNamePart c.toLower = isNamePart c := by
  apply apply_toLower (f := isNamePart) (a := true)
  intro c hc
  rw [isNamePart, isLetter_of_isAlpha c hc, Bool.true_or, Bool.true_or]

theorem toLower_of_isDigit (h : c.isDigit = true) : c.toLower = c := by
  apply toLower_of_not_isAlpha
  intro halpha
  rw [isDigit_of_isAlpha halpha] at h
  cases h

theorem toLower_eq_iff (h : d.isAlpha = false) : c.toLower = d ↔ c = d := by
  by_cases hc : c.isAlpha = true
  · have hlower : c.toLower.isAlpha = true := by
      rwa [Char.isAlpha_toLower_eq_isAlpha]
    constructor
    · rintro rfl
      rw [h] at hlower
      cases hlower
    · rintro rfl
      rw [h] at hc
      cases hc
  · rw [toLower_of_not_isAlpha hc]

/-! ## Character lists -/

theorem takeWhile_map_toLower {p : Char → Bool} (h : ∀ c, p c.toLower = p c) (cs : List Char) :
    (cs.map Char.toLower).takeWhile p = (cs.takeWhile p).map Char.toLower := by
  have hp : p ∘ Char.toLower = p := funext h
  rw [List.takeWhile_map, hp]

theorem map_toLower_takeWhile_isDigit (cs : List Char) :
    (cs.takeWhile Char.isDigit).map Char.toLower = cs.takeWhile Char.isDigit := by
  rw [← List.map_id (cs.takeWhile Char.isDigit), List.map_map]
  exact List.map_congr_left fun c hc => toLower_of_isDigit (allDigits_takeWhile cs c hc)

@[simp] theorem startsWithDigit_map_toLower (cs : List Char) :
    startsWithDigit (cs.map Char.toLower) = startsWithDigit cs := by
  cases cs with
  | nil => rfl
  | cons c cs => exact isDigit_toLower c

@[simp] theorem numeralPrefix_map_toLower (cs : List Char) :
    numeralPrefix (cs.map Char.toLower) = numeralPrefix cs := by
  have hdrop : (cs.map Char.toLower).dropWhile Char.isDigit =
      (cs.dropWhile Char.isDigit).map Char.toLower := by
    rw [List.dropWhile_map]
    exact congrArg (fun p => (cs.dropWhile p).map Char.toLower) (funext isDigit_toLower)
  rw [numeralPrefix, numeralPrefix, takeWhile_map_toLower isDigit_toLower,
    map_toLower_takeWhile_isDigit, hdrop]
  rcases cs.dropWhile Char.isDigit with _ | ⟨d, rest⟩
  · rfl
  · by_cases hd : d = '.'
    · subst hd
      have hpoint : '.'.toLower = '.' := by
        decide
      simp only [List.map_cons, hpoint, startsWithDigit_map_toLower,
        takeWhile_map_toLower isDigit_toLower, map_toLower_takeWhile_isDigit]
    · have hlower : d.toLower ≠ '.' := by
        rwa [Ne, toLower_eq_iff (by decide)]
      simp [List.map_cons, hlower, hd]

theorem toLower_toLower (text : String) : text.toLower.toLower = text.toLower := by
  have hchar : Char.toLower ∘ Char.toLower = Char.toLower :=
    funext Char.toLower_toLower_eq_toLower
  rw [String.ext_iff, String.toLower, String.toLower, String.toList_map, String.toList_map,
    List.map_map, hchar]

/-! ## Tokens -/

/-- The text of a token of a kind, if the source is in lower case.  Only names change. -/
def loweredText (kind : TokenKind) (text : String) : String :=
  if kind = .identifier then text.toLower else text

def Lexeme.lowered (lexeme : Lexeme) : Lexeme :=
  { lexeme with text := loweredText lexeme.kind lexeme.text }

/-- The token of the same place in the source in lower case. -/
def Token.lowered (t : Token) : Token := { t with text := loweredText t.kind t.text }

def Tokens.lowered (ts : Tokens) : Tokens := ⟨ts.tokens.map Token.lowered, ts.stop⟩

def LexError.lowered (e : LexError) : LexError := { e with char := e.char.toLower }

def Reading.lowered (r : Reading) : Reading :=
  ⟨r.tokens.map Token.lowered, r.stop, r.rest.map Char.toLower⟩

theorem lowered_ofSlice_identifier (slice : List Char) :
    (Lexeme.ofSlice .identifier slice).lowered =
      .ofSlice .identifier (slice.map Char.toLower) := by
  simp [Lexeme.ofSlice, Lexeme.lowered, loweredText, String.toLower, String.ext_iff]

theorem lowered_ofSlice {kind : TokenKind} (h : kind ≠ .identifier) (slice : List Char) :
    (Lexeme.ofSlice kind slice).lowered = .ofSlice kind slice := by
  simp [Lexeme.ofSlice, Lexeme.lowered, loweredText, h]

theorem symbolKind?_ne_identifier {kind : TokenKind} (h : symbolKind? c = some kind) :
    kind ≠ .identifier := by
  unfold symbolKind? at h
  split at h
  all_goals first | cases h; decide | cases h

theorem toLower_of_greekConstant? {name : String} (h : greekConstant? c = some name) :
    name.toLower = name := by
  unfold greekConstant? at h
  split at h
  all_goals first | cases h; decide +kernel | cases h

theorem first?_of_isAlpha (h : c.isAlpha = true) (cs : List Char) :
    Lexeme.first? c cs = some (.ofSlice .identifier (c :: cs.takeWhile isNamePart)) := by
  have hstar : (c == '*') = false := by
    rw [beq_eq_false_iff_ne]
    rintro rfl
    exact absurd h (by decide)
  have hpoint : (c == '.') = false := by
    rw [beq_eq_false_iff_ne]
    rintro rfl
    exact absurd h (by decide)
  simp [Lexeme.first?, hstar, hpoint, symbolKind?_of_isAlpha h, isDigit_of_isAlpha h,
    greekConstant?_of_isAlpha h, isLetter_of_isAlpha c h]

/-- The longest lexeme at a place in lower case. -/
theorem first?_toLower (c : Char) (cs : List Char) :
    Lexeme.first? c.toLower (cs.map Char.toLower) = (Lexeme.first? c cs).map Lexeme.lowered := by
  -- A letter of ASCII starts a name, and any other character stays as it is.
  by_cases hc : c.isAlpha = true
  · have hlower : c.toLower.isAlpha = true := by
      rwa [Char.isAlpha_toLower_eq_isAlpha]
    rw [first?_of_isAlpha hc, first?_of_isAlpha hlower, Option.map_some, lowered_ofSlice_identifier,
      List.map_cons, takeWhile_map_toLower isNamePart_toLower]
  · have hhead : ((cs.map Char.toLower).head? == some '*') = (cs.head? == some '*') := by
      cases cs with
      | nil => rfl
      | cons d cs => simp [toLower_eq_iff]
    have hnumeral : numeralPrefix (c :: cs.map Char.toLower) = numeralPrefix (c :: cs) := by
      rw [← numeralPrefix_map_toLower (c :: cs), List.map_cons, toLower_of_not_isAlpha hc]
    have hname : (Lexeme.ofSlice .identifier (c :: cs.takeWhile isNamePart)).lowered =
        .ofSlice .identifier (c :: (cs.takeWhile isNamePart).map Char.toLower) := by
      rw [lowered_ofSlice_identifier, List.map_cons, toLower_of_not_isAlpha hc]
    rw [toLower_of_not_isAlpha hc, Lexeme.first?, Lexeme.first?, hhead, startsWithDigit_map_toLower,
      hnumeral, takeWhile_map_toLower isNamePart_toLower]
    split
    · rfl
    · cases hkind : symbolKind? c with
      | some kind => rw [Option.map_some, lowered_ofSlice (symbolKind?_ne_identifier hkind)]
      | none =>
          simp only
          split
          · rw [Option.map_some, lowered_ofSlice (by decide)]
          · cases hgreek : greekConstant? c with
            | some name => simp [Lexeme.lowered, loweredText, toLower_of_greekConstant? hgreek]
            | none =>
                simp only
                split
                · rw [Option.map_some, hname]
                · rfl

theorem ofText_map_toLower (offset : Nat) (cs : List Char) :
    Reading.ofText offset (cs.map Char.toLower) = (Reading.ofText offset cs).lowered := by
  fun_induction Reading.ofText offset cs with
  | case1 offset =>
      rw [List.map_nil, Reading.ofText]
      rfl
  | case2 offset c cs hblank ih =>
      rw [List.map_cons, Reading.ofText, isBlank_toLower, if_pos hblank, ih]
  | case3 offset c cs hblank hfirst =>
      rw [List.map_cons, Reading.ofText, isBlank_toLower, if_neg hblank, first?_toLower, hfirst]
      rfl
  | case4 offset c cs hblank lexeme hfirst reading ih =>
      rw [List.map_cons, Reading.ofText, isBlank_toLower, if_neg hblank, first?_toLower, hfirst]
      have hrest : Reading.ofText (offset + 1 + lexeme.lowered.extra)
          ((cs.map Char.toLower).drop lexeme.lowered.extra) = reading.lowered := by
        rw [← List.map_drop]
        exact ih
      simp only [Option.map_some, hrest]
      rfl

/-- A text in lower case has the tokens of the text, in lower case. -/
theorem tokenize_toLower (source : String) :
    tokenize source.toLower =
      ((tokenize source).map Tokens.lowered).mapError LexError.lowered := by
  rw [tokenize, tokenize, String.toLower, String.toList_map, ofText_map_toLower]
  obtain ⟨tokens, stop, _ | ⟨c, rest⟩⟩ := Reading.ofText 0 source.toList
  · rfl
  · rfl

end StackCalc
