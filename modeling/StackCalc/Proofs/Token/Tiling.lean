import Mathlib
import StackCalc.Proofs.Token.Lexemes

/-!
# The tiling of a source text

The tokens of a source text tile it.  Each of them lies at its offset, on the longest lexeme that
starts there; no two of them overlap, and what they leave uncovered is blank.  A text has at most
one such tiling that ends at its end or at a character that starts no lexeme and is no blank, and
the reader finds it.

Reading again from where a reading stopped finds nothing new, however often it is done.
-/

namespace StackCalc

/-- A token and the characters of its lexeme. -/
structure Tile where
  token : Token
  slice : List Char

namespace Tile

def start (t : Tile) : Nat := t.token.offset

def stop (t : Tile) : Nat := t.token.offset + t.slice.length

end Tile

/-- The tiles cover a text from `start` to `stop`, up to blanks. -/
structure Tiling (text : List Char) (start stop : Nat) (tiles : List Tile) : Prop where
  start_le : start ≤ stop
  longest : ∀ t ∈ tiles, LongestLexeme (text.drop t.start) t.slice t.token.kind t.token.text
  within : ∀ t ∈ tiles, start ≤ t.start ∧ t.stop ≤ stop
  apart : tiles.Pairwise fun t u => t.stop ≤ u.start
  blank : ∀ place c, start ≤ place → place < stop → text[place]? = some c →
    (∀ t ∈ tiles, place < t.start ∨ t.stop ≤ place) → isBlank c = true

/-- The character at a place is no blank and starts no lexeme. -/
structure StartsNothing (text : List Char) (place : Nat) (c : Char) : Prop where
  getElem? : text[place]? = some c
  isBlank : isBlank c = false
  not_isLexeme : ∀ slice kind name, slice <+: text.drop place → ¬ IsLexeme slice kind name

variable {text cs : List Char} {c : Char} {start stop offset : Nat} {tiles : List Tile} {t : Tile}

namespace Tiling

theorem start_lt_stop
    (h : LongestLexeme (text.drop t.start) t.slice t.token.kind t.token.text) :
    t.start < t.stop := by
  have hpos := List.length_pos_of_ne_nil h.lexeme.ne_nil
  rw [Tile.start, Tile.stop]
  omega

/-! ## Building tilings -/

theorem nil (text : List Char) (place : Nat) : Tiling text place place [] where
  start_le := le_rfl
  longest t ht := by cases ht
  within t ht := by cases ht
  apart := .nil
  blank place' c hle hlt := by omega

theorem skip (hc : text[start]? = some c) (hblank : isBlank c = true)
    (h : Tiling text (start + 1) stop tiles) : Tiling text start stop tiles where
  start_le := Nat.le_of_succ_le h.start_le
  longest := h.longest
  within t ht := ⟨Nat.le_of_succ_le (h.within t ht).1, (h.within t ht).2⟩
  apart := h.apart
  blank place d hle hlt hd huncovered := by
    by_cases heq : place = start
    · subst heq
      rw [hc, Option.some.injEq] at hd
      rwa [← hd]
    · exact h.blank place d (by omega) hlt hd huncovered

theorem cons (ht : LongestLexeme (text.drop t.start) t.slice t.token.kind t.token.text)
    (h : Tiling text t.stop stop tiles) : Tiling text t.start stop (t :: tiles) where
  start_le := (start_lt_stop ht).le.trans h.start_le
  longest := List.forall_mem_cons.mpr ⟨ht, h.longest⟩
  within := by
    refine List.forall_mem_cons.mpr ⟨⟨le_rfl, h.start_le⟩, ?_⟩
    intro u hu
    exact ⟨(start_lt_stop ht).le.trans (h.within u hu).1, (h.within u hu).2⟩
  apart := List.pairwise_cons.mpr ⟨fun u hu => (h.within u hu).1, h.apart⟩
  blank place d hle hlt hd huncovered := by
    obtain ⟨hfirst, hrest⟩ := List.forall_mem_cons.mp huncovered
    exact h.blank place d (by omega) hlt hd hrest

/-! ## Taking tilings apart -/

theorem tail (h : Tiling text start stop (t :: tiles)) : Tiling text t.stop stop tiles where
  start_le := (h.within t List.mem_cons_self).2
  longest u hu := h.longest u (List.mem_cons_of_mem t hu)
  within u hu :=
    ⟨(List.pairwise_cons.mp h.apart).1 u hu, (h.within u (List.mem_cons_of_mem t hu)).2⟩
  apart := (List.pairwise_cons.mp h.apart).2
  blank place d hle hlt hd huncovered := by
    have hfirst := h.within t List.mem_cons_self
    have hpos := start_lt_stop (h.longest t List.mem_cons_self)
    apply h.blank place d (by omega) hlt hd
    exact List.forall_mem_cons.mpr ⟨Or.inr hle, huncovered⟩

theorem eq_nil (h : Tiling text stop stop tiles) : tiles = [] := by
  rw [List.eq_nil_iff_forall_not_mem]
  intro t ht
  have hwithin := h.within t ht
  have hpos := start_lt_stop (h.longest t ht)
  omega

theorem of_blank (h : Tiling text start stop tiles) (hlt : start < stop)
    (hdrop : text.drop start = c :: cs) (hblank : isBlank c = true) :
    Tiling text (start + 1) stop tiles where
  start_le := hlt
  longest := h.longest
  within t ht := by
    have hwithin := h.within t ht
    refine ⟨Nat.lt_of_le_of_ne hwithin.1 ?_, hwithin.2⟩
    intro heq
    have hlongest := h.longest t ht
    rw [← heq, hdrop] at hlongest
    obtain ⟨tail, htail, -⟩ := hlongest.lexeme.exists_cons hlongest.front
    have hlexeme := hlongest.lexeme
    rw [htail] at hlexeme
    rw [hlexeme.isBlank_eq_false] at hblank
    cases hblank
  apart := h.apart
  blank place d hle := h.blank place d (Nat.le_of_succ_le hle)

theorem exists_cons (h : Tiling text start stop tiles) (hlt : start < stop)
    (hc : text[start]? = some c) (hblank : isBlank c = false) :
    ∃ t rest, tiles = t :: rest ∧ t.start = start := by
  have hcovered : ∃ t ∈ tiles, t.start ≤ start ∧ start < t.stop := by
    by_contra hnone
    push Not at hnone
    have : isBlank c = true := by
      apply h.blank start c le_rfl hlt hc
      intro t ht
      have := hnone t ht
      omega
    rw [hblank] at this
    cases this
  obtain ⟨t, ht, hle, hstop⟩ := hcovered
  have hstart : t.start = start := Nat.le_antisymm hle (h.within t ht).1
  cases tiles with
  | nil => cases ht
  | cons u rest =>
      refine ⟨u, rest, rfl, ?_⟩
      rcases List.mem_cons.mp ht with rfl | hrest
      · exact hstart
      · have hapart := (List.pairwise_cons.mp h.apart).1 t hrest
        have hwithin := h.within u List.mem_cons_self
        have hpos := start_lt_stop (h.longest u List.mem_cons_self)
        omega

end Tiling

/-! ## The tiling that the reader finds -/

theorem getElem?_of_drop_eq (h : text.drop start = c :: cs) : text[start]? = some c := by
  rw [← List.head?_drop, h]
  rfl

theorem drop_succ_of_drop_eq (h : text.drop start = c :: cs) : text.drop (start + 1) = cs := by
  rw [← List.tail_drop, h]
  rfl

theorem lt_length_of_drop_eq (h : text.drop start = c :: cs) : start < text.length :=
  (List.getElem?_eq_some_iff.mp (getElem?_of_drop_eq h)).1

theorem exists_slice {lexeme : Lexeme}
    (hcs : text.drop offset = c :: cs) (h : Lexeme.first? c cs = some lexeme) :
    ∃ slice, LongestLexeme (text.drop offset) slice lexeme.kind lexeme.text ∧
      offset + slice.length = offset + 1 + lexeme.extra ∧
      text.drop (offset + 1 + lexeme.extra) = cs.drop lexeme.extra ∧
      offset + 1 + lexeme.extra ≤ text.length := by
  obtain ⟨slice, hlongest, hlength⟩ := longestLexeme_of_first? h
  have hle := hlongest.front.length_le
  rw [← hcs, List.length_drop, hlength] at hle
  have hoffset := lt_length_of_drop_eq hcs
  refine ⟨slice, hcs ▸ hlongest, by omega, ?_, by omega⟩
  rw [← drop_succ_of_drop_eq hcs, List.drop_drop]

theorem stops_ofText (text : List Char) (offset : Nat) (cs : List Char)
    (hcs : text.drop offset = cs) (hoffset : offset ≤ text.length) :
    text.drop (Reading.ofText offset cs).stop = (Reading.ofText offset cs).rest ∧
    match (Reading.ofText offset cs).rest with
    | [] => (Reading.ofText offset cs).stop = text.length
    | c :: _ => StartsNothing text (Reading.ofText offset cs).stop c := by
  fun_induction Reading.ofText offset cs with
  | case1 offset =>
      exact ⟨hcs, Nat.le_antisymm hoffset (List.drop_eq_nil_iff.mp hcs)⟩
  | case2 offset c cs hblank ih =>
      exact ih (drop_succ_of_drop_eq hcs) (lt_length_of_drop_eq hcs)
  | case3 offset c cs hblank hnone =>
      refine ⟨hcs, getElem?_of_drop_eq hcs, Bool.eq_false_iff.mpr hblank, ?_⟩
      intro slice kind name hfront
      rw [hcs] at hfront
      exact not_isLexeme_of_first? hnone hfront
  | case4 offset c cs hblank lexeme hlexeme reading ih =>
      obtain ⟨slice, -, -, hdrop, hle⟩ := exists_slice hcs hlexeme
      exact ih hdrop hle

/-- The tokens that the reader finds tile the text up to where it stops. -/
theorem exists_tiling_ofText (text : List Char) (offset : Nat) (cs : List Char)
    (hcs : text.drop offset = cs) :
    ∃ tiles, (Reading.ofText offset cs).tokens = tiles.map Tile.token ∧
      Tiling text offset (Reading.ofText offset cs).stop tiles := by
  fun_induction Reading.ofText offset cs with
  | case1 offset => exact ⟨[], rfl, .nil text offset⟩
  | case2 offset c cs hblank ih =>
      obtain ⟨tiles, htokens, htiling⟩ := ih (drop_succ_of_drop_eq hcs)
      exact ⟨tiles, htokens, htiling.skip (getElem?_of_drop_eq hcs) hblank⟩
  | case3 offset c cs hblank hnone => exact ⟨[], rfl, .nil text offset⟩
  | case4 offset c cs hblank lexeme hlexeme reading ih =>
      obtain ⟨slice, hlongest, hlength, hdrop, -⟩ := exists_slice hcs hlexeme
      obtain ⟨tiles, htokens, htiling⟩ := ih hdrop
      let tile : Tile := ⟨⟨lexeme.kind, lexeme.text, offset⟩, slice⟩
      refine ⟨tile :: tiles, by rw [List.map_cons, ← htokens], ?_⟩
      apply Tiling.cons (t := tile) hlongest
      rw [Tile.stop, hlength]
      exact htiling

/-! ## The only tiling -/

/-- The end of a text and the places where nothing starts: a tiling up to one of them cannot go
on. -/
def IsLastPlace (text : List Char) (place : Nat) : Prop :=
  place = text.length ∨ ∃ c, StartsNothing text place c

theorem IsLastPlace.le (h : IsLastPlace text stop) : stop ≤ text.length := by
  rcases h with heq | ⟨c, hc⟩
  · exact heq.le
  · exact (List.getElem?_eq_some_iff.mp hc.getElem?).1.le

theorem IsLastPlace.startsNothing (h : IsLastPlace text start) (hcs : text.drop start = c :: cs) :
    StartsNothing text start c := by
  rcases h with heq | ⟨d, hd⟩
  · exact absurd heq (lt_length_of_drop_eq hcs).ne
  · have hc := hd.getElem?
    rw [getElem?_of_drop_eq hcs, Option.some.injEq] at hc
    rwa [hc]

/-- A tiling up to a last place is the one that the reader finds. -/
theorem ofText_of_tiling (text : List Char) (offset : Nat) (cs : List Char)
    (hcs : text.drop offset = cs) (hlast : IsLastPlace text stop) :
    ∀ tiles, Tiling text offset stop tiles →
      (Reading.ofText offset cs).tokens = tiles.map Tile.token ∧
        (Reading.ofText offset cs).stop = stop := by
  fun_induction Reading.ofText offset cs with
  | case1 offset =>
      intro tiles h
      have hlength := List.drop_eq_nil_iff.mp hcs
      obtain rfl : stop = offset :=
        Nat.le_antisymm (hlast.le.trans hlength) h.start_le
      rw [h.eq_nil]
      exact ⟨rfl, rfl⟩
  | case2 offset c cs hblank ih =>
      intro tiles h
      have hne : offset ≠ stop := by
        rintro rfl
        rw [(hlast.startsNothing hcs).isBlank] at hblank
        cases hblank
      have hlt := Nat.lt_of_le_of_ne h.start_le hne
      exact ih (drop_succ_of_drop_eq hcs) tiles (h.of_blank hlt hcs hblank)
  | case3 offset c cs hblank hnone =>
      intro tiles h
      by_cases hstop : stop = offset
      · subst hstop
        rw [h.eq_nil]
        exact ⟨rfl, rfl⟩
      · have hlt := Nat.lt_of_le_of_ne h.start_le (Ne.symm hstop)
        obtain ⟨t, rest, rfl, hstart⟩ :=
          h.exists_cons hlt (getElem?_of_drop_eq hcs) (Bool.eq_false_iff.mpr hblank)
        have hlongest := h.longest t List.mem_cons_self
        rw [hstart, hcs] at hlongest
        exact absurd hlongest.lexeme (not_isLexeme_of_first? hnone hlongest.front)
  | case4 offset c cs hblank lexeme hlexeme reading ih =>
      intro tiles h
      obtain ⟨slice, hlongest, hlength, hdrop, -⟩ := exists_slice hcs hlexeme
      have hne : offset ≠ stop := by
        rintro rfl
        exact (hlast.startsNothing hcs).not_isLexeme _ _ _ hlongest.front hlongest.lexeme
      have hlt := Nat.lt_of_le_of_ne h.start_le hne
      obtain ⟨⟨⟨kind, name, place⟩, slice'⟩, rest, rfl, hstart⟩ :=
        h.exists_cons hlt (getElem?_of_drop_eq hcs) (Bool.eq_false_iff.mpr hblank)
      have hlongest' := h.longest _ List.mem_cons_self
      rw [hstart] at hlongest'
      obtain ⟨rfl, rfl, rfl⟩ := hlongest.unique hlongest'
      obtain rfl : place = offset := hstart
      have htail := h.tail
      rw [Tile.stop, hlength] at htail
      obtain ⟨htokens, hstop⟩ := ih hdrop rest htail
      exact ⟨by rw [List.map_cons, htokens], hstop⟩

/-! ## Source texts -/

variable {source : String} {ts : Tokens} {e : LexError}

theorem result_eq_ok_iff {r : Reading} :
    r.result = .ok ts ↔ r.rest = [] ∧ r.tokens = ts.tokens ∧ r.stop = ts.stop := by
  obtain ⟨tokens, stop⟩ := ts
  rw [Reading.result]
  cases r.rest <;> simp

theorem result_eq_error_iff {r : Reading} :
    r.result = .error e ↔ r.rest.head? = some e.char ∧ r.stop = e.offset := by
  obtain ⟨char, offset⟩ := e
  rw [Reading.result]
  cases r.rest <;> simp

/-- A source text is read to its end if its tokens tile it, and only then. -/
theorem tokenize_eq_ok_iff :
    tokenize source = .ok ts ↔ ts.stop = source.length ∧
      ∃ tiles, ts.tokens = tiles.map Tile.token ∧ Tiling source.toList 0 source.length tiles := by
  obtain ⟨hrest, hstops⟩ := stops_ofText source.toList 0 source.toList rfl (Nat.zero_le _)
  rw [tokenize, result_eq_ok_iff, ← String.length_toList]
  constructor
  · rintro ⟨hnil, htokens, hstop⟩
    rw [hnil] at hstops
    obtain ⟨tiles, htokens', htiling⟩ := exists_tiling_ofText source.toList 0 source.toList rfl
    rw [hstops] at htiling
    exact ⟨hstop.symm.trans hstops, tiles, htokens.symm.trans htokens', htiling⟩
  · rintro ⟨hstop, tiles, htokens, htiling⟩
    obtain ⟨htokens', hstop'⟩ :=
      ofText_of_tiling source.toList 0 source.toList rfl (Or.inl rfl) tiles htiling
    rw [hstop', List.drop_length] at hrest
    exact ⟨hrest.symm, htokens'.trans htokens.symm, hstop'.trans hstop.symm⟩

/-- A source text is refused where its tiling meets a character that starts nothing. -/
theorem tokenize_eq_error_iff :
    tokenize source = .error e ↔ StartsNothing source.toList e.offset e.char ∧
      ∃ tiles, Tiling source.toList 0 e.offset tiles := by
  obtain ⟨hrest, hstops⟩ := stops_ofText source.toList 0 source.toList rfl (Nat.zero_le _)
  rw [tokenize, result_eq_error_iff]
  constructor
  · rintro ⟨hchar, hstop⟩
    obtain ⟨after, hafter⟩ := List.head?_eq_some_iff.mp hchar
    rw [hafter] at hstops
    obtain ⟨tiles, -, htiling⟩ := exists_tiling_ofText source.toList 0 source.toList rfl
    rw [hstop] at hstops htiling
    exact ⟨hstops, tiles, htiling⟩
  · rintro ⟨hnothing, tiles, htiling⟩
    obtain ⟨-, hstop⟩ :=
      ofText_of_tiling source.toList 0 source.toList rfl (Or.inr ⟨_, hnothing⟩) tiles htiling
    rw [← hrest, hstop, List.head?_drop]
    exact ⟨hnothing.getElem?, rfl⟩

theorem again_ofText (offset : Nat) (cs : List Char) :
    (Reading.ofText offset cs).again = { Reading.ofText offset cs with tokens := [] } := by
  fun_induction Reading.ofText offset cs with
  | case1 offset => rw [Reading.again, Reading.ofText]
  | case2 offset c cs hblank ih => exact ih
  | case3 offset c cs hblank hnone =>
      rw [Reading.again, Reading.ofText, if_neg hblank, hnone]
  | case4 offset c cs hblank lexeme hlexeme reading ih => exact ih

theorem iterate_again_ofText (offset : Nat) (cs : List Char) (n : Nat) :
    Reading.again^[n + 1] (Reading.ofText offset cs) =
      { Reading.ofText offset cs with tokens := [] } := by
  induction n with
  | zero => exact again_ofText offset cs
  | succ n ih =>
      rw [Function.iterate_succ_apply', ih]
      exact again_ofText offset cs

/-- Reading tokens is tiling by longest lexemes.  A source text that has a tiling up to its end is
read as the tokens of that tiling, and every other text is refused at the character where its
tiling stops.  Reading on after the end gives the end marker alone, and reading on after a refusal
the same refusal. -/
theorem tokenize_tiles (source : String) :
    (∀ ts, tokenize source = .ok ts ↔ ts.stop = source.length ∧
      ∃ tiles, ts.tokens = tiles.map Tile.token ∧ Tiling source.toList 0 source.length tiles) ∧
    (∀ e, tokenize source = .error e ↔ StartsNothing source.toList e.offset e.char ∧
      ∃ tiles, Tiling source.toList 0 e.offset tiles) ∧
    ∀ n, match tokenize source with
      | .ok ts => (Reading.again^[n + 1] (Reading.ofText 0 source.toList)).result =
        .ok ⟨[], ts.stop⟩
      | .error e => (Reading.again^[n + 1] (Reading.ofText 0 source.toList)).result =
        .error e := by
  refine ⟨fun ts => tokenize_eq_ok_iff, fun e => tokenize_eq_error_iff, ?_⟩
  intro n
  cases h : tokenize source with
  | ok ts =>
      obtain ⟨hrest, -, hstop⟩ := result_eq_ok_iff.mp h
      simp only [iterate_again_ofText, result_eq_ok_iff]
      exact ⟨hrest, trivial, hstop⟩
  | error e =>
      simp only [iterate_again_ofText, result_eq_error_iff]
      exact result_eq_error_iff.mp h

/-! ## Offsets -/

/-- The tokens of a source text are ordered by their offsets. -/
theorem pairwise_offset_of_tokenize (h : tokenize source = .ok ts) :
    ts.tokens.Pairwise fun t u => t.offset < u.offset := by
  obtain ⟨-, tiles, htokens, htiling⟩ := tokenize_eq_ok_iff.mp h
  rw [htokens, List.pairwise_map]
  apply htiling.apart.imp_of_mem
  intro t u ht hu hapart
  exact (Tiling.start_lt_stop (htiling.longest t ht)).trans_le hapart

theorem exists_char_of_mem_tokens (h : tokenize source = .ok ts) {t : Token} (ht : t ∈ ts.tokens) :
    ∃ c, source.toList[t.offset]? = some c ∧ isBlank c = false := by
  obtain ⟨-, tiles, htokens, htiling⟩ := tokenize_eq_ok_iff.mp h
  rw [htokens, List.mem_map] at ht
  obtain ⟨tile, htile, rfl⟩ := ht
  have hlongest := htiling.longest tile htile
  obtain ⟨c, cs, hcs⟩ := List.exists_cons_of_ne_nil hlongest.lexeme.ne_nil
  obtain ⟨rest, hrest⟩ := hlongest.front
  have hlexeme := hlongest.lexeme
  rw [hcs] at hrest hlexeme
  exact ⟨c, getElem?_of_drop_eq hrest.symm, hlexeme.isBlank_eq_false⟩

end StackCalc
