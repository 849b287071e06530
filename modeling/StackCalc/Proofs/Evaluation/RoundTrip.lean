import Mathlib
import StackCalc.Proofs.Decimal.Positional
import StackCalc.Proofs.Evaluation.Safety

/-!
# The text of a value evaluates to the value

The text of a number is a numeral, after a minus sign if the number is less than zero.  It is read
as a literal or as the negation of a literal, so it evaluates to the number, up to the sign of a
zero.  The text of an array is read item by item, and the items are at most two levels deep.
-/

namespace StackCalc

/-! ## Shown values -/

/-- The number that the text of a number denotes; a zero loses its sign. -/
def Binary64.shown (x : Binary64) : Binary64 :=
  if x.isZero then .zero else x

/-- The value that the text of a value denotes. -/
def Value.shown : Value → Value
  | .number x => .number x.shown
  | .array items => .array (items.map Binary64.shown)

namespace Binary64

variable {x : Binary64}

theorem shown_of_isZero (h : x.isZero = true) : x.shown = x.abs := by
  rw [shown, if_pos h, abs_of_isZero h]

theorem shown_of_positive (h : x.negative = false) : x.shown = x.abs := by
  by_cases hzero : x.isZero = true
  · exact shown_of_isZero hzero
  · rw [shown, if_neg hzero]
    exact eq_of_code_eq h rfl

theorem isFinite_shown (h : x.isFinite = true) : x.shown.isFinite = true := by
  rw [shown]
  split
  · rfl
  · exact h

theorem rank_shown (x : Binary64) : x.shown.rank = x.rank := by
  by_cases hzero : x.isZero = true
  · rw [shown, if_pos hzero]
    rw [isZero, beq_iff_eq] at hzero
    rw [rank, rank, hzero]
    simp [zero, ofCode]
  · rw [shown, if_neg hzero]

theorem equals_shown (h : x.isFinite = true) :
    x.shown.equals x = true ∧ x.equals x.shown = true := by
  have hnan := (isFinite_iff.mp h).1
  have hshown := (isFinite_iff.mp (isFinite_shown h)).1
  simp [equals, hnan, hshown, rank_shown]

end Binary64

namespace Value

variable {v : Value}

theorem all_equals_shown {items : List Binary64} (h : ∀ x ∈ items, x.isFinite = true) :
    (((items.map Binary64.shown).zip items).all fun pair => pair.1.equals pair.2) = true ∧
      ((items.zip (items.map Binary64.shown)).all fun pair => pair.1.equals pair.2) = true := by
  induction items with
  | nil => exact ⟨rfl, rfl⟩
  | cons x items ih =>
      obtain ⟨hx, hitems⟩ := List.forall_mem_cons.mp h
      obtain ⟨hleft, hright⟩ := Binary64.equals_shown hx
      obtain ⟨hlefts, hrights⟩ := ih hitems
      rw [List.map_cons, List.zip_cons_cons, List.zip_cons_cons, List.all_cons, List.all_cons]
      exact ⟨Bool.and_eq_true_iff.mpr ⟨hleft, hlefts⟩, Bool.and_eq_true_iff.mpr ⟨hright, hrights⟩⟩

theorem equals_shown (h : v.isFinite = true) :
    v.shown.equals v = true ∧ v.equals v.shown = true := by
  cases v with
  | number x => exact Binary64.equals_shown h
  | array items =>
      have hall := all_equals_shown (List.all_eq_true.mp h)
      rw [shown, equals, equals, List.length_map, beq_self_eq_true, Bool.true_and]
      exact hall

end Value

/-! ## Reading -/

/-- A text at an offset is read as some tokens, unless it is followed by more of a numeral. -/
def ReadsAs (offset : Nat) (text : List Char) (ts : List Token) : Prop :=
  ∀ rest, EndsNumeral rest →
    Reading.ofText offset (text ++ rest) =
      (Reading.ofText (offset + text.length) rest).prepend ts

theorem readsAs_numeral (offset : Nat) {numeral : List Char} (h : IsNumeral numeral) :
    ReadsAs offset numeral [⟨.number, String.ofList numeral, offset⟩] :=
  fun _ hrest => ofText_numeral h hrest

theorem readsAs_minus {offset : Nat} {text : List Char} {ts : List Token}
    (h : ReadsAs (offset + 1) text ts) :
    ReadsAs offset ('-' :: text) (⟨.minus, String.ofList ['-'], offset⟩ :: ts) := by
  intro rest hrest
  have hlength : offset + 1 + text.length = offset + ('-' :: text).length := by
    rw [List.length_cons]
    omega
  rw [List.cons_append, ofText_symbol (by decide) (by decide) rfl, h rest hrest, hlength]
  rfl

/-- A comma and a blank separate what is read before them from what is read after them. -/
theorem ReadsAs.separate {offset : Nat} {text text' : List Char} {ts ts' : List Token}
    (h : ReadsAs offset text ts) (h' : ReadsAs (offset + text.length + 2) text' ts') :
    ReadsAs offset (text ++ ',' :: ' ' :: text')
      (ts ++ ⟨.comma, String.ofList [','], offset + text.length⟩ :: ts') := by
  intro rest hrest
  have hcomma : EndsNumeral (',' :: ' ' :: (text' ++ rest)) := by
    intro c hc
    cases hc
    decide
  have hlength : offset + text.length + 2 + text'.length =
      offset + (text ++ ',' :: ' ' :: text').length := by
    rw [List.length_append, List.length_cons, List.length_cons]
    omega
  rw [List.append_assoc, List.cons_append, List.cons_append, h _ hcomma,
    ofText_symbol (by decide) (by decide) rfl, ofText_blank (by decide), h' rest hrest, hlength]
  rw [← Reading.prepend_prepend]
  rfl

theorem ReadsAs.tokenize_eq {source : String} {ts : List Token} (h : ReadsAs 0 source.toList ts) :
    tokenize source = .ok ⟨ts, source.toList.length⟩ := by
  have hread := h [] (by rintro c ⟨⟩)
  rw [List.append_nil, Nat.zero_add, Reading.ofText] at hread
  rw [tokenize, hread, Reading.prepend, Reading.result, List.append_nil]

theorem readsAs_array {text : List Char} {ts : List Token} (h : ReadsAs 1 text ts) :
    ReadsAs 0 ('[' :: text ++ [']']) (⟨.leftBracket, String.ofList ['['], 0⟩ :: ts ++
      [⟨.rightBracket, String.ofList [']'], 1 + text.length⟩]) := by
  intro rest hrest
  have hbracket : EndsNumeral (']' :: rest) := by
    intro c hc
    cases hc
    decide
  have hlength : 1 + text.length + 1 = 0 + ('[' :: text ++ [']']).length := by
    simp only [List.length_append, List.length_cons, List.length_nil]
    omega
  rw [List.append_assoc, List.cons_append, List.singleton_append,
    ofText_symbol (by decide) (by decide) rfl, h _ hbracket,
    ofText_symbol (by decide) (by decide) rfl, hlength]
  rw [Reading.prepend, Reading.prepend, List.append_assoc, List.cons_append, List.cons_append]
  rfl

/-! ## Texts -/

section

variable [Library]

theorem Binary64.text_shown (x : Binary64) : x.shown.text = x.text := by
  by_cases hzero : x.isZero = true
  · have hfinite : x.isFinite = true := by
      rw [isZero, beq_iff_eq] at hzero
      rw [isFinite, hzero]
      rfl
    rw [shown, if_pos hzero, text, text, hfinite, hzero]
    rfl
  · rw [shown, if_neg hzero]

theorem Value.text_shown (v : Value) : v.shown.text = v.text := by
  cases v with
  | number x => exact x.text_shown
  | array items =>
      have hitems : (items.map Binary64.shown).map Binary64.text = items.map Binary64.text := by
        rw [List.map_map]
        exact List.map_congr_left fun x _ => x.text_shown
      rw [shown, text, hitems]
      rfl

/-! ## Denoting trees -/

variable {x : Binary64}

/-- Tokens that are an expression, at most two nodes high, for a number. -/
structure Denotes (ts : List Token) (e : Expr) (x : Binary64) : Prop where
  derives : ∀ (level : Nat) (rest : List Token), level + 1 ≤ maxNesting →
    Derives maxNesting .sum level (ts ++ rest) rest e
  hasType : e.HasType .standard .number
  height_le : e.height ≤ 2
  value_eq : e.value .standard = .ok (.number x)

/-- Tokens that are a list of expressions, at most two nodes high, for numbers. -/
structure DenotesItems (ts : List Token) (es : List Expr) (xs : List Binary64) : Prop where
  derives : ∀ (level : Nat) (rest : List Token), level + 1 ≤ maxNesting →
    DerivesItems maxNesting level (ts ++ rest) rest es
  hasType : ∀ e ∈ es, e.HasType .standard .number
  height_le : ∀ e ∈ es, e.height ≤ 2
  values_eq : Expr.values .standard es = .ok (xs.map .number)

theorem denotesItems_nil : DenotesItems [] [] [] := by
  constructor
  · intro level rest _
    exact .none
  · intro e he
    cases he
  · intro e he
    cases he
  · rw [Expr.values]
    rfl

theorem Denotes.singleton {ts : List Token} {e : Expr} (h : Denotes ts e x) :
    DenotesItems ts [e] [x] := by
  constructor
  · intro level rest hlevel
    exact .one (Nat.le_of_succ_le hlevel) (h.derives level rest hlevel)
  · exact List.forall_mem_singleton.mpr h.hasType
  · exact List.forall_mem_singleton.mpr h.height_le
  · rw [Expr.values, h.value_eq, Expr.values]
    rfl

theorem Denotes.cons {ts ts' : List Token} {e : Expr} {es : List Expr} {xs : List Binary64}
    (h : Denotes ts e x) (h' : DenotesItems ts' es xs) (hes : es ≠ [])
    (separator : Token) (hseparator : separator.kind = .comma) :
    DenotesItems (ts ++ separator :: ts') (e :: es) (x :: xs) := by
  constructor
  · intro level rest hlevel
    rw [List.append_assoc, List.cons_append]
    exact .cons separator hseparator (Nat.le_of_succ_le hlevel)
      (h.derives level (separator :: (ts' ++ rest)) hlevel) (h'.derives level rest hlevel) hes
  · exact List.forall_mem_cons.mpr ⟨h.hasType, h'.hasType⟩
  · exact List.forall_mem_cons.mpr ⟨h.height_le, h'.height_le⟩
  · rw [Expr.values, h.value_eq, h'.values_eq]
    rfl

/-- The text of the items of an array. -/
def itemsText (xs : List Binary64) : List Char :=
  (", ".intercalate (xs.map Binary64.text)).toList

theorem itemsText_cons_cons (x y : Binary64) (xs : List Binary64) :
    itemsText (x :: y :: xs) = x.text.toList ++ ',' :: ' ' :: itemsText (y :: xs) := by
  rw [itemsText, List.map_cons, List.map_cons, String.intercalate_cons_cons, String.toList_append,
    String.toList_append, List.append_assoc]
  rfl

/-- A tree that is read from a text and keeps within the limits of the compiler evaluates. -/
theorem evaluate_eq_of_derives {source : String} {ts : List Token} {e : Expr} {type : StaticType}
    {v : Value} (hread : ReadsAs 0 source.toList ts)
    (hderives : Derives maxNesting .sum 1 ts [] e) (htype : e.HasType .standard type)
    (hheight : e.height ≤ maxTreeDepth) (hvalue : e.value .standard = .ok v) :
    evaluate source = .ok v := by
  obtain ⟨p, hp⟩ :=
    Expr.exists_compileWith_eq_ok Functions.standard_consistent htype hheight
  have hrun := Expr.run_compileWith Functions.standard_consistent hp false
  rw [hvalue] at hrun
  have hparse : Expr.ofTokens ⟨ts, source.toList.length⟩ = .ok e :=
    Expr.ofTokens_eq_ok_iff_derives.mpr hderives
  rw [evaluate_eq hread.tokenize_eq hparse hp, Program.evaluate, hrun]
  rfl

/-! ## Numbers and items -/

variable [Library.Lawful]

theorem derives_numeral (level offset : Nat) (rest : List Token) (h : x.isFinite = true) :
    Derives maxNesting .primary level (⟨.number, String.ofList x.magnitudeText, offset⟩ :: rest)
      rest (.number offset x.abs) := by
  rw [← Binary64.ofNumeral_magnitudeText h]
  apply Derives.number ⟨.number, String.ofList x.magnitudeText, offset⟩ rfl
  rw [Binary64.ofNumeral_magnitudeText h]
  exact h

theorem denotes_numeral (offset : Nat) (h : x.isFinite = true) :
    Denotes [⟨.number, String.ofList x.magnitudeText, offset⟩] (.number offset x.abs) x.abs := by
  constructor
  · intro level rest _
    exact (derives_numeral level offset rest h).loosen (by decide)
  · exact .number
  · exact Nat.le_succ 1
  · rw [Expr.value]

theorem denotes_minus (offset : Nat) (h : x.isFinite = true) (hsign : x.negative = true) :
    Denotes [⟨.minus, String.ofList ['-'], offset⟩,
      ⟨.number, String.ofList x.magnitudeText, offset + 1⟩]
      (.unary offset .negation (.number (offset + 1 : Nat) x.abs)) x := by
  constructor
  · intro level rest hlevel
    have hnumeral := derives_numeral (level + 1) (offset + 1) rest h
    have hminus : Derives maxNesting .signed level _ rest _ :=
      .signed ⟨.minus, String.ofList ['-'], offset⟩ rfl hlevel (hnumeral.loosen (by decide))
    exact hminus.loosen (by decide)
  · exact .unary .number
  · exact Nat.le_refl 2
  · have hneg : x.abs.neg = x := Binary64.eq_of_code_eq hsign.symm rfl
    have hresult : UnaryOperation.neg.apply x.abs = .ok x := by
      change Operation.finiteResult x.abs.neg = .ok x
      rw [hneg, Operation.finiteResult_of_isFinite h]
    rw [Expr.value, Expr.value]
    change Outcome.value (UnaryOperation.neg.apply x.abs) = _
    rw [hresult]
    rfl

/-- The text of a finite number is read as an expression for the number. -/
theorem exists_denotes (offset : Nat) (h : x.isFinite = true) :
    ∃ ts e, ReadsAs offset x.text.toList ts ∧ Denotes ts e x.shown := by
  rw [Binary64.toList_text h]
  have hnumeral := Binary64.isNumeral_magnitudeText x
  cases hminus : x.negative && !x.isZero with
  | false =>
      have hshown : x.shown = x.abs := by
        cases hsign : x.negative with
        | false => exact Binary64.shown_of_positive hsign
        | true =>
            rw [hsign] at hminus
            exact Binary64.shown_of_isZero (by simpa using hminus)
      rw [hshown]
      exact ⟨_, _, readsAs_numeral offset hnumeral, denotes_numeral offset h⟩
  | true =>
      obtain ⟨hsign, hzero⟩ := Bool.and_eq_true_iff.mp hminus
      have hshown : x.shown = x := by
        rw [Binary64.shown, if_neg (by simpa using hzero)]
      rw [hshown]
      exact ⟨_, _, readsAs_minus (readsAs_numeral (offset + 1) hnumeral),
        denotes_minus offset h hsign⟩

theorem exists_denotesItems (offset : Nat) {y : Binary64} {xs : List Binary64}
    (h : ∀ x ∈ y :: xs, x.isFinite = true) :
    ∃ ts es, ReadsAs offset (itemsText (y :: xs)) ts ∧
      DenotesItems ts es ((y :: xs).map Binary64.shown) ∧ es ≠ [] := by
  induction xs generalizing offset y with
  | nil =>
      obtain ⟨ts, e, hread, hdenotes⟩ := exists_denotes offset (h y List.mem_cons_self)
      have htext : itemsText [y] = y.text.toList := by
        rw [itemsText, List.map_cons, List.map_nil, String.intercalate_singleton]
      rw [htext]
      exact ⟨ts, [e], hread, hdenotes.singleton, List.cons_ne_nil e []⟩
  | cons z xs ih =>
      obtain ⟨hy, hrest⟩ := List.forall_mem_cons.mp h
      obtain ⟨ts, e, hread, hdenotes⟩ := exists_denotes offset hy
      obtain ⟨ts', es, hreads, hitems, hes⟩ := ih (offset + y.text.toList.length + 2) hrest
      rw [itemsText_cons_cons]
      exact ⟨_, e :: es, hread.separate hreads, hdenotes.cons hitems hes _ rfl,
        List.cons_ne_nil e es⟩

/-! ## Values -/

theorem evaluate_number_text (h : x.isFinite = true) :
    evaluate x.text = .ok (.number x.shown) := by
  obtain ⟨ts, e, hread, hdenotes⟩ := exists_denotes 0 h
  have hderives := hdenotes.derives 1 [] (by decide)
  rw [List.append_nil] at hderives
  have hheight : e.height ≤ maxTreeDepth := hdenotes.height_le.trans (by decide)
  exact evaluate_eq_of_derives hread hderives hdenotes.hasType hheight hdenotes.value_eq

theorem evaluate_array_text {items : List Binary64} (h : ∀ x ∈ items, x.isFinite = true) :
    evaluate (Value.array items).text = .ok (.array (items.map Binary64.shown)) := by
  have hitems : ∃ ts es, ReadsAs 1 (itemsText items) ts ∧
      DenotesItems ts es (items.map Binary64.shown) := by
    cases items with
    | nil => exact ⟨[], [], fun rest _ => rfl, denotesItems_nil⟩
    | cons y xs =>
        obtain ⟨ts, es, hread, hdenotes, -⟩ := exists_denotesItems 1 h
        exact ⟨ts, es, hread, hdenotes⟩
  obtain ⟨ts, es, hread, hdenotes⟩ := hitems
  have htext : (Value.array items).text.toList = '[' :: itemsText items ++ [']'] := by
    rw [Value.text, String.toList_append, String.toList_append]
    rfl
  have hread := readsAs_array hread
  rw [← htext] at hread
  have hheight : (Expr.array 0 es).height ≤ maxTreeDepth := by
    have hitems := Expr.heights_le hdenotes.height_le
    rw [Expr.height, maxTreeDepth]
    omega
  have hvalue : (Expr.array 0 es).value .standard = .ok (.array (items.map Binary64.shown)) := by
    rw [Expr.value, hdenotes.values_eq]
    change Opcode.buildArray.result ((items.map Binary64.shown).map Value.number) = _
    rw [Opcode.result, numbers?_map_number]
  apply evaluate_eq_of_derives hread _ (.array hdenotes.hasType) hheight hvalue
  have hderives : Derives maxNesting .primary 1 _ [] (.array (0 : Nat) es) :=
    .array ⟨.leftBracket, String.ofList ['['], 0⟩
      ⟨.rightBracket, String.ofList [']'], 1 + (itemsText items).length⟩ rfl rfl
      (hdenotes.derives 2 _ (by decide))
  exact hderives.loosen (by decide)

/-- The text of a finite value evaluates to the value it denotes. -/
theorem evaluate_text {v : Value} (h : v.isFinite = true) : evaluate v.text = .ok v.shown := by
  cases v with
  | number x => exact evaluate_number_text h
  | array items => exact evaluate_array_text (List.all_eq_true.mp h)

end

/-- With a lawful library, the text of the value of a source text evaluates to an equal value with
the same text. -/
theorem evaluate_text_of_evaluate [Library] [Library.Lawful] {source : String} {v : Value}
    (h : evaluate source = .ok v) :
    ∃ w, evaluate v.text = .ok w ∧ w.equals v = true ∧ v.equals w = true ∧ w.text = v.text := by
  have hsafe := safe_evaluate source
  rw [h] at hsafe
  obtain ⟨hleft, hright⟩ := Value.equals_shown hsafe
  exact ⟨v.shown, evaluate_text hsafe, hleft, hright, v.text_shown⟩

/-- An array of a negative number, a negative zero and the least positive number. -/
theorem evaluate_text_of_evaluate_least :
    let v : Value := .array
      [.ofCode true 0x3FC0000000000000, .ofCode true 0, .ofCode false 1]
    evaluate "[1 / -8, -0, 2 ^ -1074]" = .ok v ∧
      ∃ w, evaluate v.text = .ok w ∧ w.equals v = true ∧ v.equals w = true ∧
        w.text = v.text := by
  intro v
  have h : evaluate "[1 / -8, -0, 2 ^ -1074]" = .ok v := by
    decide +kernel
  exact ⟨h, evaluate_text_of_evaluate h⟩

end StackCalc
