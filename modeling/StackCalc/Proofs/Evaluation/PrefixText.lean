import Mathlib
import StackCalc.Proofs.Decimal.Floating
import StackCalc.Proofs.Evaluation.Safety
import StackCalc.Proofs.Parser.Names
import StackCalc.Proofs.Parser.Trees

/-!
# Prefix texts are unambiguous

The prefix text of an expression shows everything but the offsets of its nodes.  A reader of the
text would look at the character in front: an opening bracket starts an array, an opening
parenthesis a node with operands, and any other character a literal.  After the parenthesis comes
a word that tells the operators and the functions apart, and the number of operands tells a sign
with one operand from the same sign with two.

The proof does not need the reader.  It compares two texts with some characters after each of them,
so that it can go through the operands one after the other.
-/

namespace StackCalc

/-! ## Words -/

/-- The characters that stand between the words of a prefix text. -/
def delimiters : List Char := [' ', '(', ')', '[', ']', ',']

def IsWord (cs : List Char) : Prop := ∀ c ∈ cs, c ∉ delimiters

/-- What can stand after a word. -/
def EndsWord (rest : List Char) : Prop := ∀ c ∈ rest.head?, c ∈ delimiters

variable {w w' r s : List Char}

theorem takeWhile_word (hw : IsWord w) (hr : EndsWord r) :
    (w ++ r).takeWhile (· ∉ delimiters) = w := by
  have hrest : r.takeWhile (· ∉ delimiters) = [] := by
    cases r with
    | nil => rfl
    | cons c r =>
        apply List.takeWhile_cons_of_neg
        simpa using hr c rfl
  have hword : ∀ c ∈ w, decide (c ∉ delimiters) = true := fun c hc => decide_eq_true (hw c hc)
  rw [List.takeWhile_append_of_pos hword, hrest, List.append_nil]

/-- A word ends where the next delimiter stands. -/
theorem IsWord.append_inj (hw : IsWord w) (hw' : IsWord w') (hr : EndsWord r) (hs : EndsWord s)
    (h : w ++ r = w' ++ s) : w = w' ∧ r = s := by
  have hwords : w = w' := by
    rw [← takeWhile_word hw hr, h, takeWhile_word hw' hs]
  subst hwords
  exact ⟨rfl, List.append_cancel_left h⟩

theorem isNamePart_of_mem_delimiters {c : Char} (h : c ∈ delimiters) : isNamePart c = false := by
  have hall : (delimiters.all fun c => !isNamePart c) = true := by
    decide +kernel
  simpa using List.all_eq_true.mp hall c h

theorem IsName.isWord {name : String} (h : IsName name) : IsWord name.toList := by
  obtain ⟨c, cs, hname, hc, hcs⟩ := h
  rw [hname]
  intro d hd hdelimiter
  have hpart : isNamePart d = true := by
    rcases List.mem_cons.mp hd with rfl | htail
    · rw [isNamePart, hc, Bool.true_or, Bool.true_or]
    · exact hcs d htail
  rw [isNamePart_of_mem_delimiters hdelimiter] at hpart
  cases hpart

theorem isWord_literalText {x : Binary64} (h : x.isFinite = true) :
    IsWord x.literalText.toList := by
  have hall : (delimiters.all fun c => !c.isDigit && c ∉ ['.', 'e', '+', '-']) = true := by
    decide
  intro c hc hdelimiter
  have hapart := List.all_eq_true.mp hall c hdelimiter
  have hnumeral : c.isDigit = true ∨ c ∈ ['.', 'e', '+', '-'] := by
    rw [Binary64.toList_literalText h, List.mem_append] at hc
    rcases hc with hsign | hfloating
    · rw [Binary64.signText] at hsign
      split at hsign
      · exact Or.inr (by rw [List.mem_singleton.mp hsign]; decide)
      · cases hsign
    · exact Decimal.mem_floating hfloating
  simp_all

theorem literalText_ne_nil {x : Binary64} (h : x.isFinite = true) : x.literalText.toList ≠ [] := by
  obtain ⟨c, cs, hcons, -⟩ := x.shortestDecimal.exists_floating_eq_cons
  rw [Binary64.toList_literalText h, hcons]
  exact List.append_ne_nil_of_right_ne_nil _ (List.cons_ne_nil c cs)

/-- One character that starts no name. -/
def IsSign (cs : List Char) : Prop := ∃ c, cs = [c] ∧ c ∉ delimiters ∧ isLetter c = false

theorem IsSign.isWord {cs : List Char} (h : IsSign cs) : IsWord cs := by
  obtain ⟨c, rfl, hc, -⟩ := h
  intro d hd
  rwa [List.mem_singleton.mp hd]

theorem IsSign.ne_name {cs : List Char} {name : String} (h : IsSign cs) (hname : IsName name) :
    cs ≠ name.toList := by
  obtain ⟨c, rfl, -, hc⟩ := h
  obtain ⟨d, ds, heq, hd, -⟩ := hname
  rw [heq]
  rintro ⟨⟩
  rw [hc] at hd
  cases hd

theorem UnaryOperator.isSign (op : UnaryOperator) : IsSign op.sign.toList := by
  cases op <;> exact ⟨_, rfl, by decide, (isLetter_of_symbolKind? rfl).1⟩

theorem BinaryOperator.isSign (op : BinaryOperator) : IsSign op.sign.toList := by
  cases op <;> exact ⟨_, rfl, by decide, (isLetter_of_symbolKind? rfl).1⟩

theorem UnaryOperator.sign_injective {op op' : UnaryOperator}
    (h : op.sign.toList = op'.sign.toList) : op = op' := by
  revert h
  cases op <;> cases op' <;> decide

theorem BinaryOperator.sign_injective {op op' : BinaryOperator}
    (h : op.sign.toList = op'.sign.toList) : op = op' := by
  revert h
  cases op <;> cases op' <;> decide

/-! ## Separated lists -/

theorem toList_intercalate_cons (separator text : String) (texts : List String) :
    (separator.intercalate (text :: texts)).toList =
      text.toList ++ texts.flatMap fun t => separator.toList ++ t.toList := by
  induction texts generalizing text with
  | nil => simp
  | cons next texts ih =>
      rw [String.intercalate_cons_cons, String.toList_append, String.toList_append, ih,
        List.flatMap_cons, List.append_assoc, List.append_assoc]

namespace Expr

/-! ## Offsets -/

mutual

/-- The expression with all offsets zero. -/
def withoutOffsets : Expr → Expr
  | .number _ value => .number 0 value
  | .array _ items => .array 0 (allWithoutOffsets items)
  | .unary _ op operand => .unary 0 op operand.withoutOffsets
  | .binary _ op left right => .binary 0 op left.withoutOffsets right.withoutOffsets
  | .call _ name args => .call 0 name (allWithoutOffsets args)
  | .hole _ => .hole 0

def allWithoutOffsets : List Expr → List Expr
  | [] => []
  | e :: es => e.withoutOffsets :: allWithoutOffsets es

end

theorem allWithoutOffsets_eq (es : List Expr) :
    allWithoutOffsets es = es.map withoutOffsets := by
  induction es with
  | nil => rfl
  | cons e es ih => rw [allWithoutOffsets, ih, List.map_cons]

theorem prefixTexts_eq (es : List Expr) : prefixTexts es = es.map prefixText := by
  induction es with
  | nil => rfl
  | cons e es ih => rw [prefixTexts, ih, List.map_cons]

theorem prefixText_withoutOffsets (e : Expr) : e.withoutOffsets.prefixText = e.prefixText := by
  induction e using operandInduction with
  | node e ih =>
      have hoperands : (e.operands.map withoutOffsets).map prefixText =
          e.operands.map prefixText := by
        rw [List.map_map]
        exact List.map_congr_left ih
      cases e with
      | number offset value | hole offset => rfl
      | array offset items =>
          rw [withoutOffsets, prefixText, prefixText, allWithoutOffsets_eq, prefixTexts_eq,
            prefixTexts_eq]
          exact congrArg (fun texts => "[" ++ ", ".intercalate texts ++ "]") hoperands
      | unary offset op operand =>
          rw [withoutOffsets, prefixText, prefixText, ih operand (by simp [operands])]
      | binary offset op left right =>
          rw [withoutOffsets, prefixText, prefixText, ih left (by simp [operands]),
            ih right (by simp [operands])]
      | call offset name args =>
          rw [withoutOffsets, prefixText, prefixText, allWithoutOffsets_eq, prefixTexts_eq,
            prefixTexts_eq]
          exact congrArg (fun texts => "(" ++ " ".intercalate (name :: texts) ++ ")") hoperands

/-! ## Forms of texts -/

/-- The characters of the prefix text. -/
def chars (e : Expr) : List Char := e.prefixText.toList

/-- The word after the parenthesis. -/
def head? : Expr → Option (List Char)
  | .unary _ op _ => some op.sign.toList
  | .binary _ op _ _ => some op.sign.toList
  | .call _ name _ => some name.toList
  | _ => none

/-- Operands as they stand in a prefix text, with a separator before each. -/
def separated (separator : List Char) (es : List Expr) : List Char :=
  es.flatMap fun e => separator ++ e.chars

theorem separated_cons (d : Char) (more : List Char) (e : Expr) (es : List Expr) (r : List Char) :
    separated (d :: more) (e :: es) ++ r =
      d :: (more ++ (e.chars ++ (separated (d :: more) es ++ r))) := by
  simp [separated]

theorem chars_array_nil (offset : Int) (r : List Char) :
    chars (.array offset []) ++ r = '[' :: ']' :: r := by
  simp [chars, prefixText, prefixTexts]

theorem chars_array_cons (offset : Int) (e : Expr) (es : List Expr) (r : List Char) :
    chars (.array offset (e :: es)) ++ r =
      '[' :: (e.chars ++ (separated [',', ' '] es ++ ']' :: r)) := by
  rw [chars, prefixText, prefixTexts_eq, List.map_cons, String.toList_append, String.toList_append,
    toList_intercalate_cons, List.flatMap_map]
  simp [chars, separated]

theorem chars_eq_of_head? {e : Expr} {head : List Char} (h : e.head? = some head) (r : List Char) :
    e.chars ++ r = '(' :: (head ++ (separated [' '] e.operands ++ ')' :: r)) := by
  cases e with
  | unary offset op operand =>
      cases h
      simp [chars, prefixText, separated, operands]
  | binary offset op left right =>
      cases h
      simp [chars, prefixText, separated, operands]
  | call offset name args =>
      cases h
      rw [chars, prefixText, prefixTexts_eq, String.toList_append, String.toList_append,
        toList_intercalate_cons, List.flatMap_map]
      simp [chars, separated, operands]
  | _ => cases h

/-- A node that the prefix text can show. -/
def Legible : Expr → Prop
  | .number _ value => value.isFinite = true
  | .call _ name _ => IsName name
  | .hole _ => False
  | _ => True

theorem isWord_of_head? {e : Expr} {head : List Char} (he : e.Legible) (h : e.head? = some head) :
    IsWord head := by
  cases e with
  | unary offset op operand =>
      cases h
      exact op.isSign.isWord
  | binary offset op left right =>
      cases h
      exact op.isSign.isWord
  | call offset name args =>
      cases h
      exact IsName.isWord he
  | _ => cases h

/-- The bracket in front of the text of a node, unless it is a literal. -/
def lead? : Expr → Option Char
  | .number _ _ => none
  | .array _ _ => some '['
  | _ => some '('

/-- How the text of a node looks from its front. -/
inductive Form (e : Expr) : Prop where
  | literal {offset : Int} {value : Binary64} :
      e = .number offset value → value.isFinite = true → Form e
  | array {offset : Int} {items : List Expr} :
      e = .array offset items → Form e
  | node {head : List Char} :
      e.head? = some head → IsWord head → e.lead? = some '(' → Form e

theorem Legible.form {e : Expr} (h : e.Legible) : e.Form := by
  cases e with
  | number offset value => exact .literal rfl h
  | array offset items => exact .array rfl
  | unary offset op operand => exact .node rfl (isWord_of_head? h rfl) rfl
  | binary offset op left right => exact .node rfl (isWord_of_head? h rfl) rfl
  | call offset name args => exact .node rfl (isWord_of_head? h rfl) rfl
  | hole offset => exact h.elim

/-- The character in front of a text, if it is a delimiter, is the bracket of the node. -/
theorem Legible.exists_chars_eq {e : Expr} (h : e.Legible) (r : List Char) :
    ∃ c cs, e.chars ++ r = c :: cs ∧ e.lead? = if c ∈ delimiters then some c else none := by
  rcases h.form with ⟨rfl, hfinite⟩ | ⟨rfl⟩ | ⟨hhead, -, hlead⟩
  · obtain ⟨c, cs, hcons⟩ := List.exists_cons_of_ne_nil (literalText_ne_nil hfinite)
    have hword := isWord_literalText hfinite
    rw [hcons] at hword
    exact ⟨c, cs ++ r, congrArg (· ++ r) hcons, (if_neg (hword c List.mem_cons_self)).symm⟩
  · rename_i offset items
    cases items with
    | nil => exact ⟨'[', _, chars_array_nil offset r, rfl⟩
    | cons e es => exact ⟨'[', _, chars_array_cons offset e es r, rfl⟩
  · exact ⟨'(', _, chars_eq_of_head? hhead r, hlead⟩

theorem Legible.chars_ne {e : Expr} (h : e.Legible) (r s : List Char) :
    e.chars ++ r ≠ ']' :: s := by
  obtain ⟨c, cs, hcs, hlead⟩ := h.exists_chars_eq r
  rw [hcs]
  rintro ⟨⟩
  cases e <;> cases hlead

/-! ## Reading on -/

/-- The text of an expression shows where it ends and what the expression is. -/
def Unambiguous (e : Expr) : Prop :=
  ∀ f : Expr, (∀ node ∈ f.postorder, node.Legible) → ∀ r s, EndsWord r → EndsWord s →
    e.chars ++ r = f.chars ++ s → e.withoutOffsets = f.withoutOffsets ∧ r = s

/-- One delimiter stands between operands and another one after them. -/
structure Separates (d close : Char) : Prop where
  between : d ∈ delimiters
  after : close ∈ delimiters
  ne : d ≠ close

theorem separates_items : Separates ',' ']' := ⟨by decide, by decide, by decide⟩

theorem separates_operands : Separates ' ' ')' := ⟨by decide, by decide, by decide⟩

theorem Separates.endsWord {d close : Char} (h : Separates d close) (more : List Char)
    (es : List Expr) (r : List Char) : EndsWord (separated (d :: more) es ++ close :: r) := by
  cases es with
  | nil =>
      rintro c ⟨⟩
      exact h.after
  | cons e es =>
      rintro c ⟨⟩
      exact h.between

/-- Operands show where each of them ends and where they end. -/
theorem Separates.operands_inj
    {d close : Char} (hsep : Separates d close) (more : List Char) {es fs : List Expr}
    (hes : ∀ e ∈ es, e.Unambiguous) (hfs : ∀ node ∈ postorders fs, node.Legible) {r s : List Char}
    (h : separated (d :: more) es ++ close :: r = separated (d :: more) fs ++ close :: s) :
    es.map withoutOffsets = fs.map withoutOffsets ∧ r = s := by
  induction es generalizing fs with
  | nil =>
      cases fs with
      | nil => exact ⟨rfl, (List.cons.inj h).2⟩
      | cons f fs => exact absurd (List.cons.inj h).1.symm hsep.ne
  | cons e es ih =>
      cases fs with
      | nil => exact absurd (List.cons.inj h).1 hsep.ne
      | cons f fs =>
          rw [postorders_cons, List.forall_mem_append] at hfs
          rw [separated_cons, separated_cons] at h
          have hcancel := List.append_cancel_left (List.cons.inj h).2
          obtain ⟨hfirst, hrest⟩ := hes e List.mem_cons_self f hfs.1 _ _
            (hsep.endsWord more es r) (hsep.endsWord more fs s) hcancel
          obtain ⟨hothers, hend⟩ := ih (fun a ha => hes a (List.mem_cons_of_mem e ha)) hfs.2 hrest
          exact ⟨by rw [List.map_cons, List.map_cons, hfirst, hothers], hend⟩

theorem withoutOffsets_eq_of_head? {e f : Expr} {head : List Char} (he : e.Legible) (hf : f.Legible)
    (hhead : e.head? = some head) (hhead' : f.head? = some head)
    (h : e.operands.map withoutOffsets = f.operands.map withoutOffsets) :
    e.withoutOffsets = f.withoutOffsets := by
  -- This tells a sign with one operand from the same sign with two.
  have hlength := congrArg List.length h
  cases e with
  | number | array | hole => cases hhead
  | unary offset op operand =>
      cases hhead
      cases f with
      | number | array | hole => cases hhead'
      | unary offset' op' operand' =>
          have hop := UnaryOperator.sign_injective (Option.some.inj hhead')
          have hoperand := (List.cons.inj h).1
          rw [withoutOffsets, withoutOffsets, hop, hoperand]
      | binary => cases hlength
      | call offset' name args => exact absurd (Option.some.inj hhead').symm (op.isSign.ne_name hf)
  | binary offset op left right =>
      cases hhead
      cases f with
      | number | array | hole => cases hhead'
      | unary => cases hlength
      | binary offset' op' left' right' =>
          have hop := BinaryOperator.sign_injective (Option.some.inj hhead')
          obtain ⟨hleft, hrest⟩ := List.cons.inj h
          have hright := (List.cons.inj hrest).1
          rw [withoutOffsets, withoutOffsets, hop, hleft, hright]
      | call offset' name args => exact absurd (Option.some.inj hhead').symm (op.isSign.ne_name hf)
  | call offset name args =>
      cases hhead
      cases f with
      | number | array | hole => cases hhead'
      | unary offset' op operand => exact absurd (Option.some.inj hhead') (op.isSign.ne_name he)
      | binary offset' op left right => exact absurd (Option.some.inj hhead') (op.isSign.ne_name he)
      | call offset' name' args' =>
          have hname := String.ext (Option.some.inj hhead')
          rw [withoutOffsets, withoutOffsets, allWithoutOffsets_eq, allWithoutOffsets_eq, hname]
          exact congrArg (call 0 name) h

theorem legible_of_operands {e : Expr} (h : ∀ node ∈ e.postorder, node.Legible) :
    ∀ node ∈ postorders e.operands, node.Legible := by
  rw [postorder_eq, List.forall_mem_append] at h
  exact h.1

theorem array_inj {offset offset' : Int} {es fs : List Expr} (hes : ∀ e ∈ es, e.Unambiguous)
    (hlegible : ∀ node ∈ postorders es, node.Legible)
    (hlegible' : ∀ node ∈ postorders fs, node.Legible) {r s : List Char}
    (h : chars (.array offset es) ++ r = chars (.array offset' fs) ++ s) :
    es.map withoutOffsets = fs.map withoutOffsets ∧ r = s := by
  have hfirst {a : Expr} {as : List Expr} (h : ∀ node ∈ postorders (a :: as), node.Legible) :
      a.Legible := by
    rw [postorders_cons, List.forall_mem_append] at h
    exact h.1 a (mem_postorder_self a)
  cases es with
  | nil =>
      rw [chars_array_nil] at h
      cases fs with
      | nil =>
          rw [chars_array_nil] at h
          exact ⟨rfl, (List.cons.inj (List.cons.inj h).2).2⟩
      | cons f fs =>
          rw [chars_array_cons] at h
          exact absurd (List.cons.inj h).2.symm ((hfirst hlegible').chars_ne _ _)
  | cons e es =>
      rw [chars_array_cons] at h
      cases fs with
      | nil =>
          rw [chars_array_nil] at h
          exact absurd (List.cons.inj h).2 ((hfirst hlegible).chars_ne _ _)
      | cons f fs =>
          rw [chars_array_cons] at h
          rw [postorders_cons, List.forall_mem_append] at hlegible'
          obtain ⟨hhead, hrest⟩ := hes e List.mem_cons_self f hlegible'.1 _ _
            (separates_items.endsWord [' '] es r) (separates_items.endsWord [' '] fs s)
            (List.cons.inj h).2
          obtain ⟨htail, hend⟩ := separates_items.operands_inj [' ']
            (fun a ha => hes a (List.mem_cons_of_mem e ha)) hlegible'.2 hrest
          exact ⟨by rw [List.map_cons, List.map_cons, hhead, htail], hend⟩

/-- Legible expressions are unambiguous. -/
theorem unambiguous {e : Expr} (he : ∀ node ∈ e.postorder, node.Legible) : e.Unambiguous := by
  induction e using operandInduction with
  | node e ih =>
      have hoperands : ∀ a ∈ e.operands, a.Unambiguous := fun a ha =>
        ih a ha fun node hnode => he node (mem_postorder_of_operand ha hnode)
      intro f hf r s hr hs h
      have hlegible := he e (mem_postorder_self e)
      have hlegible' := hf f (mem_postorder_self f)
      -- The first characters agree, so no two cases of different forms go together.
      have hlead : e.lead? = f.lead? := by
        obtain ⟨c, cs, hcons, hlead⟩ := hlegible.exists_chars_eq r
        obtain ⟨c', cs', hcons', hlead'⟩ := hlegible'.exists_chars_eq s
        rw [hcons, hcons'] at h
        rw [hlead, hlead', (List.cons.inj h).1]
      rcases hlegible.form with ⟨rfl, hfinite⟩ | ⟨rfl⟩ | ⟨hhead, hword, hopens⟩
      · rcases hlegible'.form with ⟨rfl, hfinite'⟩ | ⟨rfl⟩ | ⟨-, -, hopens'⟩
        · obtain ⟨htext, hend⟩ := (isWord_literalText hfinite).append_inj
            (isWord_literalText hfinite') hr hs h
          have hvalue := Binary64.eq_of_literalText_eq hfinite hfinite' (String.ext htext)
          exact ⟨by rw [withoutOffsets, withoutOffsets, hvalue], hend⟩
        · cases hlead
        · rw [hopens'] at hlead
          cases hlead
      · rcases hlegible'.form with ⟨rfl, -⟩ | ⟨rfl⟩ | ⟨-, -, hopens'⟩
        · cases hlead
        · obtain ⟨hitems, hend⟩ := array_inj hoperands (legible_of_operands he)
            (legible_of_operands hf) h
          rw [withoutOffsets, withoutOffsets, allWithoutOffsets_eq, allWithoutOffsets_eq]
          exact ⟨congrArg (array 0) hitems, hend⟩
        · rw [hopens'] at hlead
          cases hlead
      · rcases hlegible'.form with ⟨rfl, -⟩ | ⟨rfl⟩ | ⟨hhead', hword', -⟩
        · rw [hopens] at hlead
          cases hlead
        · rw [hopens] at hlead
          cases hlead
        · rw [chars_eq_of_head? hhead, chars_eq_of_head? hhead'] at h
          obtain ⟨rfl, hrest⟩ := hword.append_inj hword'
            (separates_operands.endsWord [] e.operands r)
            (separates_operands.endsWord [] f.operands s) (List.cons.inj h).2
          obtain ⟨hsame, hend⟩ := separates_operands.operands_inj [] hoperands
            (legible_of_operands hf) hrest
          exact ⟨withoutOffsets_eq_of_head? hlegible hlegible' hhead hhead' hsame, hend⟩

/-- Legible expressions with the same text are the same up to offsets. -/
theorem prefixText_eq_iff {e f : Expr} (he : ∀ node ∈ e.postorder, node.Legible)
    (hf : ∀ node ∈ f.postorder, node.Legible) :
    e.prefixText = f.prefixText ↔ e.withoutOffsets = f.withoutOffsets := by
  constructor
  · intro h
    have hnil : EndsWord [] := by
      rintro c ⟨⟩
    have hchars : e.chars ++ [] = f.chars ++ [] := by
      rw [chars, chars, h]
    exact (unambiguous he f hf [] [] hnil hnil hchars).1
  · intro h
    rw [← prefixText_withoutOffsets e, h, prefixText_withoutOffsets]

end Expr

/-! ## Source texts -/

theorem legible_of_parseSource {source : String} {e : Expr} (h : parseSource source = .ok e) :
    ∀ node ∈ e.postorder, node.Legible := by
  obtain ⟨ts, htokens, hread⟩ := exists_tokens_of_parseSource h
  intro node hnode
  have hbuilt := Expr.wellBuilt_of_ofTokens hread node hnode
  have hname := Expr.hasName_of_ofTokens htokens hread node hnode
  cases node with
  | number offset value => exact hbuilt
  | call offset name args => exact hname
  | hole offset => exact hbuilt
  | _ => trivial

theorem prefixText?_eq_some {e : Expr} (h : ∀ node ∈ e.postorder, node.Legible) :
    e.prefixText? = some e.prefixText := by
  have hcomplete : e.isComplete = true := by
    apply e.isComplete_of_wellBuilt
    intro node hnode
    have hlegible := h node hnode
    cases node <;> first | exact hlegible | trivial
  rw [Expr.prefixText?, if_pos hcomplete]

/-- Trees that are read from source texts have prefix texts, and these are the same exactly if the
trees are, up to the offsets of their nodes. -/
theorem prefixText_eq_iff_of_parseSource {source source' : String} {e f : Expr}
    (h : parseSource source = .ok e) (h' : parseSource source' = .ok f) :
    e.prefixText?.isSome = true ∧ f.prefixText?.isSome = true ∧
      (e.prefixText? = f.prefixText? ↔ e.withoutOffsets = f.withoutOffsets) := by
  have he := legible_of_parseSource h
  have hf := legible_of_parseSource h'
  rw [prefixText?_eq_some he, prefixText?_eq_some hf, Option.some.injEq]
  exact ⟨rfl, rfl, Expr.prefixText_eq_iff he hf⟩

/-- A sign with two operands and the same sign with one, at other places of two texts. -/
theorem prefixText_eq_iff_of_parseSource_minus :
    let e : Expr := .binary 3 .minus (.call 0 "f" []) (.unary 4 .negation (.call 5 "g" []))
    let f : Expr := .binary 5 .minus (.call 1 "f" []) (.unary 7 .negation (.call 8 "g" []))
    parseSource "f()--g()" = .ok e ∧ parseSource "(f())- -g()" = .ok f ∧
      e.prefixText? = f.prefixText? ∧ e.withoutOffsets = f.withoutOffsets := by
  intro e f
  have htokens : tokenize "f()--g()" = .ok ⟨[⟨.identifier, "f", 0⟩, ⟨.leftParen, "(", 1⟩,
      ⟨.rightParen, ")", 2⟩, ⟨.minus, "-", 3⟩, ⟨.minus, "-", 4⟩, ⟨.identifier, "g", 5⟩,
      ⟨.leftParen, "(", 6⟩, ⟨.rightParen, ")", 7⟩], 8⟩ := by
    decide +kernel
  have htokens' : tokenize "(f())- -g()" = .ok ⟨[⟨.leftParen, "(", 0⟩, ⟨.identifier, "f", 1⟩,
      ⟨.leftParen, "(", 2⟩, ⟨.rightParen, ")", 3⟩, ⟨.rightParen, ")", 4⟩, ⟨.minus, "-", 5⟩,
      ⟨.minus, "-", 7⟩, ⟨.identifier, "g", 8⟩, ⟨.leftParen, "(", 9⟩, ⟨.rightParen, ")", 10⟩],
      11⟩ := by
    decide +kernel
  have h : parseSource "f()--g()" = .ok e := by
    rw [parseSource_eq htokens]
    rfl
  have h' : parseSource "(f())- -g()" = .ok f := by
    rw [parseSource_eq htokens']
    rfl
  obtain ⟨-, -, htexts⟩ := prefixText_eq_iff_of_parseSource h h'
  exact ⟨h, h', htexts.mpr rfl, rfl⟩

end StackCalc
