import StackCalc.Text.Characters
import StackCalc.Token

/-!
# Reading tokens

Blanks separate tokens and are otherwise skipped.  At every other character the longest lexeme
that starts there is taken: the two stars of a power, one symbol, a numeral, or a name.  A Greek
letter that denotes a constant is a lexeme of its own where a token starts, and a plain letter
inside a name.

Reading never fails by itself: it returns the tokens found, the offset where it stopped and the
characters that are left.  The reading is complete when nothing is left, and otherwise the first
character left is the one that starts no token.  Reading again from where a reading stopped is
therefore the same operation on what is left.
-/

namespace StackCalc

/-- A lexeme at the front of a text. -/
structure Lexeme where
  kind : TokenKind
  text : String
  /-- How many characters it has beyond its first. -/
  extra : Nat
deriving DecidableEq

/-- The kind of a token that is a single symbol; multiplication and division have a second,
typographic form. -/
def symbolKind? : Char → Option TokenKind
  | '+' => some .plus
  | '-' => some .minus
  | '*' => some .star
  | '/' => some .slash
  | '%' => some .percent
  | '^' => some .caret
  | '!' => some .bang
  | '(' => some .leftParen
  | ')' => some .rightParen
  | '[' => some .leftBracket
  | ']' => some .rightBracket
  | ',' => some .comma
  | '×' => some .star
  | '÷' => some .slash
  | _ => none

/-- The name of the constant for which a Greek letter stands. -/
def greekConstant? : Char → Option String
  | 'π' => some "pi"
  | 'τ' => some "tau"
  | 'φ' => some "phi"
  | _ => none

/-- Whether a character can continue a name. -/
def isNamePart (c : Char) : Bool := isLetter c || c.isDigit || c == '_'

def startsWithDigit (cs : List Char) : Bool := (cs.head?.map Char.isDigit).getD false

/-- The longest numeral prefix: digits, then a point only if a digit follows it. -/
def numeralPrefix (cs : List Char) : List Char :=
  let whole := cs.takeWhile Char.isDigit
  match cs.dropWhile Char.isDigit with
  | '.' :: rest =>
    if startsWithDigit rest then whole ++ '.' :: rest.takeWhile Char.isDigit else whole
  | _ => whole

/-- A lexeme whose token has the text of its characters. -/
def Lexeme.ofSlice (kind : TokenKind) (slice : List Char) : Lexeme :=
  ⟨kind, String.ofList slice, slice.length - 1⟩

/-- The longest lexeme at the front of `c :: cs`. -/
def Lexeme.first? (c : Char) (cs : List Char) : Option Lexeme :=
  if c == '*' && cs.head? == some '*' then some (.ofSlice .caret ['*', '*'])
  else if let some kind := symbolKind? c then some (.ofSlice kind [c])
  else if c.isDigit || (c == '.' && startsWithDigit cs) then
    some (.ofSlice .number (numeralPrefix (c :: cs)))
  else if let some name := greekConstant? c then some ⟨.identifier, name, 0⟩
  else if isLetter c then some (.ofSlice .identifier (c :: cs.takeWhile isNamePart))
  else none

structure Reading where
  tokens : List Token
  stop : Nat
  rest : List Char
deriving DecidableEq

/-- Reads tokens from a text that starts at `offset`, until its end or a character that starts
no token. -/
def Reading.ofText (offset : Nat) : List Char → Reading
  | [] => ⟨[], offset, []⟩
  | c :: cs =>
    if isBlank c then ofText (offset + 1) cs
    else
      match Lexeme.first? c cs with
      | none => ⟨[], offset, c :: cs⟩
      | some lexeme =>
        let reading := ofText (offset + 1 + lexeme.extra) (cs.drop lexeme.extra)
        { reading with tokens := ⟨lexeme.kind, lexeme.text, offset⟩ :: reading.tokens }
termination_by cs => cs.length
decreasing_by all_goals simp only [List.length_cons, List.length_drop]; omega

/-- A character that starts no token. -/
structure LexError where
  char : Char
  offset : Nat
deriving DecidableEq

def LexError.message (e : LexError) : String :=
  "Unexpected character '" ++ String.singleton e.char ++ "'"

/-- The outcome of a reading: all tokens, or the character that stopped it. -/
def Reading.result (r : Reading) : Except LexError Tokens :=
  match r.rest with
  | [] => .ok ⟨r.tokens, r.stop⟩
  | c :: _ => .error ⟨c, r.stop⟩

/-- Reads on from where a reading stopped. -/
def Reading.again (r : Reading) : Reading := Reading.ofText r.stop r.rest

/-- The tokens of a source text. -/
def tokenize (source : String) : Except LexError Tokens :=
  (Reading.ofText 0 source.toList).result

end StackCalc
