import StackCalc.Decimal.Notation

/-!
# Tokens

A token is a kind, the text it stands for and the offset of its first character in the source,
counted in characters.  The text of a token is its source slice, except that a Greek letter
which denotes a constant carries the constant's name.
-/

namespace StackCalc

/-- The kinds of tokens, with the end of the input for the place where the tokens stop. -/
inductive TokenKind where
  | plus | minus | star | slash | percent | caret | bang
  | leftParen | rightParen | leftBracket | rightBracket | comma
  | number | identifier | endOfInput
deriving DecidableEq

/-- The name under which a kind is reported. -/
def TokenKind.name : TokenKind → String
  | .plus => "PLUS"
  | .minus => "MINUS"
  | .star => "STAR"
  | .slash => "SLASH"
  | .percent => "PERCENT"
  | .caret => "CARET"
  | .bang => "BANG"
  | .leftParen => "LPAREN"
  | .rightParen => "RPAREN"
  | .leftBracket => "LBRACKET"
  | .rightBracket => "RBRACKET"
  | .comma => "COMMA"
  | .number => "NUMBER"
  | .identifier => "IDENT"
  | .endOfInput => "EOF"

structure Token where
  kind : TokenKind
  text : String
  offset : Nat
deriving DecidableEq

/-- A completely tokenized source: its tokens in order and the offset at which it ends. -/
structure Tokens where
  /-- The tokens without an end marker. -/
  tokens : List Token
  /-- The number of characters of the source. -/
  stop : Nat
deriving DecidableEq

/-- The token that marks the end of the input. -/
def Token.atEnd (stop : Nat) : Token := ⟨.endOfInput, "", stop⟩

/-- The tokens followed by their end marker. -/
def Tokens.withEnd (ts : Tokens) : List Token := ts.tokens ++ [Token.atEnd ts.stop]

/-- The decimal that an unsigned numeral denotes: digits, with a point at most once. -/
def Decimal.ofNumeral (numeral : List Char) : Decimal :=
  let whole := numeral.takeWhile (· != '.')
  let fraction := (numeral.dropWhile (· != '.')).drop 1
  ⟨Nat.ofDigitChars 10 (whole ++ fraction) 0, -(fraction.length : Int)⟩

def Binary64.ofNumeral (numeral : String) : Binary64 :=
  (Decimal.ofNumeral numeral.toList).toBinary64

end StackCalc
