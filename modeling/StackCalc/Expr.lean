import StackCalc.Decimal.Notation

/-!
# Expressions

An expression is a literal, an array, an operator applied to its operands, or a function called
by name.  Each node knows the offset of the token it was built from.  A hole stands where a
node has a place but no meaning; no source text produces one.

The prefix text of an expression is its tree on one line: operators and names first, then their
operands, in parentheses; arrays keep their brackets.  It is written by calls that are nested as
deep as the tree is high.  Parsing bounds the nesting of brackets but not the length of a chain of
operators, so there is a tree that is too high to be written however deep calls may be nested.
-/

namespace StackCalc

inductive UnaryOperator where
  | negation | factorial
deriving DecidableEq

inductive BinaryOperator where
  | plus | minus | times | over | modulo | power
deriving DecidableEq

def UnaryOperator.sign : UnaryOperator → String
  | .negation => "-"
  | .factorial => "!"

def BinaryOperator.sign : BinaryOperator → String
  | .plus => "+"
  | .minus => "-"
  | .times => "*"
  | .over => "/"
  | .modulo => "%"
  | .power => "^"

inductive Expr where
  /-- A literal number or a named constant. -/
  | number (offset : Int) (value : Binary64)
  | array (offset : Int) (items : List Expr)
  | unary (offset : Int) (op : UnaryOperator) (operand : Expr)
  | binary (offset : Int) (op : BinaryOperator) (left right : Expr)
  /-- A function applied to arguments. -/
  | call (offset : Int) (name : String) (args : List Expr)
  /-- A node without a meaning. -/
  | hole (offset : Int)

namespace Expr

instance : Inhabited Expr := ⟨.hole 0⟩

/-- The offset of the token a node was built from. -/
def offset : Expr → Int
  | .number offset _ => offset
  | .array offset _ => offset
  | .unary offset _ _ => offset
  | .binary offset _ _ _ => offset
  | .call offset _ _ => offset
  | .hole offset => offset

mutual

/-- Whether an expression has no holes. -/
def isComplete : Expr → Bool
  | .number _ _ => true
  | .array _ items => areComplete items
  | .unary _ _ operand => operand.isComplete
  | .binary _ _ left right => left.isComplete && right.isComplete
  | .call _ _ args => areComplete args
  | .hole _ => false

/-- Whether no expression of a list has holes. -/
def areComplete : List Expr → Bool
  | [] => true
  | e :: es => e.isComplete && areComplete es

end

mutual

/-- The expression in prefix form; a hole shows as a question mark. -/
def prefixText : Expr → String
  | .number _ value => value.literalText
  | .array _ items => "[" ++ ", ".intercalate (prefixTexts items) ++ "]"
  | .unary _ op operand => "(" ++ op.sign ++ " " ++ operand.prefixText ++ ")"
  | .binary _ op left right =>
    "(" ++ op.sign ++ " " ++ left.prefixText ++ " " ++ right.prefixText ++ ")"
  | .call _ name args => "(" ++ " ".intercalate (name :: prefixTexts args) ++ ")"
  | .hole _ => "?"

def prefixTexts : List Expr → List String
  | [] => []
  | e :: es => e.prefixText :: prefixTexts es

end

/-- The prefix form of an expression without holes. -/
def prefixText? (e : Expr) : Option String :=
  if e.isComplete then some e.prefixText else none

mutual

/-- The prefix form of an expression if calls may only be nested `room` deep while it is written.
Each node takes a call, and so does going through the items of an array or through arguments. -/
def prefixTextWithin : (room : Nat) → Expr → Option String
  | 0, _ => none
  | _ + 1, .number _ value => some value.literalText
  | room + 1, .array _ items => do
    let texts ← prefixTextsWithin room items
    return "[" ++ ", ".intercalate texts ++ "]"
  | room + 1, .unary _ op operand => do
    let text ← prefixTextWithin room operand
    return "(" ++ op.sign ++ " " ++ text ++ ")"
  | room + 1, .binary _ op left right => do
    let first ← prefixTextWithin room left
    let second ← prefixTextWithin room right
    return "(" ++ op.sign ++ " " ++ first ++ " " ++ second ++ ")"
  | room + 1, .call _ name args => do
    let texts ← prefixTextsWithin room args
    return "(" ++ " ".intercalate (name :: texts) ++ ")"
  | _ + 1, .hole _ => some "?"

def prefixTextsWithin : (room : Nat) → List Expr → Option (List String)
  | 0, _ => none
  | _ + 1, [] => some []
  | room + 1, e :: es => do
    let text ← prefixTextWithin room e
    let texts ← prefixTextsWithin (room + 1) es
    return text :: texts

end

end Expr

end StackCalc
