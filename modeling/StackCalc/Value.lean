import StackCalc.Decimal.Notation

/-!
# Values

A value is a number or an array of numbers.  Its text is what the calculator shows, and reading
that text as an expression gives an equal value.
-/

namespace StackCalc

variable [Library]

/-- A number or an array of numbers. -/
inductive Value where
  | number (x : Binary64)
  | array (items : List Binary64)
deriving DecidableEq, Inhabited

namespace Value

def tag : Value → String
  | .number _ => "NUM"
  | .array _ => "ARR"

/-- The text of a value: an array shows its elements in brackets. -/
def text : Value → String
  | .number x => x.text
  | .array items => "[" ++ ", ".intercalate (items.map Binary64.text) ++ "]"

/-- Equality of values: numeric on numbers, element by element on arrays, and false for a number
and an array. -/
def equals : Value → Value → Bool
  | .number x, .number y => x.equals y
  | .array xs, .array ys =>
    xs.length == ys.length && (xs.zip ys).all fun pair => pair.1.equals pair.2
  | _, _ => false

def isFinite : Value → Bool
  | .number x => x.isFinite
  | .array items => items.all Binary64.isFinite

end Value

end StackCalc
