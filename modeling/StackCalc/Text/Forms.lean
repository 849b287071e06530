import StackCalc.Decimal.Notation
import StackCalc.Text.Characters

/-!
# Forms of texts

Texts and numbers in fields of a least width; a field that is too narrow grows, and nothing is cut.

Texts in quotes, as messages show an argument.  The quotes are single unless the text holds single
quotes and no double ones.  The quote, the backslash and what is not printable are escaped.

Texts in JSON: strings, in ASCII only, and objects with one member on each line.
-/

namespace StackCalc

/-! ## Fields -/

/-- A text at the left of its field. -/
def padRight (width : Nat) (text : String) : String :=
  text ++ String.ofList (List.replicate (width - text.length) ' ')

/-- A text at the right of its field. -/
def padLeft (width : Nat) (text : String) : String :=
  String.ofList (List.replicate (width - text.length) ' ') ++ text

/-- Digits at the right of a field of zeros. -/
def zeroFill (width : Nat) (digits : List Char) : List Char :=
  List.replicate (width - digits.length) '0' ++ digits

/-- The digits of a number in base sixteen, with capital letters. -/
def hexDigits (n : Nat) : List Char := (Nat.toDigits 16 n).map Char.toUpper

/-- An integer in a field of zeros, its sign in front and part of the width. -/
def zeroFillSigned (width : Nat) (digits : Nat → List Char) (n : Int) : String :=
  String.ofList <|
    if n < 0 then '-' :: zeroFill (width - 1) (digits n.natAbs)
    else zeroFill width (digits n.natAbs)

def hexByte (b : UInt8) : String := String.ofList (zeroFill 2 (hexDigits b.toNat))

/-- A text without the spaces at its end. -/
def trimRight (text : String) : String :=
  String.ofList ((text.toList.reverse.dropWhile (· == ' ')).reverse)

/-! ## Quoted texts -/

/-- A character between quotes. -/
def quotedChar (quote c : Char) : List Char :=
  if c = quote || c = '\\' then ['\\', c]
  else if c = '\n' then ['\\', 'n']
  else if c = '\r' then ['\\', 'r']
  else if c = '\t' then ['\\', 't']
  else if isPrintable c then [c]
  else
    let hex := Nat.toDigits 16 c.toNat
    if c.toNat < 0x100 then '\\' :: 'x' :: zeroFill 2 hex
    else if c.toNat < 0x10000 then '\\' :: 'u' :: zeroFill 4 hex
    else '\\' :: 'U' :: zeroFill 8 hex

def quoted (text : String) : String :=
  let quote := if text.contains '\'' && !text.contains '"' then '"' else '\''
  String.ofList (quote :: text.toList.flatMap (quotedChar quote) ++ [quote])

/-! ## JSON -/

/-- One UTF-16 unit as an escape. -/
def unitEscape (unit : Nat) : List Char :=
  '\\' :: 'u' :: zeroFill 4 (Nat.toDigits 16 unit)

/-- A character inside a JSON string: quote, backslash and control characters are escaped, and so
is everything beyond ASCII, in two units where one does not suffice. -/
def jsonChar (c : Char) : List Char :=
  if c = '"' then ['\\', '"']
  else if c = '\\' then ['\\', '\\']
  else if c = '\n' then ['\\', 'n']
  else if c = '\r' then ['\\', 'r']
  else if c = '\t' then ['\\', 't']
  else if c = '\x08' then ['\\', 'b']
  else if c = '\x0c' then ['\\', 'f']
  else if 0x20 ≤ c.toNat && c.toNat < 0x7f then [c]
  else if c.toNat < 0x10000 then unitEscape c.toNat
  else
    let rest := c.toNat - 0x10000
    unitEscape (0xD800 + rest / 0x400) ++ unitEscape (0xDC00 + rest % 0x400)

def jsonString (text : String) : String :=
  String.ofList ('"' :: text.toList.flatMap jsonChar ++ ['"'])

/-- An integer or null. -/
def jsonInt? (n : Option Int) : String := (n.map integerText).getD "null"

/-- The spaces before a line at a depth of nesting. -/
def jsonIndent (depth : Nat) : String := String.ofList (List.replicate (2 * depth) ' ')

/-- Lines between two brackets, with commas after all but the last. -/
def jsonBlock (opening closing : String) (depth : Nat) (lines : List String) : String :=
  if lines.isEmpty then opening ++ closing
  else
    opening ++ "\n" ++
      ",\n".intercalate (lines.map (jsonIndent (depth + 1) ++ ·)) ++ "\n" ++
      jsonIndent depth ++ closing

/-- A list of values that are JSON already, at a depth of nesting. -/
def jsonList (depth : Nat) (values : List String) : String := jsonBlock "[" "]" depth values

/-- An object whose values are JSON already, at a depth of nesting. -/
def jsonObject (depth : Nat) (members : List (String × String)) : String :=
  jsonBlock "\x7b" "\x7d" depth
    (members.map fun member => jsonString member.1 ++ ": " ++ member.2)

end StackCalc
