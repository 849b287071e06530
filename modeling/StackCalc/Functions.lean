import StackCalc.Opcode

/-!
# Functions

A function has a name, an opcode for each number of arguments it accepts, and possibly further
names.  A reducer takes one array; any other function takes numbers.  Names are looked up without
regard to the case of their letters, and a later registration of a name replaces an earlier one.
-/

namespace StackCalc

structure NamedFunction where
  name : String
  /-- The opcode for each accepted number of arguments. -/
  opcodes : List (Nat × Opcode)
  reducer : Bool := false
deriving DecidableEq

/-- The accepted numbers of arguments in ascending order. -/
def NamedFunction.arities (f : NamedFunction) : List Nat := (f.opcodes.map Prod.fst).mergeSort

def NamedFunction.opcode? (f : NamedFunction) (supplied : Nat) : Option Opcode :=
  f.opcodes.lookup supplied

/-- Functions under all their names, which are in lower case. -/
structure Functions where
  /-- A name and its function; the first entry of a name counts. -/
  entries : List (String × NamedFunction) := []

namespace Functions

/-- The function of a name, whatever the case of its letters. -/
def find? (functions : Functions) (name : String) : Option NamedFunction :=
  functions.entries.lookup name.toLower

/-- Enters a function under its name and its further names. -/
def register (functions : Functions) (f : NamedFunction) (aliases : List String) : Functions :=
  let names := (f.name :: aliases).map String.toLower
  ⟨names.map (·, f) ++ functions.entries.filter fun entry => !names.contains entry.1⟩

/-- All names in alphabetical order. -/
def names (functions : Functions) : List String :=
  (functions.entries.map Prod.fst).mergeSort fun a b => !decide (b < a)

def unary (functions : Functions) (name : String) (op : UnaryOperation)
    (aliases : List String := []) : Functions :=
  functions.register ⟨name, [(1, .unary op)], false⟩ aliases

def binary (functions : Functions) (name : String) (op : BinaryOperation)
    (aliases : List String := []) : Functions :=
  functions.register ⟨name, [(2, .binary op)], false⟩ aliases

def reduce (functions : Functions) (name : String) (op : Reducer)
    (aliases : List String := []) : Functions :=
  functions.register ⟨name, [(1, .reduce op)], true⟩ aliases

def standard : Functions :=
  (⟨[]⟩ : Functions)
  |>.unary "sin" .sin
  |>.unary "cos" .cos
  |>.unary "tan" .tan
  |>.unary "asin" .asin ["arcsin"]
  |>.unary "acos" .acos ["arccos"]
  |>.unary "atan" .atan ["arctan"]
  |>.unary "sinh" .sinh
  |>.unary "cosh" .cosh
  |>.unary "tanh" .tanh
  |>.unary "sqrt" .sqrt
  |>.unary "cbrt" .cbrt
  |>.unary "exp" .exp
  |>.unary "abs" .abs
  |>.unary "floor" .floor
  |>.unary "ceil" .ceil
  |>.unary "round" .round
  |>.unary "sign" .sign ["sgn"]
  |>.unary "log2" .log2
  |>.unary "ln" .ln
  |>.unary "rad" .toRad ["torad"]
  |>.unary "deg" .toDeg ["todeg"]
  |>.register ⟨"log", [(1, .unary .log), (2, .binary .logBase)], false⟩ ["log10"]
  |>.binary "gcd" .gcd
  |>.binary "lcm" .lcm
  |>.binary "nPr" .nPr ["perm"]
  |>.binary "nCr" .nCr ["comb", "choose"]
  |>.reduce "sum" .sum
  |>.reduce "avg" .avg ["mean", "average"]
  |>.reduce "min" .min
  |>.reduce "max" .max
  |>.reduce "len" .len ["length", "count"]

end Functions

end StackCalc
