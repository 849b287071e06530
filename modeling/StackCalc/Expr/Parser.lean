import StackCalc.Expr
import StackCalc.Token

/-!
# Reading expressions

The reader takes one token at a time.  Its state is a stack of open constructs, the frames, and
a phase that says what it waits for.  A token either moves the state on or is refused, and the
tokens before a refused one never matter again except through the state; so a refusal is always
at the first token that cannot be accepted.

From loosest to tightest, the operators are `+ -`, then `* / %`, then the right-associative
power, then prefix minus and last the postfix factorial.  When an operand is followed by a
weaker operator, the open operators of at least its strength are completed first.

Groups, arrays, calls, prefix minuses and right operands of powers nest, and no token may stand
deeper than `maxNesting` levels, the expression itself counting as one.
-/

namespace StackCalc

def maxNesting : Nat := 64

inductive ParseFault where
  /-- Only the listed kinds, ordered by name, could stand here. -/
  | unexpected (expected : List TokenKind)
  | tooDeep
  /-- The numeral is nearest to infinity. -/
  | outOfRange
  /-- The name before the token is no constant, so a call would have to follow. -/
  | uncalled (name : String)
deriving DecidableEq

structure ParseError where
  token : Token
  fault : ParseFault
deriving DecidableEq

/-- The kinds of tokens that could stand in place of the refused one. -/
def ParseFault.expected : ParseFault → List TokenKind
  | .unexpected expected => expected
  | .tooDeep => []
  | .outOfRange => [.number]
  | .uncalled _ => [.leftParen]

/-- The names of the kinds that could stand in place of the refused token, in order. -/
def ParseError.expectedNames (e : ParseError) : List String :=
  e.fault.expected.map TokenKind.name

def ParseError.message (e : ParseError) : String :=
  match e.fault with
  | .unexpected _ =>
    let found :=
      if e.token.kind = .endOfInput then "end of input" else "'" ++ e.token.text ++ "'"
    "Unexpected " ++ found ++ "; expected " ++ " or ".intercalate e.expectedNames
  | .tooDeep => "Expression nested too deeply"
  | .outOfRange =>
    "Number literal '" ++ String.ofList (e.token.text.toList.take 16) ++ "...' is out of range"
  | .uncalled name =>
    "Name '" ++ name ++ "' must be called as a function, e.g. " ++ name ++ "(...)"

/-- The value of a named constant, whatever the case of its letters. -/
def namedConstant? (name : String) : Option Binary64 :=
  [("pi", .ofBits 0x400921fb54442d18), ("e", .ofBits 0x4005bf0a8b145769),
   ("tau", .ofBits 0x401921fb54442d18), ("phi", .ofBits 0x3ff9e3779b97f4a8)].lookup name.toLower

namespace Parser

/-- A construct that waits for its last part; lists hold their items in reverse. -/
inductive Frame where
  /-- An open parenthesis around an expression. -/
  | group
  /-- An open array and its items so far. -/
  | array (offset : Int) (items : List Expr)
  /-- An open call and its arguments so far. -/
  | call (offset : Int) (name : String) (args : List Expr)
  /-- An operator whose right operand is not complete. -/
  | binary (offset : Int) (op : BinaryOperator) (left : Expr)
  /-- A prefix minus whose operand is not complete. -/
  | minus (offset : Int)

/-- Whether what follows a frame stands one level deeper. -/
def Frame.nests : Frame → Bool
  | .binary _ op _ => op == .power
  | _ => true

/-- The level of nesting inside a stack of frames. -/
def level (frames : List Frame) : Nat := 1 + frames.countP Frame.nests

/-- What the reader waits for. -/
inductive Phase where
  | start
  /-- The first item of a list, or its closing bracket. -/
  | list
  | operand
  /-- The token after a name, which decides whether it is called. -/
  | name (offset : Nat) (name : String)
  /-- An operator or a closing token after a complete operand. -/
  | after (operand : Expr)

/-- The state of the reader: open frames, innermost first, and a phase. -/
structure State where
  frames : List Frame
  phase : Phase

/-- How tightly an operator with two operands binds. -/
def strength : BinaryOperator → Nat
  | .plus | .minus => 1
  | .times | .over | .modulo => 2
  | .power => 3

/-- Completes the open operators that bind at least as tightly as `bound`; prefix minus binds
tightest. -/
def complete (bound : Nat) (operand : Expr) : List Frame → Expr × List Frame
  | .minus offset :: frames => complete bound (.unary offset .negation operand) frames
  | .binary offset op left :: frames =>
    if bound ≤ strength op then complete bound (.binary offset op left operand) frames
    else (operand, .binary offset op left :: frames)
  | frames => (operand, frames)

/-- The bracket that closes the list on top of the frames. -/
def closing? : List Frame → Option TokenKind
  | .array _ _ :: _ => some .rightBracket
  | .call _ _ _ :: _ => some .rightParen
  | _ => none

/-- The kinds that can start an operand, in the order of their names. -/
def operandStart : List TokenKind :=
  [.identifier, .leftBracket, .leftParen, .minus, .number]

/-- The closing kinds, besides operators, that can follow an operand inside the frames, in the
order of their names. -/
def closers : List Frame → List TokenKind
  | .group :: _ => [.rightParen]
  | .array _ _ :: _ => [.comma, .rightBracket]
  | .call _ _ _ :: _ => [.comma, .rightParen]
  | _ => [.endOfInput]

def refuse {α : Type} (token : Token) (fault : ParseFault) : Except ParseError α :=
  .error ⟨token, fault⟩

def operator? : TokenKind → Option BinaryOperator
  | .plus => some .plus
  | .minus => some .minus
  | .star => some .times
  | .slash => some .over
  | .percent => some .modulo
  | .caret => some .power
  | _ => none

/-- Takes a token that should start an operand. -/
def takeOperand (frames : List Frame) (token : Token) : Except ParseError State :=
  match token.kind with
  | .number =>
    let value := Binary64.ofNumeral token.text
    if value.isFinite then .ok ⟨frames, .after (.number token.offset value)⟩
    else refuse token .outOfRange
  | .identifier => .ok ⟨frames, .name token.offset token.text⟩
  | .leftParen => .ok ⟨.group :: frames, .start⟩
  | .leftBracket => .ok ⟨.array token.offset [] :: frames, .list⟩
  | .minus =>
    if maxNesting ≤ level frames then refuse token .tooDeep
    else .ok ⟨.minus token.offset :: frames, .operand⟩
  | _ => refuse token (.unexpected operandStart)

def takeStart (frames : List Frame) (token : Token) : Except ParseError State :=
  if maxNesting < level frames then refuse token .tooDeep else takeOperand frames token

/-- Closes the construct on top of the frames with its last item, if it has one. -/
def close (last : List Expr) : List Frame → Option State
  | .group :: frames => last.head?.map fun e => ⟨frames, .after e⟩
  | .array offset items :: frames => some ⟨frames, .after (.array offset (last ++ items).reverse)⟩
  | .call offset name args :: frames =>
    some ⟨frames, .after (.call offset name (last ++ args).reverse)⟩
  | _ => none

/-- Puts an item before a comma into the list on top of the frames. -/
def addItem (item : Expr) : List Frame → Option State
  | .array offset items :: frames => some ⟨.array offset (item :: items) :: frames, .start⟩
  | .call offset name args :: frames => some ⟨.call offset name (item :: args) :: frames, .start⟩
  | _ => none

/-- Takes a token after a complete operand. -/
def takeAfter (frames : List Frame) (operand : Expr) (token : Token) : Except ParseError State :=
  if token.kind = .bang then
    .ok ⟨frames, .after (.unary token.offset .factorial operand)⟩
  else
    match operator? token.kind with
    | some op =>
      let bound := if op = .power then 4 else strength op
      let (left, frames) := complete bound operand frames
      if op = .power ∧ maxNesting ≤ level frames then refuse token .tooDeep
      else .ok ⟨.binary token.offset op left :: frames, .operand⟩
    | none =>
      let (item, frames) := complete 0 operand frames
      let next :=
        if token.kind ∈ closers frames then
          if token.kind = .comma then addItem item frames else close [item] frames
        else none
      match next with
      | some state => .ok state
      | none => refuse token (.unexpected (closers frames))

/-- Takes a token after a name that is not called. -/
def resolveName (name : String) (token : Token) : Except ParseError Binary64 :=
  match namedConstant? name with
  | some value => .ok value
  | none => refuse token (.uncalled name)

def State.take (state : State) (token : Token) : Except ParseError State :=
  match state.phase with
  | .start => takeStart state.frames token
  | .list =>
    if closing? state.frames = some token.kind then
      match close [] state.frames with
      | some next => .ok next
      | none => refuse token (.unexpected operandStart)
    else takeStart state.frames token
  | .operand => takeOperand state.frames token
  | .name offset name =>
    if token.kind = .leftParen then .ok ⟨.call offset name [] :: state.frames, .list⟩
    else do
      let value ← resolveName name token
      takeAfter state.frames (.number offset value) token
  | .after operand => takeAfter state.frames operand token

/-- Takes the end of the input after a complete operand. -/
def finishAfter (frames : List Frame) (operand : Expr) (token : Token) : Except ParseError Expr :=
  match complete 0 operand frames with
  | (whole, []) => .ok whole
  | (_, frames) => refuse token (.unexpected (closers frames))

def State.finish (state : State) (token : Token) : Except ParseError Expr :=
  match state.phase with
  | .start | .list =>
    if maxNesting < level state.frames then refuse token .tooDeep
    else refuse token (.unexpected operandStart)
  | .operand => refuse token (.unexpected operandStart)
  | .name offset name => do
    let value ← resolveName name token
    finishAfter state.frames (.number offset value) token
  | .after operand => finishAfter state.frames operand token

/-- Takes all tokens of a list and then the end of the input. -/
def State.run (state : State) : List Token → (atEnd : Token) → Except ParseError Expr
  | [], atEnd => state.finish atEnd
  | token :: tokens, atEnd => do (← state.take token).run tokens atEnd

def State.initial : State := ⟨[], .start⟩

end Parser

/-- The expression that a tokenized source denotes. -/
def Expr.ofTokens (ts : Tokens) : Except ParseError Expr :=
  Parser.State.initial.run ts.tokens (Token.atEnd ts.stop)

end StackCalc
