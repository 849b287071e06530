import StackCalc.Text.Characters
import StackCalc.Text.Forms

/-!
# Command line arguments

The arguments are options and at most one expression.

Options begin with a dash.  A long option may be cut short as long as only one option begins
with what is left.  Numbers with a minus sign and arguments that hold a space are not taken for
options, and no argument after a lone `--` is.  No option takes a value, but a text attached to an
option with a single dash is read as further short options.

An ambiguous abbreviation is an error before anything else.  After that the arguments are taken
in order: a request for help ends the reading, a value given to an option is an error, and
arguments that are left over are an error at the end.
-/

namespace StackCalc

namespace CommandLine

inductive Flag where
  | help | verbose | trace | disassemble | ast | tracebackJson | functions
deriving DecidableEq

/-- The spellings of all options in the order in which they are listed. -/
def spellings : List (String × Flag) :=
  [("-h", .help), ("--help", .help), ("-verbose", .verbose), ("--verbose", .verbose),
   ("--trace", .trace), ("--disassemble", .disassemble), ("--ast", .ast),
   ("--traceback-json", .tracebackJson), ("--functions", .functions)]

/-- All spellings of one option. -/
def Flag.names (flag : Flag) : List String :=
  (spellings.filter (·.2 == flag)).map Prod.fst

/-- An option with what is attached to it in the same argument. -/
structure OptionUse where
  flag : Flag
  single : Bool
  /-- The attached text, without an equals sign before it. -/
  attached : Option (List Char) := none
deriving DecidableEq

inductive Argument where
  | positional
  | option (use : OptionUse)
  | unknown
deriving DecidableEq

inductive UsageError where
  | ambiguous (argument : String) (candidates : List String)
  | ignoredValue (flag : Flag) (value : String)
  | unrecognized (arguments : List String)
deriving DecidableEq

def UsageError.message : UsageError → String
  | .ambiguous argument candidates =>
    "ambiguous option: " ++ argument ++ " could match " ++ ", ".intercalate candidates
  | .ignoredValue flag value =>
    "argument " ++ "/".intercalate flag.names ++ ": ignored explicit argument " ++ quoted value
  | .unrecognized arguments => "unrecognized arguments: " ++ " ".intercalate arguments

/-- Whether a spelling has a single dash. -/
def hasSingleDash (spelling : String) : Bool := !spelling.startsWith "--"

/-- The characters before an equals sign and those after it, if there is one. -/
def splitAtEquals (cs : List Char) : List Char × Option (List Char) :=
  match cs.dropWhile (· != '=') with
  | [] => (cs, none)
  | _ :: value => (cs.takeWhile (· != '='), some value)

/-- The options that an argument may stand for, with their spellings.  After two dashes only the
part before an equals sign counts; after one dash a short option may have text attached. -/
def candidates (cs : List Char) : List (String × OptionUse) :=
  if "--".toList.isPrefixOf cs then
    let (name, value) := splitAtEquals cs
    spellings.filterMap fun (spelling, flag) =>
      if name.isPrefixOf spelling.toList then
        some (spelling, ⟨flag, hasSingleDash spelling, value⟩)
      else none
  else
    spellings.filterMap fun (spelling, flag) =>
      if spelling.toList = cs.take 2 then some (spelling, ⟨flag, true, some (cs.drop 2)⟩)
      else if cs.isPrefixOf spelling.toList then
        some (spelling, ⟨flag, hasSingleDash spelling, none⟩)
      else none

/-- Whether a text is digits, or digits around a point with at least one after it; one line break
may follow. -/
def isUnsignedNumber (cs : List Char) : Bool :=
  let ends (rest : List Char) : Bool := rest == [] || rest == ['\n']
  let whole := cs.takeWhile isDecimalDigit
  match cs.dropWhile isDecimalDigit with
  | '.' :: rest =>
    !(rest.takeWhile isDecimalDigit).isEmpty && ends (rest.dropWhile isDecimalDigit)
  | rest => !whole.isEmpty && ends rest

/-- What an argument before a lone `--` is. -/
def classify (argument : String) : Except UsageError Argument :=
  match argument.toList with
  | '-' :: rest =>
    let cs := '-' :: rest
    let (name, value) := splitAtEquals cs
    match spellings.lookup argument, spellings.lookup (String.ofList name) with
    | some flag, _ => .ok (.option ⟨flag, hasSingleDash argument, none⟩)
    | none, exact =>
      if rest.isEmpty then .ok .positional
      else
        match value, exact with
        | some value, some flag =>
          .ok (.option ⟨flag, hasSingleDash argument, some value⟩)
        | _, _ =>
          match candidates cs with
          | [(_, use)] => .ok (.option use)
          | [] =>
            if isUnsignedNumber rest || cs.contains ' ' then .ok .positional else .ok .unknown
          | several => .error (.ambiguous argument (several.map Prod.fst))
  | _ => .ok .positional

structure Options where
  verbose : Bool := false
  trace : Bool := false
  disassemble : Bool := false
  ast : Bool := false
  tracebackJson : Bool := false
  functions : Bool := false
  expression : Option String := none
deriving DecidableEq

/-- Sets the flag of an option other than the one for help. -/
def Options.set (options : Options) : Flag → Options
  | .help => options
  | .verbose => { options with verbose := true }
  | .trace => { options with trace := true }
  | .disassemble => { options with disassemble := true }
  | .ast => { options with ast := true }
  | .tracebackJson => { options with tracebackJson := true }
  | .functions => { options with functions := true }

/-- The option that a single character denotes after a dash. -/
def shortOption? (c : Char) : Option Flag := spellings.lookup (String.ofList ['-', c])

/-- The flags of an option with a single dash and the text attached to it, which has to be a row
of short options. -/
def flagsOfAttached (flag : Flag) : List Char → Except UsageError (List Flag)
  | [] => .ok [flag]
  | c :: rest =>
    match shortOption? c with
    | some next => return flag :: (← flagsOfAttached next rest)
    | none => .error (.ignoredValue flag (String.ofList (c :: rest)))

/-- The flags that one option sets, in order.  An attached text is a value, which no option
takes, if it is empty or the option is spelled with two dashes. -/
def OptionUse.flags (use : OptionUse) : Except UsageError (List Flag) :=
  match use.attached with
  | none => .ok [use.flag]
  | some text =>
    if use.single && !text.isEmpty then flagsOfAttached use.flag text
    else .error (.ignoredValue use.flag (String.ofList text))

inductive Request where
  | help
  | run (options : Options)
deriving DecidableEq

structure Progress where
  options : Options := {}
  extras : List String := []
  justTaken : Bool := false

/-- Takes the arguments in order; `rest` are those from a lone `--` on. -/
def takeArguments (progress : Progress) (rest : Option (List String)) :
    List (String × Argument) → Except UsageError Request
  | [] =>
    let extra := progress.extras
    let (options, extras) :=
      match rest with
      | none => (progress.options, extra)
      | some after =>
        match progress.options.expression with
        | none =>
          ({ progress.options with expression := after.head? }, extra ++ after.drop 1)
        | some _ =>
          (progress.options, extra ++ if progress.justTaken then after else "--" :: after)
    if extras.isEmpty then .ok (.run options) else .error (.unrecognized extras)
  | (text, .positional) :: arguments =>
    match progress.options.expression with
    | none =>
      takeArguments ⟨{ progress.options with expression := some text }, progress.extras, true⟩
        rest arguments
    | some _ => takeArguments ⟨progress.options, progress.extras ++ [text], false⟩ rest arguments
  | (text, .unknown) :: arguments =>
    takeArguments ⟨progress.options, progress.extras ++ [text], false⟩ rest arguments
  | (_, .option use) :: arguments => do
    let flags ← use.flags
    if flags.contains .help then return .help
    takeArguments ⟨flags.foldl Options.set progress.options, progress.extras, false⟩ rest arguments

/-- What the arguments of the program ask for. -/
def parseArguments (arguments : List String) : Except UsageError Request := do
  let front := arguments.takeWhile (· != "--")
  let rest := (arguments.dropWhile (· != "--")).tail?
  let classified ← front.mapM fun text => return (text, ← classify text)
  takeArguments {} rest classified

end CommandLine

end StackCalc
