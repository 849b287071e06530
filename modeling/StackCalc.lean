import StackCalc.Binary64.Arithmetic
import StackCalc.Binary64.Basic
import StackCalc.Binary64.Elementary
import StackCalc.Binary64.Rounding
import StackCalc.CommandLine.Dialogue
import StackCalc.CommandLine.Host
import StackCalc.CommandLine.Options
import StackCalc.CommandLine.Run
import StackCalc.Compiler
import StackCalc.Decimal.Notation
import StackCalc.Decimal.Shortest
import StackCalc.Enclosure.Basic
import StackCalc.Enclosure.Circular
import StackCalc.Enclosure.Exponential
import StackCalc.Enclosure.Power
import StackCalc.Enclosure.Series
import StackCalc.Evaluation
import StackCalc.Expr
import StackCalc.Expr.Parser
import StackCalc.Functions
import StackCalc.Library
import StackCalc.Machine
import StackCalc.Main
import StackCalc.Opcode
import StackCalc.Operation
import StackCalc.Program
import StackCalc.Program.Builder
import StackCalc.Program.Bytes
import StackCalc.Program.Indexed
import StackCalc.Program.Listing
import StackCalc.Proofs.Binary64.Grid
import StackCalc.Proofs.Binary64.Nearest
import StackCalc.Proofs.Binary64.Rounded
import StackCalc.Proofs.Binary64.Rounding
import StackCalc.Proofs.Binary64.Value
import StackCalc.Proofs.CommandLine.Chains
import StackCalc.Proofs.CommandLine.Dialogue
import StackCalc.Proofs.CommandLine.ErrorStream
import StackCalc.Proofs.CommandLine.Streams
import StackCalc.Proofs.Compiler.Acceptance
import StackCalc.Proofs.Compiler.Correctness
import StackCalc.Proofs.Compiler.Emission
import StackCalc.Proofs.Compiler.Exits
import StackCalc.Proofs.Compiler.LetterCase
import StackCalc.Proofs.Compiler.Readability
import StackCalc.Proofs.Compiler.TypeSafety
import StackCalc.Proofs.Decimal.Floating
import StackCalc.Proofs.Decimal.Positional
import StackCalc.Proofs.Decimal.Shortest
import StackCalc.Proofs.Enclosure.Logarithm
import StackCalc.Proofs.Evaluation.Diagnostics
import StackCalc.Proofs.Evaluation.Encoding
import StackCalc.Proofs.Evaluation.LetterCase
import StackCalc.Proofs.Evaluation.PrefixText
import StackCalc.Proofs.Evaluation.RoundTrip
import StackCalc.Proofs.Evaluation.Safety
import StackCalc.Proofs.Expr.Course
import StackCalc.Proofs.Expr.Evaluation
import StackCalc.Proofs.Expr.Finiteness
import StackCalc.Proofs.Expr.Postorder
import StackCalc.Proofs.Expr.PrefixDepth
import StackCalc.Proofs.Expr.Typing
import StackCalc.Proofs.Expr.Violations
import StackCalc.Proofs.Machine.Execution
import StackCalc.Proofs.Machine.Heights
import StackCalc.Proofs.Machine.SameActions
import StackCalc.Proofs.Machine.Shapes
import StackCalc.Proofs.Machine.StepLog
import StackCalc.Proofs.Machine.Trace
import StackCalc.Proofs.Operation.Choices
import StackCalc.Proofs.Operation.CommonDivisors
import StackCalc.Proofs.Operation.Division
import StackCalc.Proofs.Operation.ExactChoices
import StackCalc.Proofs.Operation.RisingQuotients
import StackCalc.Proofs.Operation.WholeNumbers
import StackCalc.Proofs.Parser.Completeness
import StackCalc.Proofs.Parser.Completion
import StackCalc.Proofs.Parser.Frames
import StackCalc.Proofs.Parser.Grammar
import StackCalc.Proofs.Parser.LetterCase
import StackCalc.Proofs.Parser.Names
import StackCalc.Proofs.Parser.Nesting
import StackCalc.Proofs.Parser.Offsets
import StackCalc.Proofs.Parser.Sizes
import StackCalc.Proofs.Parser.Soundness
import StackCalc.Proofs.Parser.Trees
import StackCalc.Proofs.Program.Canonical
import StackCalc.Proofs.Program.Decoding
import StackCalc.Proofs.Program.Encoding
import StackCalc.Proofs.Program.Histories
import StackCalc.Proofs.Program.Layout
import StackCalc.Proofs.Program.Listing
import StackCalc.Proofs.Program.Pool
import StackCalc.Proofs.Reduction.Mean
import StackCalc.Proofs.Reduction.SumTrees
import StackCalc.Proofs.Session.Reuse
import StackCalc.Proofs.Text.Fields
import StackCalc.Proofs.Token.LetterCase
import StackCalc.Proofs.Token.Lexemes
import StackCalc.Proofs.Token.Numerals
import StackCalc.Proofs.Token.Separation
import StackCalc.Proofs.Token.Tiling
import StackCalc.Reduction
import StackCalc.Report
import StackCalc.Session
import StackCalc.Text.Characters
import StackCalc.Text.Forms
import StackCalc.Token
import StackCalc.Token.Reading
import StackCalc.Value
