import LineScript.Text.Ranges
import LineScript.Text.Printable
import LineScript.Text.Digit
import LineScript.Text.Blank
import LineScript.Text.Quoted
import LineScript.Text.Newline
import LineScript.Numeral
import LineScript.Word32
import LineScript.Binary64
import LineScript.Json
import LineScript.Json.Lexeme
import LineScript.Json.Reader
import LineScript.Json.Printer
import LineScript.Token
import LineScript.Token.Lexer
import LineScript.Operator
import LineScript.Node
import LineScript.Parse.Error
import LineScript.Parse.Line
import LineScript.Parse.Statement
import LineScript.Parse.Program
import LineScript.Node.Stored
import LineScript.Value
import LineScript.Table
import LineScript.Env
import LineScript.Fault
import LineScript.Run.Operation
import LineScript.Run.Event
import LineScript.Run.Builtin
import LineScript.Run.Eval
import LineScript.Run.Exec
import LineScript.Path
import LineScript.Disk
import LineScript.Failure
import LineScript.Run.Watch
import LineScript.Session
import LineScript.Repl
import LineScript.Cli.Arguments
import LineScript.Node.StoredText
import LineScript.Cli.Command
import LineScript.Main
import LineScript.Proofs.Numerals
import LineScript.Proofs.Grammar
import LineScript.Proofs.Parsing
import LineScript.Proofs.JsonNumbers
import LineScript.Proofs.JsonText
import LineScript.Proofs.StoredTrees
import LineScript.Proofs.Watching
import LineScript.Proofs.Legibility
import LineScript.Proofs.TypeSafety
import LineScript.Proofs.Lexemes
import LineScript.Proofs.Tokenization
import LineScript.Proofs.Relocation
import LineScript.Proofs.Lines
import LineScript.Proofs.Interaction
import LineScript.Proofs.Composition
import LineScript.Proofs.Dialects
import LineScript.Proofs.Malformed
import LineScript.Proofs.Files
import LineScript.Proofs.Storage
import LineScript.Proofs.NormalForm
import LineScript.Proofs.Rendering
import LineScript.Proofs.Writes
import LineScript.Proofs.Tracing
import LineScript.Proofs.Isolation
import LineScript.Proofs.ViablePrefixes
import LineScript.Proofs.Footprint
import LineScript.Proofs.Verbosity
import LineScript.Proofs.FileRuns
import LineScript.Proofs.Concatenation
import LineScript.Proofs.Layout
import LineScript.Proofs.Arithmetic
import LineScript.Proofs.Dependence
import LineScript.Proofs.Printing
import LineScript.Proofs.TypeFlow
import LineScript.Proofs.EvaluationOrder
import LineScript.Proofs.LineEnds
import LineScript.Proofs.Readback
import LineScript.Proofs.Descent
import LineScript.Proofs.Window
