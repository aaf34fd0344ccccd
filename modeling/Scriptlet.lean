import Scriptlet.Decimal.Binary
import Scriptlet.Decimal.Digits
import Scriptlet.Decimal.Positional
import Scriptlet.Decimal.Shortest
import Scriptlet.Diagnostic.Basic
import Scriptlet.Diagnostic.Json
import Scriptlet.Dictionary
import Scriptlet.Expr
import Scriptlet.Grammar.Error
import Scriptlet.Grammar.Expression
import Scriptlet.Grammar.Program
import Scriptlet.Grammar.Reader
import Scriptlet.Json.Basic
import Scriptlet.Json.Number
import Scriptlet.Json.Parser
import Scriptlet.Json.Record
import Scriptlet.Native.Host
import Scriptlet.Native.Registry
import Scriptlet.Operator
import Scriptlet.Program
import Scriptlet.Proofs.Expr.Parts
import Scriptlet.Proofs.Grammar.Definitions
import Scriptlet.Proofs.Grammar.Expression
import Scriptlet.Proofs.Grammar.Grouping
import Scriptlet.Proofs.Grammar.Phrase
import Scriptlet.Proofs.Grammar.Program
import Scriptlet.Proofs.Grammar.Reading
import Scriptlet.Proofs.Grammar.Statement
import Scriptlet.Proofs.Grammar.Subphrase
import Scriptlet.Proofs.Run.Blame
import Scriptlet.Proofs.Run.CallGraph
import Scriptlet.Proofs.Run.Callees
import Scriptlet.Proofs.Run.Course
import Scriptlet.Proofs.Run.Depth
import Scriptlet.Proofs.Run.Kinds
import Scriptlet.Proofs.Run.Limit
import Scriptlet.Proofs.Run.Recording
import Scriptlet.Proofs.Run.Simulation
import Scriptlet.Proofs.Script.Blame
import Scriptlet.Proofs.Source.Line
import Scriptlet.Proofs.Token.Layout
import Scriptlet.Proofs.Token.Lexeme
import Scriptlet.Report.Basic
import Scriptlet.Report.Json
import Scriptlet.Run.Basic
import Scriptlet.Run.Config
import Scriptlet.Run.Error
import Scriptlet.Run.Event
import Scriptlet.Run.Interpreter
import Scriptlet.Run.Scope
import Scriptlet.Script.Run
import Scriptlet.Script.Source
import Scriptlet.Source.File
import Scriptlet.Source.Place
import Scriptlet.Source.Span
import Scriptlet.Text.Combining
import Scriptlet.Text.Quoted
import Scriptlet.Text.Unprintable
import Scriptlet.Token.Kind
import Scriptlet.Token.Lexeme
import Scriptlet.Token.Scan
import Scriptlet.Value.Basic
import Scriptlet.Value.Json
import Scriptlet.Proofs.Run.Scoping
import Scriptlet.Proofs.Token.Language
import Scriptlet.Proofs.Token.Failure
import Scriptlet.Proofs.Token.Quoting
import Scriptlet.Proofs.Token.Lines
import Scriptlet.Proofs.Run.DeadCode
import Scriptlet.Proofs.Run.Rules
import Scriptlet.Proofs.Run.Termination
import Scriptlet.Proofs.Token.Order
import Scriptlet.Proofs.Grammar.Stretch
import Scriptlet.Proofs.Script.Spans
import Scriptlet.Proofs.Grammar.Predict
import Scriptlet.Proofs.Grammar.Words
import Scriptlet.Proofs.Grammar.Lookahead
import Scriptlet.Proofs.Grammar.Unexpected
import Scriptlet.Proofs.Dictionary
import Scriptlet.Proofs.Program.Spanless
import Scriptlet.Proofs.Grammar.Chain
import Scriptlet.Proofs.Grammar.LineEnds
import Scriptlet.Proofs.Grammar.SameReading
import Scriptlet.Proofs.Run.Chain
import Scriptlet.Proofs.Run.NativeCall
import Scriptlet.Proofs.Run.Trace
import Scriptlet.Proofs.Run.Brackets
import Scriptlet.Proofs.Run.Work
import Scriptlet.Proofs.Run.Contract
import Scriptlet.Proofs.Run.Forwarding
import Scriptlet.Proofs.Decimal.Digits
import Scriptlet.Proofs.Json.Text
import Scriptlet.Proofs.Report.ReadBack
import Scriptlet.Proofs.Decimal.Rounding
import Scriptlet.Proofs.Decimal.Shortest
import Scriptlet.Proofs.Json.Number
import Scriptlet.Proofs.Report.Kind
import Scriptlet.Proofs.Token.Separated
import Scriptlet.Proofs.Grammar.Cursor
import Scriptlet.Proofs.Grammar.Extent
import Scriptlet.Proofs.Grammar.Following
import Scriptlet.Proofs.Grammar.HardEnd
import Scriptlet.Proofs.Grammar.Nesting
import Scriptlet.Proofs.Script.Diagnostic
import Scriptlet.Proofs.Text.Quoted
import Scriptlet.Proofs.Token.Literal
import Scriptlet.Proofs.Decimal.Cell
import Scriptlet.Proofs.Decimal.Positional
import Scriptlet.Proofs.Expr.Text
import Scriptlet.Proofs.Script.Text
import Scriptlet.Proofs.Run.Spanless
import Scriptlet.Proofs.Program.Rearranged
import Scriptlet.Proofs.Run.Resolved
import Scriptlet.Proofs.Source.Merge
import Scriptlet.Proofs.Source.Terminator
import Scriptlet.Proofs.Decimal.Error
import Scriptlet.Proofs.Json.Scaling
import Scriptlet.Proofs.Report.Number
import Scriptlet.Proofs.Source.Bytes
import Scriptlet.Proofs.Source.Table
import Scriptlet.Proofs.Token.Cursor
import Scriptlet.Proofs.Token.Tracking
