import ShellQuery.Argument.Lexeme
import ShellQuery.Argument.Reader
import ShellQuery.Bracket
import ShellQuery.Bytes.Scan
import ShellQuery.Bytes.Slicing
import ShellQuery.Cache.Slot
import ShellQuery.Cache.Step
import ShellQuery.Cache.Task
import ShellQuery.Call
import ShellQuery.Call.Shape
import ShellQuery.Chain
import ShellQuery.CommandLine
import ShellQuery.CommandLine.Argument
import ShellQuery.CommandLine.Environment
import ShellQuery.CommandLine.Invocation
import ShellQuery.CommandLine.Unconnected
import ShellQuery.Config
import ShellQuery.Console.Completion
import ShellQuery.Console.Conversation
import ShellQuery.Console.Input
import ShellQuery.Console.Printed
import ShellQuery.Console.Typed
import ShellQuery.Date.Calendar
import ShellQuery.Date.Reading
import ShellQuery.Date.Written
import ShellQuery.Error
import ShellQuery.Executor
import ShellQuery.Json
import ShellQuery.Json.Amount
import ShellQuery.Json.Fault
import ShellQuery.Json.Reader
import ShellQuery.Json.Record
import ShellQuery.Json.Scalar
import ShellQuery.Json.Skipped
import ShellQuery.Json.Written
import ShellQuery.Literal
import ShellQuery.Main
import ShellQuery.Number.Binary64
import ShellQuery.Number.Numeral
import ShellQuery.Number.Shortest
import ShellQuery.Operation
import ShellQuery.Operation.Kind
import ShellQuery.Operation.Modifier
import ShellQuery.Operation.Options
import ShellQuery.Path
import ShellQuery.Plan
import ShellQuery.Preview
import ShellQuery.Proofs.Accepted
import ShellQuery.Proofs.Amounts
import ShellQuery.Proofs.Bytes.Encoding
import ShellQuery.Proofs.Bytes.Literal
import ShellQuery.Proofs.Bytes.Scan
import ShellQuery.Proofs.Bytes.Slicing
import ShellQuery.Proofs.Cache.Account
import ShellQuery.Proofs.Cache.Attribution
import ShellQuery.Proofs.Cache.Bounds
import ShellQuery.Proofs.Cache.Effort
import ShellQuery.Proofs.Cache.Flight
import ShellQuery.Proofs.Cache.Idle
import ShellQuery.Proofs.Cache.Live
import ShellQuery.Proofs.Cache.Locks
import ShellQuery.Proofs.Cache.Move
import ShellQuery.Proofs.Cache.Once
import ShellQuery.Proofs.Cache.Origin
import ShellQuery.Proofs.Cache.Place
import ShellQuery.Proofs.Cache.Progress
import ShellQuery.Proofs.Cache.Projection
import ShellQuery.Proofs.Cache.Return
import ShellQuery.Proofs.Cache.Rounds
import ShellQuery.Proofs.Cache.Separation
import ShellQuery.Proofs.Cache.Stride
import ShellQuery.Proofs.Chain
import ShellQuery.Proofs.Console.Completion
import ShellQuery.Proofs.Console.Selection
import ShellQuery.Proofs.Date.Calendar
import ShellQuery.Proofs.Date.Pasted
import ShellQuery.Proofs.Date.Printed
import ShellQuery.Proofs.Digits
import ShellQuery.Proofs.Dotted
import ShellQuery.Proofs.Draft.Normalization
import ShellQuery.Proofs.Draft.Reading
import ShellQuery.Proofs.Draft.Site
import ShellQuery.Proofs.Draft.Structure
import ShellQuery.Proofs.Draft.Syntax
import ShellQuery.Proofs.Draft.Turning
import ShellQuery.Proofs.Execution
import ShellQuery.Proofs.Extent.Agreement
import ShellQuery.Proofs.Extent.Passage
import ShellQuery.Proofs.Form
import ShellQuery.Proofs.Grammar.Acceptance
import ShellQuery.Proofs.Grammar.Chain
import ShellQuery.Proofs.Grammar.Number
import ShellQuery.Proofs.Grammar.Quoted
import ShellQuery.Proofs.Grammar.Scalar
import ShellQuery.Proofs.Grammar.Syntax
import ShellQuery.Proofs.Insertion
import ShellQuery.Proofs.Interchange.Acceptance
import ShellQuery.Proofs.Interchange.Syntax
import ShellQuery.Proofs.Lexeme
import ShellQuery.Proofs.Lines
import ShellQuery.Proofs.Literal
import ShellQuery.Proofs.Locality
import ShellQuery.Proofs.Modifiers
import ShellQuery.Proofs.Nearest
import ShellQuery.Proofs.Opening
import ShellQuery.Proofs.Options.Listed
import ShellQuery.Proofs.Options.Planned
import ShellQuery.Proofs.Options.Planning
import ShellQuery.Proofs.Options.Reading
import ShellQuery.Proofs.Path
import ShellQuery.Proofs.Path.Lookup
import ShellQuery.Proofs.Path.Text
import ShellQuery.Proofs.Polling
import ShellQuery.Proofs.Positions
import ShellQuery.Proofs.Reader
import ShellQuery.Proofs.Record
import ShellQuery.Proofs.Redaction
import ShellQuery.Proofs.Server.Request
import ShellQuery.Proofs.Shell.Literals
import ShellQuery.Proofs.Shell.Matching
import ShellQuery.Proofs.Shell.Meaning
import ShellQuery.Proofs.Shell.Normalization
import ShellQuery.Proofs.Shell.Pieces
import ShellQuery.Proofs.Shell.Reach
import ShellQuery.Proofs.Shell.Reading
import ShellQuery.Proofs.Shell.Refusal
import ShellQuery.Proofs.Shell.Site
import ShellQuery.Proofs.Shell.Syntax
import ShellQuery.Proofs.Shell.Unwrapping
import ShellQuery.Proofs.Span
import ShellQuery.Proofs.Spelling
import ShellQuery.Proofs.Stability
import ShellQuery.Proofs.Text
import ShellQuery.Proofs.Verbatim
import ShellQuery.Result
import ShellQuery.Server.Address
import ShellQuery.Server.Connection
import ShellQuery.Server.Driver
import ShellQuery.Server.Handle
import ShellQuery.Server.Options
import ShellQuery.Session
import ShellQuery.Span
import ShellQuery.Target
import ShellQuery.Target.Registry
import ShellQuery.Text.Alphabetic
import ShellQuery.Text.Blank
import ShellQuery.Text.Cut
import ShellQuery.Text.Grapheme
import ShellQuery.Text.Grapheme.Class
import ShellQuery.Text.Mark
import ShellQuery.Text.Numeric
import ShellQuery.Text.Printable
import ShellQuery.Text.Quoted
import ShellQuery.Text.Ranges
import ShellQuery.Text.Recent
import ShellQuery.Text.Word
import ShellQuery.Value
import ShellQuery.Value.Relaxed
import ShellQuery.Value.Shown
import ShellQuery.Wrapper
