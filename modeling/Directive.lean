import Directive.Assistant
import Directive.Chain.Reference
import Directive.Chain.Slot
import Directive.Data.Reading
import Directive.Data.Violation
import Directive.Diagnostic
import Directive.Dispatch
import Directive.Domain
import Directive.Fault
import Directive.Form
import Directive.Grammar.Basic
import Directive.Grammar.Builtin
import Directive.Grammar.Data
import Directive.Grammar.Lineage
import Directive.Json.Basic
import Directive.Json.Number
import Directive.Json.Reader
import Directive.Json.Writer
import Directive.Missing
import Directive.Model.Basic
import Directive.Model.Data
import Directive.Modifier.Key
import Directive.Modifier.Setting
import Directive.Number.Basic
import Directive.Number.Binary64
import Directive.Number.Decimal
import Directive.Number.Text
import Directive.Number.Whole
import Directive.Order.Pointwise
import Directive.Place
import Directive.Prompt.Basic
import Directive.Prompt.Template
import Directive.Run.Call
import Directive.Run.Chain
import Directive.Run.Descent
import Directive.Run.Direct
import Directive.Run.Handler
import Directive.Run.Journal
import Directive.Run.Program
import Directive.Run.Report
import Directive.Run.Rounds
import Directive.Run.Step
import Directive.Run.Turn
import Directive.Run.World
import Directive.Schema
import Directive.Script.Basic
import Directive.Script.Parser
import Directive.Script.Validation
import Directive.Table
import Directive.Text.Blank
import Directive.Text.Case
import Directive.Text.CaseTable
import Directive.Text.Digit
import Directive.Text.Printable
import Directive.Text.Quoted
import Directive.Text.Similar
import Directive.Token.Basic
import Directive.Token.Lexer
import Directive.Upshot
import Directive.Value
import Directive.Proofs.Chain.Naming
import Directive.Proofs.Chain.Reference
import Directive.Proofs.Data.Reading
import Directive.Proofs.Grammar.Admitted
import Directive.Proofs.Grammar.Canonical
import Directive.Proofs.Grammar.Compose
import Directive.Proofs.Grammar.Declared
import Directive.Proofs.Grammar.Extension
import Directive.Proofs.Grammar.Loadable
import Directive.Proofs.Grammar.RoundTrip
import Directive.Proofs.Grammar.Same
import Directive.Proofs.Modifier.Key
import Directive.Proofs.Modifier.Setting
import Directive.Proofs.Modifier.Spelling
import Directive.Proofs.Place
import Directive.Proofs.Prompt.Verbatim
import Directive.Proofs.Run.Account
import Directive.Proofs.Run.Answered
import Directive.Proofs.Run.Binding
import Directive.Proofs.Run.Bound
import Directive.Proofs.Run.Calls
import Directive.Proofs.Run.Cancel
import Directive.Proofs.Run.Cause
import Directive.Proofs.Run.Course
import Directive.Proofs.Run.Each
import Directive.Proofs.Run.Exact
import Directive.Proofs.Run.ExitCode
import Directive.Proofs.Run.Extent
import Directive.Proofs.Run.Follow
import Directive.Proofs.Run.Guard
import Directive.Proofs.Run.Heard
import Directive.Proofs.Run.Isolation
import Directive.Proofs.Run.Lifecycle
import Directive.Proofs.Run.Lockstep
import Directive.Proofs.Run.Plan
import Directive.Proofs.Run.Reach
import Directive.Proofs.Run.Reached
import Directive.Proofs.Run.Replies
import Directive.Proofs.Run.Runs
import Directive.Proofs.Run.Short
import Directive.Proofs.Run.Steady
import Directive.Proofs.Run.Told
import Directive.Proofs.Run.Trace
import Directive.Proofs.Run.Transitions
import Directive.Proofs.Run.Upkeep
import Directive.Proofs.Run.Way
import Directive.Proofs.Script.Bare
import Directive.Proofs.Script.Callable
import Directive.Proofs.Script.Choice
import Directive.Proofs.Script.Closing
import Directive.Proofs.Script.Concat
import Directive.Proofs.Script.Derivation
import Directive.Proofs.Script.Draft
import Directive.Proofs.Script.DraftLine
import Directive.Proofs.Script.Failure
import Directive.Proofs.Script.Filled
import Directive.Proofs.Script.Inserted
import Directive.Proofs.Script.Layout
import Directive.Proofs.Script.Line
import Directive.Proofs.Script.Lookahead
import Directive.Proofs.Script.Moved
import Directive.Proofs.Script.Objection
import Directive.Proofs.Script.OneLine
import Directive.Proofs.Script.Reading
import Directive.Proofs.Script.Recognition
import Directive.Proofs.Script.Reindent
import Directive.Proofs.Script.Repeated
import Directive.Proofs.Script.Revalidation
import Directive.Proofs.Script.RoundTrip
import Directive.Proofs.Script.Shape
import Directive.Proofs.Script.Spelling
import Directive.Proofs.Script.Uses
import Directive.Proofs.Script.Visit
import Directive.Proofs.Table
import Directive.Proofs.Text.Blank
import Directive.Proofs.Text.Case
import Directive.Proofs.Text.Words
import Directive.Proofs.Token.Brackets
import Directive.Proofs.Token.CodeLine
import Directive.Proofs.Token.Cover
import Directive.Proofs.Token.Cursor
import Directive.Proofs.Token.Every
import Directive.Proofs.Token.Extent
import Directive.Proofs.Token.Failure
import Directive.Proofs.Token.InFront
import Directive.Proofs.Token.Lexeme
import Directive.Proofs.Token.Lines
import Directive.Proofs.Token.Moved
import Directive.Proofs.Token.OffSide
import Directive.Proofs.Token.Places
import Directive.Proofs.Token.Progress
import Directive.Proofs.Token.Quote
import Directive.Proofs.Token.Reindent
import Directive.Proofs.Token.Relocated
import Directive.Proofs.Token.Scan
import Directive.Proofs.Token.Writing
