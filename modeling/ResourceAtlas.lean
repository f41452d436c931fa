import ResourceAtlas.Address.Lexer
import ResourceAtlas.Address.QueryText
import ResourceAtlas.Address.Step
import ResourceAtlas.Calendar.Date
import ResourceAtlas.Calendar.Moment
import ResourceAtlas.Calendar.Reading
import ResourceAtlas.Completion
import ResourceAtlas.Fault
import ResourceAtlas.Json.Octets
import ResourceAtlas.Json.Reader
import ResourceAtlas.Json.Writer
import ResourceAtlas.Keyed
import ResourceAtlas.Ledger
import ResourceAtlas.Link.Coding
import ResourceAtlas.Link.Host
import ResourceAtlas.Link.Normal
import ResourceAtlas.Link.Numeric
import ResourceAtlas.Link.Path
import ResourceAtlas.Link.Punycode
import ResourceAtlas.Link.Refusal
import ResourceAtlas.Main
import ResourceAtlas.Number.Binary64
import ResourceAtlas.Number.Numeral
import ResourceAtlas.Number.Shortest
import ResourceAtlas.Proofs.Address.Behind
import ResourceAtlas.Proofs.Address.Canonical
import ResourceAtlas.Proofs.Address.Lexed
import ResourceAtlas.Proofs.Address.QueryText
import ResourceAtlas.Proofs.Address.Step
import ResourceAtlas.Proofs.Address.Written
import ResourceAtlas.Proofs.Keyed
import ResourceAtlas.Proofs.Number.Numeral
import ResourceAtlas.Proofs.Number.Shortest
import ResourceAtlas.Proofs.Outcome
import ResourceAtlas.Proofs.Query.Applied
import ResourceAtlas.Proofs.Query.Numbered
import ResourceAtlas.Proofs.Query.Operand
import ResourceAtlas.Proofs.Query.Selection
import ResourceAtlas.Proofs.Query.State
import ResourceAtlas.Proofs.Registry.Behind
import ResourceAtlas.Proofs.Registry.Canonical
import ResourceAtlas.Proofs.Registry.Move
import ResourceAtlas.Proofs.Registry.Walk
import ResourceAtlas.Proofs.Resource.Page
import ResourceAtlas.Proofs.Resource.Pages
import ResourceAtlas.Proofs.Resource.Stretch
import ResourceAtlas.Proofs.Resource.Visited
import ResourceAtlas.Proofs.Schema.Built
import ResourceAtlas.Proofs.Schema.Faithful
import ResourceAtlas.Proofs.Schema.Regular
import ResourceAtlas.Proofs.Sorting.Stepwise
import ResourceAtlas.Proofs.Sorting.Rearranged
import ResourceAtlas.Proofs.Sorting.Search
import ResourceAtlas.Proofs.Sorting.Merge
import ResourceAtlas.Proofs.Sorting.Stable
import ResourceAtlas.Proofs.Sorting.Natural
import ResourceAtlas.Proofs.Sorting.Answered
import ResourceAtlas.Proofs.Specifier.Chain
import ResourceAtlas.Proofs.Specifier.Listed
import ResourceAtlas.Proofs.Specifier.Near
import ResourceAtlas.Proofs.Specifier.Selected
import ResourceAtlas.Proofs.Store.Move
import ResourceAtlas.Proofs.Store.Paths
import ResourceAtlas.Proofs.Store.Picked
import ResourceAtlas.Proofs.Store.Piece
import ResourceAtlas.Proofs.Store.Reading
import ResourceAtlas.Proofs.Store.Relocation
import ResourceAtlas.Proofs.Store.Spots
import ResourceAtlas.Proofs.Text.Percent
import ResourceAtlas.Proofs.Text.Split
import ResourceAtlas.Proofs.Text.Utf8
import ResourceAtlas.Proofs.Tool.Handle
import ResourceAtlas.Proofs.Tool.Move
import ResourceAtlas.Query.Change
import ResourceAtlas.Query.Operator
import ResourceAtlas.Query.Selection
import ResourceAtlas.Query.State
import ResourceAtlas.Registry
import ResourceAtlas.Resource.Listing
import ResourceAtlas.Resource.Read
import ResourceAtlas.Schema.Blueprint
import ResourceAtlas.Schema.Node
import ResourceAtlas.Schema.Validator
import ResourceAtlas.Service.Desk
import ResourceAtlas.Service.Document
import ResourceAtlas.Service.Http
import ResourceAtlas.Service.Rpc
import ResourceAtlas.Service.Settings
import ResourceAtlas.Service.Source
import ResourceAtlas.Service.Stdio
import ResourceAtlas.Shell.Arguments
import ResourceAtlas.Shell.Command
import ResourceAtlas.Shell.Inspect
import ResourceAtlas.Sorting.Merge
import ResourceAtlas.Sorting.Runs
import ResourceAtlas.Sorting.Search
import ResourceAtlas.Specifier.Basic
import ResourceAtlas.Specifier.Call
import ResourceAtlas.Store.Cursor
import ResourceAtlas.Store.Documents
import ResourceAtlas.Store.Edit
import ResourceAtlas.Store.Place
import ResourceAtlas.Text.Blank
import ResourceAtlas.Text.Case
import ResourceAtlas.Text.Case.Table
import ResourceAtlas.Text.Digit
import ResourceAtlas.Text.Percent
import ResourceAtlas.Text.Printable
import ResourceAtlas.Text.Quoted
import ResourceAtlas.Text.Split
import ResourceAtlas.Text.Utf8
import ResourceAtlas.Text.Wide
import ResourceAtlas.Tool
import ResourceAtlas.Value.Amount
import ResourceAtlas.Value.Basic
import ResourceAtlas.Value.Order
import ResourceAtlas.Value.Pairs
import ResourceAtlas.Value.Render
import ResourceAtlas.Proofs.Schema.Faithful
import ResourceAtlas.Proofs.Specifier.Chain
import ResourceAtlas.Proofs.Registry.Stem
import ResourceAtlas.Proofs.Store.Insert
import ResourceAtlas.Proofs.Registry.Onward
import ResourceAtlas.Proofs.Registry.Steady
import ResourceAtlas.Proofs.Store.Assign
import ResourceAtlas.Proofs.Tool.Make
import ResourceAtlas.Proofs.Tool.Failure
import ResourceAtlas.Proofs.Store.Exact
import ResourceAtlas.Proofs.Value.Render
import ResourceAtlas.Proofs.Query.Written
import ResourceAtlas.Proofs.Value.Pairs
import ResourceAtlas.Proofs.Store.Steady
import ResourceAtlas.Proofs.Store.Generated
import ResourceAtlas.Proofs.Tool.Series
import ResourceAtlas.Proofs.Number.Nearest
import ResourceAtlas.Proofs.Query.Legible
import ResourceAtlas.Proofs.Specifier.Asked
import ResourceAtlas.Proofs.Schema.Nesting
import ResourceAtlas.Proofs.Specifier.Gathered
import ResourceAtlas.Proofs.Registry.Fields
import ResourceAtlas.Proofs.Registry.Member
import ResourceAtlas.Proofs.Registry.Queried
import ResourceAtlas.Proofs.Resource.Followed
import ResourceAtlas.Proofs.Resource.Window
import ResourceAtlas.Proofs.Address.Onward
import ResourceAtlas.Proofs.Address.Word
import ResourceAtlas.Proofs.Registry.Alongside
import ResourceAtlas.Proofs.Registry.Interchange
import ResourceAtlas.Proofs.Schema.Landed
import ResourceAtlas.Proofs.Registry.Guided
import ResourceAtlas.Proofs.Resource.Collected
import ResourceAtlas.Proofs.Resource.Filled
import ResourceAtlas.Proofs.Resource.Forms
import ResourceAtlas.Proofs.Resource.Advertised
import ResourceAtlas.Proofs.Registry.Passage
import ResourceAtlas.Proofs.Registry.ReadOnly
import ResourceAtlas.Proofs.Specifier.Bounded
import ResourceAtlas.Proofs.Service.ReadOnly
import ResourceAtlas.Proofs.Json.Reading
import ResourceAtlas.Proofs.Service.Answered
import ResourceAtlas.Proofs.Address.Overlong
import ResourceAtlas.Proofs.Registry.Reported
import ResourceAtlas.Proofs.Registry.Addressed
import ResourceAtlas.Proofs.Resource.Reported
import ResourceAtlas.Proofs.Address.Groups
import ResourceAtlas.Proofs.Store.Finding
import ResourceAtlas.Proofs.Store.Entry
import ResourceAtlas.Proofs.Specifier.Set
import ResourceAtlas.Proofs.Tool.Created
import ResourceAtlas.Proofs.Query.Restored
import ResourceAtlas.Proofs.Text.Case
import ResourceAtlas.Proofs.Address.Bracketed
import ResourceAtlas.Proofs.Address.Ahead
import ResourceAtlas.Proofs.Registry.Indexed
import ResourceAtlas.Proofs.Address.Named
import ResourceAtlas.Proofs.Registry.Named
import ResourceAtlas.Proofs.Store.Exchange
import ResourceAtlas.Proofs.Store.Bare
import ResourceAtlas.Proofs.Sorting.Neighbours
import ResourceAtlas.Proofs.Query.Ordered
import ResourceAtlas.Proofs.Tool.Unheeded
import ResourceAtlas.Proofs.Address.Reordered
import ResourceAtlas.Proofs.Query.Conjoined
import ResourceAtlas.Proofs.Specifier.Conjoined
import ResourceAtlas.Proofs.Query.Tested
import ResourceAtlas.Proofs.Resource.Filtered
import ResourceAtlas.Proofs.Specifier.Expanded
import ResourceAtlas.Proofs.Address.Appended
import ResourceAtlas.Proofs.Completion.Suggested
import ResourceAtlas.Proofs.Completion.Followable
import ResourceAtlas.Proofs.Address.Parted
import ResourceAtlas.Proofs.Ledger.Balanced
