import DocQuery.Document.Field
import DocQuery.Document.Merge
import DocQuery.Document.Patch
import DocQuery.Execution.Basic
import DocQuery.Execution.Error
import DocQuery.Execution.Explanation
import DocQuery.Execution.Fetch
import DocQuery.Execution.Outcome
import DocQuery.Grammar.Error
import DocQuery.Grammar.Meaning
import DocQuery.Grammar.Read
import DocQuery.Grammar.Scan
import DocQuery.Grammar.Token
import DocQuery.Grammar.Tree
import DocQuery.Number.Decimal
import DocQuery.Number.Double
import DocQuery.Number.Shortest
import DocQuery.Output.Destination
import DocQuery.Output.FileTree
import DocQuery.Output.Sink
import DocQuery.Path
import DocQuery.Pattern
import DocQuery.Query.Basic
import DocQuery.Query.Canonical
import DocQuery.Report.Csv
import DocQuery.Report.Render
import DocQuery.Report.Table
import DocQuery.Selection.Arrangement
import DocQuery.Selection.Local
import DocQuery.Selection.Plan
import DocQuery.Settings.Basic
import DocQuery.Settings.Document
import DocQuery.Settings.Environment
import DocQuery.Settings.Load
import DocQuery.Settings.Override
import DocQuery.Store.Basic
import DocQuery.Store.Document
import DocQuery.Store.Documents
import DocQuery.Store.Request
import DocQuery.Text.Blank
import DocQuery.Text.Case
import DocQuery.Text.Letter
import DocQuery.Text.Quoted
import DocQuery.Text.Split
import DocQuery.Toml.Quoted
import DocQuery.Toml.Read
import DocQuery.Toml.Scalar
import DocQuery.Toml.Table
import DocQuery.Value.Basic
import DocQuery.Value.Json
import DocQuery.Value.Order
import DocQuery.Proofs.Number.Nearest
import DocQuery.Proofs.Number.Numeral
import DocQuery.Proofs.Grammar.Scan
import DocQuery.Proofs.Grammar.Reads
import DocQuery.Proofs.Query.WellFormed
import DocQuery.Proofs.Query.Tokens
import DocQuery.Proofs.Query.RoundTrip
import DocQuery.Proofs.Value.Order
import DocQuery.Proofs.Execution.Access
import DocQuery.Proofs.Store.Ranking
import DocQuery.Proofs.Selection.Paging
import DocQuery.Proofs.Selection.Ordering
import DocQuery.Proofs.Store.Writes
import DocQuery.Proofs.Execution.Reachable
import DocQuery.Proofs.Execution.Mutation
import DocQuery.Proofs.Value.Fields
import DocQuery.Proofs.Document.Leaves
import DocQuery.Proofs.Selection.Verdicts
import DocQuery.Proofs.Execution.Failure
import DocQuery.Proofs.Selection.Labels
import DocQuery.Proofs.Grammar.Completeness
import DocQuery.Proofs.Execution.Explanation
import DocQuery.Proofs.Execution.ClauseOrder
import DocQuery.Proofs.Execution.Addresses
import DocQuery.Proofs.Execution.Insertion
import DocQuery.Proofs.Grammar.Coverage
import DocQuery.Proofs.Execution.Groups
import DocQuery.Proofs.Execution.Limits
import DocQuery.Proofs.Document.Merge
import DocQuery.Proofs.Document.Setters
import DocQuery.Proofs.Document.Associativity
import DocQuery.Proofs.Document.FieldOrder
import DocQuery.Proofs.Document.Readers
import DocQuery.Proofs.Document.Updating
import DocQuery.Proofs.Selection.Classes
import DocQuery.Proofs.Selection.Buckets
import DocQuery.Proofs.Selection.Distinct
import DocQuery.Proofs.Selection.Partition
import DocQuery.Proofs.Number.Rounding
import DocQuery.Proofs.Selection.Kept
import DocQuery.Proofs.Execution.Integers
import DocQuery.Proofs.Document.Flattening
import DocQuery.Proofs.Selection.Patterns
import DocQuery.Proofs.Execution.Patterns
import DocQuery.Proofs.Report.Reader
import DocQuery.Proofs.Report.Table
import DocQuery.Proofs.Text.Case
import DocQuery.Proofs.Grammar.Layout
import DocQuery.Proofs.Grammar.Places
import DocQuery.Proofs.Grammar.Faults
import DocQuery.Proofs.Grammar.Numbers
import DocQuery.Proofs.Execution.Collections
import DocQuery.Proofs.Grammar.Checking
import DocQuery.Proofs.Output.Paths
import DocQuery.Proofs.Selection.Comparisons
import DocQuery.Proofs.Document.MergeLaws
import DocQuery.Proofs.Execution.Updates
import DocQuery.Proofs.Grammar.Causes
import DocQuery.Proofs.Execution.Defences
import DocQuery.Proofs.Toml.Tables
import DocQuery.Proofs.Toml.Documents
import DocQuery.Proofs.Settings.Environment
import DocQuery.Proofs.Settings.Override
import DocQuery.Proofs.Settings.Precedence
