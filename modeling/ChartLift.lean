import ChartLift.Cache.Basic
import ChartLift.Cache.Policy
import ChartLift.Chart.Basic
import ChartLift.Chart.Loading
import ChartLift.Chart.Name
import ChartLift.Chart.Saving
import ChartLift.Cli.Arguments
import ChartLift.Cli.BuildInfo
import ChartLift.Cli.Session
import ChartLift.Config.Basic
import ChartLift.Config.Reading
import ChartLift.Digest.Sha256
import ChartLift.Extraction.Application
import ChartLift.Extraction.Failure
import ChartLift.Extraction.Report
import ChartLift.Extraction.Rule
import ChartLift.Extraction.Run
import ChartLift.Extraction.Store
import ChartLift.Files.Path
import ChartLift.Files.Tree
import ChartLift.Glob.Matching
import ChartLift.Glob.Pattern
import ChartLift.Glob.Set
import ChartLift.KeyTemplate.Basic
import ChartLift.KeyTemplate.Reading
import ChartLift.Log.Basic
import ChartLift.Log.Filter
import ChartLift.Main
import ChartLift.Manifest.Basic
import ChartLift.Number.Double
import ChartLift.Number.Layout
import ChartLift.Number.Power
import ChartLift.Number.Shortest
import ChartLift.Path.Basic
import ChartLift.Path.Reading
import ChartLift.Proofs.Cache.Entries
import ChartLift.Proofs.Chart.Files
import ChartLift.Proofs.Extraction.Accounts
import ChartLift.Proofs.Extraction.Application
import ChartLift.Proofs.Extraction.Entries
import ChartLift.Proofs.Extraction.Exclusive
import ChartLift.Proofs.Extraction.Isolation
import ChartLift.Proofs.Extraction.Move
import ChartLift.Proofs.Extraction.Order
import ChartLift.Proofs.Extraction.Orphans
import ChartLift.Proofs.Extraction.References
import ChartLift.Proofs.Extraction.Rendered
import ChartLift.Proofs.Extraction.Rerun
import ChartLift.Proofs.Extraction.Run
import ChartLift.Proofs.Extraction.Store
import ChartLift.Proofs.Extraction.Turn
import ChartLift.Proofs.Files.Path
import ChartLift.Proofs.Files.Tree
import ChartLift.Proofs.Path.Canonical
import ChartLift.Proofs.Rewrite.Bracket
import ChartLift.Proofs.Rewrite.Clash
import ChartLift.Proofs.Rewrite.Following
import ChartLift.Proofs.Rewrite.Located
import ChartLift.Proofs.Rewrite.Match
import ChartLift.Proofs.Rewrite.Plan
import ChartLift.Proofs.Rewrite.Span
import ChartLift.Proofs.Rewrite.Walk
import ChartLift.Proofs.Run.Again
import ChartLift.Proofs.Run.InPlace
import ChartLift.Proofs.Text.Split
import ChartLift.Proofs.Text.Utf8
import ChartLift.Proofs.ValuesTree.Insertion
import ChartLift.Proofs.Yaml.Content.Cost
import ChartLift.Proofs.Yaml.Content.Exchange
import ChartLift.Proofs.Yaml.Content.Fetch
import ChartLift.Proofs.Yaml.Content.Meaning
import ChartLift.Proofs.Yaml.Content.Node
import ChartLift.Proofs.Yaml.Content.Passage
import ChartLift.Proofs.Yaml.Content.Replaceable
import ChartLift.Proofs.Yaml.Content.Run
import ChartLift.Proofs.Yaml.Content.Scalar
import ChartLift.Proofs.Yaml.Content.Tag
import ChartLift.Proofs.Yaml.Content.Twin
import ChartLift.Proofs.Yaml.Events
import ChartLift.Proofs.Yaml.Grammar
import ChartLift.Proofs.Yaml.Layout
import ChartLift.Proofs.Yaml.Machine
import ChartLift.Proofs.Yaml.Swap
import ChartLift.Rewrite.Match
import ChartLift.Rewrite.Patch
import ChartLift.Rewrite.Walk
import ChartLift.Run.Basic
import ChartLift.Run.Fault
import ChartLift.Run.Reporting
import ChartLift.Run.Summary
import ChartLift.Run.Templates
import ChartLift.Text.Blank
import ChartLift.Text.Hidden
import ChartLift.Text.Integer
import ChartLift.Text.Letter
import ChartLift.Text.Quoted
import ChartLift.Text.Ranges
import ChartLift.Text.Split
import ChartLift.Text.Utf8
import ChartLift.TextPattern.Basic
import ChartLift.TextPattern.Reading
import ChartLift.Toml.Document
import ChartLift.Toml.Term
import ChartLift.Toml.Text
import ChartLift.Value.Basic
import ChartLift.Value.Json
import ChartLift.Value.Location
import ChartLift.ValuesTree.Basic
import ChartLift.Yaml.Block.Document
import ChartLift.Yaml.Block.Scalar
import ChartLift.Yaml.Content.Datum
import ChartLift.Yaml.Content.Lexer
import ChartLift.Yaml.Content.Node
import ChartLift.Yaml.Content.Resolution
import ChartLift.Yaml.Content.Scalar
import ChartLift.Yaml.Content.Token
import ChartLift.Yaml.Content.Value
import ChartLift.Yaml.Cursor
import ChartLift.Yaml.Event
import ChartLift.Yaml.Grammar
import ChartLift.Yaml.Layout.Lexer
import ChartLift.Yaml.Layout.Node
import ChartLift.Yaml.Layout.Offsets
import ChartLift.Yaml.Layout.Scalar
import ChartLift.Yaml.Layout.Token
import ChartLift.Yaml.Token
import ChartLift.Proofs.Run.Untouched
import ChartLift.Proofs.Run.Values
import ChartLift.Proofs.Cache.Race
import ChartLift.Proofs.Glob.Directory
import ChartLift.Proofs.Run.Skipped
import ChartLift.Proofs.Extraction.Lenient
import ChartLift.Proofs.Run.Stages
import ChartLift.Proofs.Run.Stopped
import ChartLift.Proofs.Run.Elsewhere
import ChartLift.Proofs.Chart.Concurrence
import ChartLift.Proofs.Run.Transparent
import ChartLift.Proofs.Text.Integer
import ChartLift.Proofs.Text.Trim
import ChartLift.Proofs.Path.Grammar
import ChartLift.Proofs.Path.RoundTrip
import ChartLift.Proofs.Value.Location
import ChartLift.Proofs.Rewrite.Grown
import ChartLift.Proofs.ValuesTree.Ordered
import ChartLift.Proofs.ValuesTree.Growth
import ChartLift.Proofs.ValuesTree.Refusal
import ChartLift.Proofs.Extraction.History
import ChartLift.Proofs.KeyTemplate.Segmentation
import ChartLift.Proofs.KeyTemplate.Acceptance
import ChartLift.Proofs.KeyTemplate.Tokens
import ChartLift.Proofs.KeyTemplate.Literal
import ChartLift.Proofs.KeyTemplate.Command
import ChartLift.Proofs.KeyTemplate.Pipe
import ChartLift.Proofs.KeyTemplate.Progress
import ChartLift.Proofs.Rewrite.Collector
import ChartLift.Proofs.Extraction.Characters
import ChartLift.Proofs.Rewrite.Indicator
import ChartLift.Proofs.Rewrite.Checked
import ChartLift.Proofs.Rewrite.Extent
import ChartLift.Proofs.Yaml.Encoding
import ChartLift.Proofs.Yaml.Building
import ChartLift.Proofs.Yaml.Nesting
import ChartLift.Proofs.Yaml.KeyEnd
import ChartLift.Proofs.Rewrite.Visits
import ChartLift.Proofs.Yaml.Offsets
