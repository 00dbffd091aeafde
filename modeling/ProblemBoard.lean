import ProblemBoard.Collect.Basic
import ProblemBoard.Collect.Filters
import ProblemBoard.Collect.Normal
import ProblemBoard.CommandLine.Arguments
import ProblemBoard.CommandLine.Help
import ProblemBoard.CommandLine.Host
import ProblemBoard.CommandLine.Report
import ProblemBoard.CommandLine.Snapshot
import ProblemBoard.CommandLine.Transcript
import ProblemBoard.Exclude.Matcher
import ProblemBoard.Exclude.Pattern
import ProblemBoard.Exclude.Regex
import ProblemBoard.FileSystem.Basic
import ProblemBoard.FileSystem.Image
import ProblemBoard.Finding.Basic
import ProblemBoard.Finding.CompilerText
import ProblemBoard.Finding.LintReport
import ProblemBoard.Json.Encode
import ProblemBoard.Json.Number
import ProblemBoard.Json.Printer
import ProblemBoard.Json.Reader
import ProblemBoard.Json.Value
import ProblemBoard.Main
import ProblemBoard.Path.Basic
import ProblemBoard.Path.Label
import ProblemBoard.Path.Map
import ProblemBoard.Path.Order
import ProblemBoard.Path.Url
import ProblemBoard.Problem.Basic
import ProblemBoard.Problem.Range
import ProblemBoard.Problem.Severity
import ProblemBoard.Problem.Tally
import ProblemBoard.Producer.Basic
import ProblemBoard.Producer.Engine
import ProblemBoard.Producer.Launch
import ProblemBoard.Producer.Lint
import ProblemBoard.Producer.LiveStore
import ProblemBoard.Producer.TypeCheck
import ProblemBoard.Project.Basic
import ProblemBoard.Project.Framework
import ProblemBoard.Project.LintConfig
import ProblemBoard.Project.Manifest
import ProblemBoard.Project.Resolution
import ProblemBoard.Refresh.Board
import ProblemBoard.Refresh.Call
import ProblemBoard.Refresh.Cursor
import ProblemBoard.Refresh.Machine
import ProblemBoard.Refresh.Step
import ProblemBoard.Refresh.Timeline
import ProblemBoard.Settings.Basic
import ProblemBoard.Settings.Discovery
import ProblemBoard.Settings.Document
import ProblemBoard.Terminal.Change
import ProblemBoard.Terminal.Command
import ProblemBoard.Text.Blank
import ProblemBoard.Text.Digit
import ProblemBoard.Text.Lines
import ProblemBoard.Text.Split
import ProblemBoard.Text.Utf8
import ProblemBoard.Toml.Document
import ProblemBoard.Toml.Scalar
import ProblemBoard.Toml.Value
import ProblemBoard.View.Badge
import ProblemBoard.View.Grouping
import ProblemBoard.View.Mode
import ProblemBoard.View.Render
import ProblemBoard.View.Tree
import ProblemBoard.Proofs.Refresh.Run
import ProblemBoard.Proofs.Refresh.Work
import ProblemBoard.Proofs.Refresh.Workload
import ProblemBoard.Proofs.Refresh.SingleFlight
import ProblemBoard.Proofs.Refresh.Demand
import ProblemBoard.Proofs.Refresh.Basis
import ProblemBoard.Proofs.Refresh.Agreement
import ProblemBoard.Proofs.Refresh.Pause
import ProblemBoard.Proofs.View.Groups
import ProblemBoard.Proofs.View.Leaves
import ProblemBoard.Proofs.View.Arrangement
import ProblemBoard.Proofs.Refresh.Contents
import ProblemBoard.Proofs.Refresh.Badge
import ProblemBoard.Proofs.Refresh.Delivery
import ProblemBoard.Proofs.Refresh.Calls
import ProblemBoard.Proofs.Refresh.Newest
import ProblemBoard.Proofs.Refresh.Settled
import ProblemBoard.Proofs.Path.Entry
import ProblemBoard.Proofs.Project.Footprint
import ProblemBoard.Proofs.Refresh.Resolutions
import ProblemBoard.Proofs.Refresh.Playing
import ProblemBoard.Proofs.Refresh.Preferences
import ProblemBoard.Proofs.Text.Lines
import ProblemBoard.Proofs.Finding.LineForm
import ProblemBoard.Proofs.Finding.Reports
import ProblemBoard.Proofs.Finding.Printing
import ProblemBoard.Proofs.Finding.Continuations
import ProblemBoard.Proofs.Refresh.Coalescing
import ProblemBoard.Proofs.Refresh.Announcement
import ProblemBoard.Proofs.Collect.Shares
import ProblemBoard.Proofs.Collect.Isolation
import ProblemBoard.Proofs.CommandLine.Status
import ProblemBoard.Proofs.Exclude.Acceptance
import ProblemBoard.Proofs.Exclude.Expressions
import ProblemBoard.Proofs.Exclude.Segments
import ProblemBoard.Proofs.Exclude.Directories
import ProblemBoard.Proofs.Project.LintFormat
import ProblemBoard.Proofs.Collect.Filtering
import ProblemBoard.Proofs.Project.Classification
import ProblemBoard.Proofs.View.RuleLabels
import ProblemBoard.Proofs.Collect.WellFormed
import ProblemBoard.Proofs.Finding.Conservation
import ProblemBoard.Proofs.Path.Components
import ProblemBoard.Proofs.View.FileLabels
import ProblemBoard.Proofs.Path.Relocation
import ProblemBoard.Proofs.Collect.Relocation
import ProblemBoard.Proofs.View.Relocation
import ProblemBoard.Proofs.View.Rendering
import ProblemBoard.Proofs.Refresh.Marking
import ProblemBoard.Proofs.Terminal.Batches
import ProblemBoard.Proofs.FileSystem.Nesting
import ProblemBoard.Proofs.Producer.Location
import ProblemBoard.Proofs.View.Layout
import ProblemBoard.Proofs.Project.Selection
import ProblemBoard.Proofs.Finding.LintFindings
import ProblemBoard.Proofs.View.Regrouping
import ProblemBoard.Proofs.Refresh.Notices
import ProblemBoard.Proofs.Producer.LastWrite
import ProblemBoard.Proofs.Refresh.Walk
import ProblemBoard.Proofs.Refresh.Shutdown
