import SourceScan.Assoc
import SourceScan.Calendar.Date
import SourceScan.Calendar.DateTime
import SourceScan.Command.Arguments
import SourceScan.Command.Markup
import SourceScan.Command.Run
import SourceScan.Disk.Basic
import SourceScan.Disk.Resolve
import SourceScan.Disk.Tree
import SourceScan.Glob.Braces
import SourceScan.Glob.Pattern
import SourceScan.IgnoreFile
import SourceScan.Json.Reader
import SourceScan.Json.Writer
import SourceScan.Language.Basic
import SourceScan.Language.Defaults
import SourceScan.Language.Extract
import SourceScan.Language.Registry
import SourceScan.Language.Table
import SourceScan.Main
import SourceScan.Number.Binary64
import SourceScan.Number.Numeral
import SourceScan.Number.Shortest
import SourceScan.Path
import SourceScan.Regex.Basic
import SourceScan.Regex.Matcher
import SourceScan.Regex.Parser
import SourceScan.Report.Artifact
import SourceScan.Report.Basic
import SourceScan.Report.Document
import SourceScan.Rule.Basic
import SourceScan.Rule.Match
import SourceScan.Scan.Error
import SourceScan.Scan.Plan
import SourceScan.Scan.Project
import SourceScan.Scan.Scanner
import SourceScan.Scan.Session
import SourceScan.Scan.Walk
import SourceScan.Settings.Basic
import SourceScan.Settings.Environment
import SourceScan.Settings.Load
import SourceScan.Settings.Save
import SourceScan.Text.Basic
import SourceScan.Text.Blank
import SourceScan.Text.Case
import SourceScan.Text.Quoted
import SourceScan.Text.Range
import SourceScan.Text.Unit
import SourceScan.Text.Utf8
import SourceScan.Text.Word
import SourceScan.Value
import SourceScan.Value.Use
import SourceScan.Watch.Agenda
import SourceScan.Watch.Debouncer
import SourceScan.Watch.Event
import SourceScan.Watch.Run
import SourceScan.Watch.Service
import SourceScan.Watch.Timeline
import SourceScan.Watch.Watcher
import SourceScan.Yaml.Cursor
import SourceScan.Yaml.Document
import SourceScan.Yaml.Lexer
import SourceScan.Yaml.Node
import SourceScan.Yaml.Pen
import SourceScan.Yaml.Scalar
import SourceScan.Yaml.Schema
import SourceScan.Yaml.Style
import SourceScan.Yaml.Token
import SourceScan.Yaml.Values
import SourceScan.Yaml.Writer
import SourceScan.Proofs.Steps
import SourceScan.Proofs.Path
import SourceScan.Proofs.Disk.Lookup
import SourceScan.Proofs.Disk.Reach
import SourceScan.Proofs.Disk.Change
import SourceScan.Proofs.Disk.LinkFree
import SourceScan.Proofs.Disk.Twins
import SourceScan.Proofs.Rule.Spelling
import SourceScan.Proofs.Report.Delivery
import SourceScan.Proofs.Walk.Prepared
import SourceScan.Proofs.Walk.Sight
import SourceScan.Proofs.Walk.Traversal
import SourceScan.Proofs.Walk.Order
import SourceScan.Proofs.Walk.Visited
import SourceScan.Proofs.Walk.Course
import SourceScan.Proofs.Walk.Enters
import SourceScan.Proofs.Walk.Meeting
import SourceScan.Proofs.Walk.Report
import SourceScan.Proofs.Walk.Budget
import SourceScan.Proofs.Walk.Records
import SourceScan.Proofs.Walk.Faults
import SourceScan.Proofs.Walk.Confinement
import SourceScan.Proofs.Walk.OwnOutput
import SourceScan.Proofs.Walk.Twins
import SourceScan.Proofs.Walk.Inside
import SourceScan.Proofs.Walk.Clock
import SourceScan.Proofs.Scan.Scanner
import SourceScan.Proofs.Watch.Filter
import SourceScan.Proofs.Watch.Output
import SourceScan.Proofs.Watch.Start
import SourceScan.Proofs.Scan.Slot
import SourceScan.Proofs.Watch.Interleaving
import SourceScan.Proofs.Watch.Lifecycle
import SourceScan.Proofs.Watch.Quiet
import SourceScan.Proofs.Watch.Pending
import SourceScan.Proofs.Watch.Timeline
import SourceScan.Proofs.Walk.Artifact
import SourceScan.Proofs.Walk.DirectoryRule
import SourceScan.Proofs.Disk.Recast
import SourceScan.Proofs.Disk.Replace
import SourceScan.Proofs.Disk.Written
import SourceScan.Proofs.Disk.Veil
import SourceScan.Proofs.Disk.Entry
import SourceScan.Proofs.Report.Redelivery
import SourceScan.Proofs.Report.Payload
import SourceScan.Proofs.Report.Mishap
import SourceScan.Proofs.Report.Effect
import SourceScan.Proofs.Report.Escape
import SourceScan.Proofs.Walk.Numbers
import SourceScan.Proofs.Scan.Repeat
import SourceScan.Proofs.Scan.Disclosure
import SourceScan.Proofs.Scan.Exclusion
import SourceScan.Proofs.Glob.Reading
import SourceScan.Proofs.Glob.Segments
import SourceScan.Proofs.Glob.Expansion
import SourceScan.Proofs.Glob.Choice
import SourceScan.Proofs.Glob.Meaning
import SourceScan.Proofs.Glob.Shape
import SourceScan.Proofs.Rule.Normal
import SourceScan.Proofs.Rule.Below
import SourceScan.Proofs.Rule.Directory
import SourceScan.Proofs.Rule.Plain
import SourceScan.Proofs.Rule.Leads
import SourceScan.Proofs.Watch.Bursts
import SourceScan.Proofs.Watch.Coverage
import SourceScan.Proofs.Scan.Merge
import SourceScan.Proofs.Number.Exact
import SourceScan.Proofs.Walk.Deadline
import SourceScan.Proofs.Walk.Paths
import SourceScan.Proofs.Walk.Recursion
import SourceScan.Proofs.Scan.Crash
import SourceScan.Proofs.Walk.Stumble
import SourceScan.Proofs.Scan.Unprepared
import SourceScan.Proofs.Language.Claims
import SourceScan.Proofs.Language.Refusal
import SourceScan.Proofs.Language.Table
import SourceScan.Proofs.Number.Digits
import SourceScan.Proofs.Value
import SourceScan.Proofs.Json.String
import SourceScan.Proofs.Json.Grammar
import SourceScan.Proofs.Json.RoundTrip
import SourceScan.Proofs.Report.Reading
import SourceScan.Proofs.Json.Ascii
import SourceScan.Proofs.Yaml.Cursor
import SourceScan.Proofs.Yaml.Quoted
import SourceScan.Proofs.Yaml.Plain
import SourceScan.Proofs.Yaml.Tokens
import SourceScan.Proofs.Yaml.Block
import SourceScan.Proofs.Yaml.Scan
import SourceScan.Proofs.Yaml.Compose
import SourceScan.Proofs.Yaml.Clean
import SourceScan.Proofs.Yaml.Integer
import SourceScan.Proofs.Yaml.Pen.Runs
import SourceScan.Proofs.Yaml.Pen.Plain
import SourceScan.Proofs.Yaml.Pen.Single
import SourceScan.Proofs.Yaml.Pen.Double
import SourceScan.Proofs.Yaml.Pen.Scalar
import SourceScan.Proofs.Yaml.Pen.Collection
import SourceScan.Proofs.Yaml.Layout
import SourceScan.Proofs.Yaml.Meaning
import SourceScan.Proofs.Report.Agreement
import SourceScan.Proofs.Report.Counts
import SourceScan.Proofs.Settings.Typed
import SourceScan.Proofs.Settings.RoundTrip
import SourceScan.Proofs.Settings.Precedence
import SourceScan.Proofs.Language.Lines
import SourceScan.Proofs.Calendar.Ordinal
import SourceScan.Proofs.Calendar.Instant
import SourceScan.Proofs.Number.Row
import SourceScan.Proofs.Calendar.Stamp
