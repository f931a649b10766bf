import RailsUpgrade.Catalogue.Detections
import RailsUpgrade.Catalogue.Repairs
import RailsUpgrade.Command.Basic
import RailsUpgrade.FrameworkConfig
import RailsUpgrade.Gemfile
import RailsUpgrade.Glob.Basic
import RailsUpgrade.Main
import RailsUpgrade.Migration
import RailsUpgrade.Path.Braces
import RailsUpgrade.Path.Protected
import RailsUpgrade.Path.Relative
import RailsUpgrade.Project.Upgrade
import RailsUpgrade.Proofs.Accounting
import RailsUpgrade.Proofs.Built
import RailsUpgrade.Proofs.ClassText
import RailsUpgrade.Proofs.Encoding
import RailsUpgrade.Proofs.Endings
import RailsUpgrade.Proofs.Footprint
import RailsUpgrade.Proofs.GemLines
import RailsUpgrade.Proofs.Gemfile
import RailsUpgrade.Proofs.Glob
import RailsUpgrade.Proofs.Lines
import RailsUpgrade.Proofs.Matching
import RailsUpgrade.Proofs.OnLine
import RailsUpgrade.Proofs.Ordered
import RailsUpgrade.Proofs.Path
import RailsUpgrade.Proofs.Protected
import RailsUpgrade.Proofs.RailsPin
import RailsUpgrade.Proofs.Reading
import RailsUpgrade.Proofs.Relocate
import RailsUpgrade.Proofs.Repair
import RailsUpgrade.Proofs.Replacing
import RailsUpgrade.Proofs.Rerun
import RailsUpgrade.Proofs.Run
import RailsUpgrade.Proofs.SafeMode
import RailsUpgrade.Proofs.Scan
import RailsUpgrade.Proofs.Scores
import RailsUpgrade.Proofs.StockRepairs
import RailsUpgrade.Proofs.Stopped
import RailsUpgrade.Proofs.Tree
import RailsUpgrade.Proofs.Turns
import RailsUpgrade.Proofs.Upgrade
import RailsUpgrade.Relocation.Basic
import RailsUpgrade.Report.Json
import RailsUpgrade.Report.Terminal
import RailsUpgrade.Rule.Shelf
import RailsUpgrade.Settings.Load
import RailsUpgrade.Workspace
import RailsUpgrade.Yaml.Document
import RailsUpgrade.Proofs.Edits
import RailsUpgrade.Proofs.Jobs
import RailsUpgrade.Proofs.MoveWrites
import RailsUpgrade.Proofs.Moves
import RailsUpgrade.Proofs.Namespaces
import RailsUpgrade.Proofs.Resume
import RailsUpgrade.Proofs.FrameworkConfig
import RailsUpgrade.Proofs.Configs
import RailsUpgrade.Proofs.Stubs
import RailsUpgrade.Proofs.Headers
import RailsUpgrade.Proofs.Columns
import RailsUpgrade.Proofs.ColumnRules
import RailsUpgrade.Proofs.Timestamps
import RailsUpgrade.Proofs.ReleaseLine
import RailsUpgrade.Proofs.Migrations
import RailsUpgrade.Proofs.KeptTimestamps
import RailsUpgrade.Proofs.Withheld
import RailsUpgrade.Proofs.Analysis
import RailsUpgrade.Proofs.Framed
import RailsUpgrade.Proofs.StockSwaps
import RailsUpgrade.Proofs.Collections
import RailsUpgrade.Proofs.Settled
import RailsUpgrade.Proofs.Coverage
import RailsUpgrade.Proofs.SafeRules
import RailsUpgrade.Proofs.DryRun
import RailsUpgrade.Proofs.Frame
import RailsUpgrade.Proofs.Malformed
import RailsUpgrade.Proofs.Absent
import RailsUpgrade.Proofs.Extensions
import RailsUpgrade.Proofs.Raising
import RailsUpgrade.Proofs.ConfigReports
import RailsUpgrade.Proofs.GemCalls
import RailsUpgrade.Proofs.GemEdits
import RailsUpgrade.Proofs.GemfileReports
import RailsUpgrade.Proofs.Reports
import RailsUpgrade.Proofs.Rearranged
import RailsUpgrade.Proofs.LeftReferences
import RailsUpgrade.Proofs.Qualified
import RailsUpgrade.Proofs.Extracted
import RailsUpgrade.Proofs.Unsupported
import RailsUpgrade.Proofs.CommentedCalls
import RailsUpgrade.Proofs.DetectedVersion
import RailsUpgrade.Proofs.Finders
import RailsUpgrade.Proofs.PlainScan
import RailsUpgrade.Proofs.ActiveSettings
import RailsUpgrade.Proofs.DoubledOptions
import RailsUpgrade.Proofs.SecondRun
import RailsUpgrade.Proofs.Places
import RailsUpgrade.Proofs.Braces
import RailsUpgrade.Proofs.Constraints
import RailsUpgrade.Proofs.Utf8
import RailsUpgrade.Proofs.RoundTrip
import RailsUpgrade.Proofs.JsonText
import RailsUpgrade.Proofs.ChangedFiles
import RailsUpgrade.Proofs.Layout
import RailsUpgrade.Proofs.NormalForm
import RailsUpgrade.Proofs.TargetVersion
import RailsUpgrade.Proofs.DetectedRelease
import RailsUpgrade.Proofs.Untouched
import RailsUpgrade.Proofs.ReleaseFiles
import RailsUpgrade.Proofs.SteadyTarget
