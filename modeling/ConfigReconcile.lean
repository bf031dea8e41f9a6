import ConfigReconcile.Backup.Cycle
import ConfigReconcile.Backup.Instant
import ConfigReconcile.Backup.Layout
import ConfigReconcile.Backup.SaveKind
import ConfigReconcile.Calendar
import ConfigReconcile.Decimal.Binary64
import ConfigReconcile.Decimal.Notation
import ConfigReconcile.Decimal.Numeral
import ConfigReconcile.Decimal.Shortest
import ConfigReconcile.Decimal.Word
import ConfigReconcile.Document.Basic
import ConfigReconcile.Document.FromJson
import ConfigReconcile.Document.Merge
import ConfigReconcile.Document.Reading
import ConfigReconcile.Document.Render
import ConfigReconcile.Host.Basic
import ConfigReconcile.Host.Command
import ConfigReconcile.Host.Time
import ConfigReconcile.Json.Reader
import ConfigReconcile.Json.Value
import ConfigReconcile.Proofs.Backup.Chronology
import ConfigReconcile.Proofs.Backup.Footprint
import ConfigReconcile.Proofs.Backup.History
import ConfigReconcile.Proofs.Backup.Retention
import ConfigReconcile.Proofs.Backup.Stamps
import ConfigReconcile.Proofs.Backup.Strays
import ConfigReconcile.Proofs.Decimal.Rounding
import ConfigReconcile.Proofs.Decimal.Shortest
import ConfigReconcile.Proofs.Decimal.Spelling
import ConfigReconcile.Proofs.Document.Characters
import ConfigReconcile.Proofs.Document.Emptiness
import ConfigReconcile.Proofs.Document.Entries
import ConfigReconcile.Proofs.Document.Layout
import ConfigReconcile.Proofs.Document.Loaded
import ConfigReconcile.Proofs.Document.Pruned
import ConfigReconcile.Proofs.Document.Reload
import ConfigReconcile.Proofs.Document.Reordering
import ConfigReconcile.Proofs.Document.Reread
import ConfigReconcile.Proofs.Document.RoundTrip
import ConfigReconcile.Proofs.Document.Syntax
import ConfigReconcile.Proofs.Document.Tree
import ConfigReconcile.Proofs.Document.Unambiguous
import ConfigReconcile.Proofs.Merge.Fields
import ConfigReconcile.Proofs.Merge.Idempotence
import ConfigReconcile.Proofs.Merge.Order
import ConfigReconcile.Proofs.Merge.Places
import ConfigReconcile.Proofs.Merge.Tombstones
import ConfigReconcile.Proofs.Reconcile.Effects
import ConfigReconcile.Proofs.Reconcile.Elsewhere
import ConfigReconcile.Proofs.Reconcile.Promotion
import ConfigReconcile.Proofs.Reconcile.Table
import ConfigReconcile.Proofs.Scheduler.Acts
import ConfigReconcile.Proofs.Scheduler.Commands
import ConfigReconcile.Proofs.Scheduler.Conservation
import ConfigReconcile.Proofs.Scheduler.Course
import ConfigReconcile.Proofs.Scheduler.Debounce
import ConfigReconcile.Proofs.Scheduler.Exclusion
import ConfigReconcile.Proofs.Scheduler.Indifference
import ConfigReconcile.Proofs.Scheduler.Inert
import ConfigReconcile.Proofs.Scheduler.NoLoss
import ConfigReconcile.Proofs.Scheduler.Rest
import ConfigReconcile.Proofs.Scheduler.Session
import ConfigReconcile.Proofs.Scheduler.Timetable
import ConfigReconcile.Proofs.Scheduler.Turns
import ConfigReconcile.Proofs.Scheduler.Veiled
import ConfigReconcile.Proofs.Settings.Loading
import ConfigReconcile.Proofs.Settings.Revision
import ConfigReconcile.Proofs.Store.Catalogue
import ConfigReconcile.Proofs.Store.Directories
import ConfigReconcile.Proofs.Text.Literal
import ConfigReconcile.Proofs.Text.Quoted
import ConfigReconcile.Proofs.Text.Utf8
import ConfigReconcile.Proofs.Yaml.Blocks
import ConfigReconcile.Proofs.Yaml.Expansion
import ConfigReconcile.Proofs.Yaml.Floats
import ConfigReconcile.Proofs.Yaml.Parts
import ConfigReconcile.Proofs.Yaml.Progress
import ConfigReconcile.Proofs.Yaml.Scalars
import ConfigReconcile.Proofs.Yaml.Steps
import ConfigReconcile.Proofs.Yaml.Types
import ConfigReconcile.Reconcile
import ConfigReconcile.Scheduler.Basic
import ConfigReconcile.Scheduler.Worker
import ConfigReconcile.Settings.Basic
import ConfigReconcile.Settings.Environment
import ConfigReconcile.Settings.File
import ConfigReconcile.Settings.Format
import ConfigReconcile.Settings.Json
import ConfigReconcile.Settings.Toml
import ConfigReconcile.Settings.Validation
import ConfigReconcile.Settings.Yaml
import ConfigReconcile.Store.Basic
import ConfigReconcile.Store.Disk
import ConfigReconcile.Store.Error
import ConfigReconcile.Store.Files
import ConfigReconcile.Store.Guarded
import ConfigReconcile.Store.Memory
import ConfigReconcile.Store.Path
import ConfigReconcile.Text.Blank
import ConfigReconcile.Text.Literal
import ConfigReconcile.Text.Lower
import ConfigReconcile.Text.Pieces
import ConfigReconcile.Text.Quoted
import ConfigReconcile.Text.Utf8
import ConfigReconcile.Toml.Reader
import ConfigReconcile.Toml.Table
import ConfigReconcile.Toml.Value
import ConfigReconcile.Yaml.Char
import ConfigReconcile.Yaml.Fault
import ConfigReconcile.Yaml.Printer
import ConfigReconcile.Yaml.Token
import ConfigReconcile.Yaml.Token.Block
import ConfigReconcile.Yaml.Token.Plain
import ConfigReconcile.Yaml.Token.Quoted
import ConfigReconcile.Yaml.Token.Scanner
import ConfigReconcile.Yaml.Token.Tag
import ConfigReconcile.Yaml.Tree.Assembly
import ConfigReconcile.Yaml.Tree.Basic
import ConfigReconcile.Yaml.Tree.Links
import ConfigReconcile.Yaml.Value
