import CachedRoutes.Code.Bracket
import CachedRoutes.Code.Chain
import CachedRoutes.Code.Input
import CachedRoutes.Code.Invocation
import CachedRoutes.Code.Span
import CachedRoutes.Code.Trivia
import CachedRoutes.Codemod
import CachedRoutes.Command.Apply
import CachedRoutes.Command.Arguments
import CachedRoutes.Command.Init
import CachedRoutes.Command.Run
import CachedRoutes.Command.Session
import CachedRoutes.Command.ShowPolicy
import CachedRoutes.Discovery
import CachedRoutes.Disk.Files
import CachedRoutes.Disk.Tree
import CachedRoutes.Eligibility
import CachedRoutes.Failure
import CachedRoutes.Import.Ensure
import CachedRoutes.Import.Statement
import CachedRoutes.Json
import CachedRoutes.Main
import CachedRoutes.Path
import CachedRoutes.Policy.Basic
import CachedRoutes.Policy.Catalog
import CachedRoutes.Query.Find
import CachedRoutes.Query.Head
import CachedRoutes.Query.Key
import CachedRoutes.Query.Shape
import CachedRoutes.Query.Wrap
import CachedRoutes.Report.Summary
import CachedRoutes.Report.Timestamp
import CachedRoutes.Route
import CachedRoutes.Settings.Basic
import CachedRoutes.Settings.Check
import CachedRoutes.Settings.Toml
import CachedRoutes.Text.Basic
import CachedRoutes.Text.Blank
import CachedRoutes.Text.Word
import CachedRoutes.Toml.Document
import CachedRoutes.Toml.Marked
import CachedRoutes.Toml.Moment
import CachedRoutes.Toml.Overlay
import CachedRoutes.Toml.Printer
import CachedRoutes.Toml.Quoted
import CachedRoutes.Toml.Scalar
import CachedRoutes.Toml.Tree
import CachedRoutes.Toml.Value
import CachedRoutes.Proofs.Lists
import CachedRoutes.Proofs.Eligibility.Handler
import CachedRoutes.Proofs.Import.Extend
import CachedRoutes.Proofs.Import.Ensure
import CachedRoutes.Proofs.Code.Trivia
import CachedRoutes.Proofs.Query.Match
import CachedRoutes.Proofs.Query.Wrap
import CachedRoutes.Proofs.Settings.Check
import CachedRoutes.Proofs.Codemod.Idempotence
import CachedRoutes.Proofs.Code.Bracket
import CachedRoutes.Proofs.Code.Input
import CachedRoutes.Proofs.Query.Keyed
import CachedRoutes.Proofs.Query.Prebuilt
import CachedRoutes.Proofs.Code.Literal
import CachedRoutes.Proofs.Query.KeyLiteral
import CachedRoutes.Proofs.Query.KeyValue
import CachedRoutes.Proofs.Codemod.Progress
import CachedRoutes.Proofs.Code.Invocation
import CachedRoutes.Proofs.Import.Calls
import CachedRoutes.Proofs.Codemod.Label
import CachedRoutes.Proofs.Code.Span
import CachedRoutes.Proofs.Query.InCode
import CachedRoutes.Proofs.Import.Listed
import CachedRoutes.Proofs.Codemod.Declared
import CachedRoutes.Proofs.Query.LocalEdit
import CachedRoutes.Proofs.Code.Chain
import CachedRoutes.Proofs.Query.ReadOnly
import CachedRoutes.Proofs.Codemod.LineEnd
import CachedRoutes.Proofs.Bytes.Place
import CachedRoutes.Proofs.Bytes.Scan
import CachedRoutes.Proofs.Bytes.Chain
import CachedRoutes.Proofs.Bytes.Input
import CachedRoutes.Proofs.Bytes.Run
import CachedRoutes.Proofs.Toml.Table
import CachedRoutes.Proofs.Toml.Overlay
import CachedRoutes.Proofs.Report.Summary
import CachedRoutes.Proofs.Disk.Recorded
import CachedRoutes.Proofs.Command.Batch
import CachedRoutes.Proofs.Disk.Tree
import CachedRoutes.Proofs.Command.Effect
import CachedRoutes.Proofs.Toml.Quoted
import CachedRoutes.Proofs.Toml.Scalar
import CachedRoutes.Proofs.Toml.Statement
import CachedRoutes.Proofs.Toml.Tree
import CachedRoutes.Proofs.Toml.Document
import CachedRoutes.Proofs.Toml.Restored
import CachedRoutes.Proofs.Settings.Toml
import CachedRoutes.Proofs.Settings.Shown
import CachedRoutes.Proofs.Code.StatementEnd
import CachedRoutes.Proofs.Query.Ending
import CachedRoutes.Proofs.Code.Reader
import CachedRoutes.Proofs.Query.Parameter
import CachedRoutes.Proofs.Code.Inside
import CachedRoutes.Proofs.Import.Edit
import CachedRoutes.Proofs.Disk.Ancestor
import CachedRoutes.Proofs.Disk.Component
import CachedRoutes.Proofs.Disk.Spelling
import CachedRoutes.Proofs.Command.LocalSettings
import CachedRoutes.Proofs.Codemod.Eligible
import CachedRoutes.Proofs.Code.Printed
import CachedRoutes.Proofs.Query.Recognised
import CachedRoutes.Proofs.Import.Items
import CachedRoutes.Proofs.Import.Anchored
import CachedRoutes.Proofs.Import.Once
import CachedRoutes.Proofs.Bytes.Order
import CachedRoutes.Proofs.Route.Segment
import CachedRoutes.Proofs.Policy.Table
import CachedRoutes.Proofs.Policy.Resolve
import CachedRoutes.Proofs.Code.Template
import CachedRoutes.Proofs.Policy.Inferred
import CachedRoutes.Proofs.Route.Normal
import CachedRoutes.Proofs.Report.Forms
import CachedRoutes.Proofs.Discovery.Order
import CachedRoutes.Proofs.Disk.Below
import CachedRoutes.Proofs.Discovery.Found
import CachedRoutes.Proofs.Code.Grammar
import CachedRoutes.Proofs.Code.Segment
import CachedRoutes.Proofs.Code.Matching
import CachedRoutes.Proofs.Bytes.Exact
import CachedRoutes.Proofs.Import.Kept
