import TaintScan.Analysis.Detection
import TaintScan.Analysis.Engine
import TaintScan.Analysis.Rule
import TaintScan.Analysis.Site
import TaintScan.Analysis.Verify
import TaintScan.Breakdown
import TaintScan.Candidate.Basic
import TaintScan.Candidate.State
import TaintScan.Decimal.Shortest
import TaintScan.Document
import TaintScan.Error
import TaintScan.FilePath
import TaintScan.FileTree
import TaintScan.Files
import TaintScan.Id
import TaintScan.Json.Decode
import TaintScan.Json.Numeral
import TaintScan.Json.Reader
import TaintScan.Json.Tree
import TaintScan.Json.Value
import TaintScan.Limits
import TaintScan.Location
import TaintScan.Markup.Attributes
import TaintScan.Markup.Entity
import TaintScan.Markup.Event
import TaintScan.Markup.Fault
import TaintScan.Markup.Fragment
import TaintScan.Name.Basic
import TaintScan.Name.Qualified
import TaintScan.OrderedMap
import TaintScan.Output.Parser
import TaintScan.Output.Path
import TaintScan.Output.Tree
import TaintScan.Plan.Basic
import TaintScan.Plan.Generation
import TaintScan.Plan.Modify
import TaintScan.Plan.Persisted
import TaintScan.Proofs.Analysis.Coverage
import TaintScan.Proofs.Analysis.DocumentOrder
import TaintScan.Proofs.Analysis.Echo
import TaintScan.Proofs.Analysis.FirstMatch
import TaintScan.Proofs.Analysis.Payload
import TaintScan.Proofs.Analysis.Provenance
import TaintScan.Proofs.Analysis.Relocating
import TaintScan.Proofs.Analysis.Relocation
import TaintScan.Proofs.Analysis.Removal
import TaintScan.Proofs.Analysis.Verification
import TaintScan.Proofs.Candidate
import TaintScan.Proofs.Document.Completeness
import TaintScan.Proofs.Document.Delivery
import TaintScan.Proofs.Document.Readback
import TaintScan.Proofs.Document.SingleDifference
import TaintScan.Proofs.Document.Totality
import TaintScan.Proofs.Document.WellFormed
import TaintScan.Proofs.Document.Writing
import TaintScan.Proofs.FilePath
import TaintScan.Proofs.Json.Decoding
import TaintScan.Proofs.Json.Nesting
import TaintScan.Proofs.Json.Readback
import TaintScan.Proofs.Json.Scalar
import TaintScan.Proofs.Location
import TaintScan.Proofs.Markup.Attributes
import TaintScan.Proofs.Markup.Balance
import TaintScan.Proofs.Markup.Containment
import TaintScan.Proofs.Markup.Entity
import TaintScan.Proofs.Markup.Front
import TaintScan.Proofs.Markup.Grammar
import TaintScan.Proofs.Markup.Mark
import TaintScan.Proofs.Markup.References
import TaintScan.Proofs.Markup.Tag
import TaintScan.Proofs.Name
import TaintScan.Proofs.Name.Clark
import TaintScan.Proofs.OrderedMap
import TaintScan.Proofs.Outcome
import TaintScan.Proofs.Output.Decoding
import TaintScan.Proofs.Output.Editing
import TaintScan.Proofs.Output.Listing
import TaintScan.Proofs.Output.Outline
import TaintScan.Proofs.Output.Void
import TaintScan.Proofs.Plan.Arrangement
import TaintScan.Proofs.Plan.Ceiling
import TaintScan.Proofs.Plan.Conformance
import TaintScan.Proofs.Plan.Depth
import TaintScan.Proofs.Plan.Editing
import TaintScan.Proofs.Plan.Expansion
import TaintScan.Proofs.Plan.Fitting
import TaintScan.Proofs.Plan.Growing
import TaintScan.Proofs.Plan.NormalForm
import TaintScan.Proofs.Plan.Persistence
import TaintScan.Proofs.Plan.PinHistory
import TaintScan.Proofs.Plan.Pinning
import TaintScan.Proofs.Plan.Requested
import TaintScan.Proofs.Plan.Steps
import TaintScan.Proofs.Plan.Unrequested
import TaintScan.Proofs.Random.Choice
import TaintScan.Proofs.Random.Rejection
import TaintScan.Proofs.Random.Trial
import TaintScan.Proofs.Scan.Accounting
import TaintScan.Proofs.Scan.Completion
import TaintScan.Proofs.Scan.Confirmation
import TaintScan.Proofs.Scan.Interleaving
import TaintScan.Proofs.Scan.Schedule
import TaintScan.Proofs.Scan.Sequence
import TaintScan.Proofs.Scan.Tally
import TaintScan.Proofs.Scan.Termination
import TaintScan.Proofs.Schema.Cache
import TaintScan.Proofs.Schema.Check
import TaintScan.Proofs.Schema.Constraint
import TaintScan.Proofs.Schema.Folder
import TaintScan.Proofs.Schema.Index
import TaintScan.Proofs.Schema.Lookup
import TaintScan.Proofs.Schema.Names
import TaintScan.Proofs.Schema.Persistence
import TaintScan.Proofs.Taint.Breakdown
import TaintScan.Proofs.Taint.Drawing
import TaintScan.Proofs.Taint.Embedding
import TaintScan.Proofs.Taint.Ledger
import TaintScan.Proofs.Taint.Satisfaction
import TaintScan.Proofs.Taint.Search
import TaintScan.Proofs.Taint.Selection
import TaintScan.Proofs.Taint.Tracking
import TaintScan.Proofs.Text.Number
import TaintScan.Proofs.Text.Offset
import TaintScan.Proofs.Text.Pieces
import TaintScan.Proofs.Text.Utf8
import TaintScan.Proofs.Uri.Address
import TaintScan.Proofs.Uri.Authority
import TaintScan.Proofs.Uri.Encoding
import TaintScan.Proofs.Uri.File
import TaintScan.Proofs.Uri.Path
import TaintScan.Proofs.Uri.Plain
import TaintScan.Proofs.Uri.Readback
import TaintScan.Proofs.Uuid
import TaintScan.Random.ChaCha
import TaintScan.Random.Draw
import TaintScan.Scan.Cycle
import TaintScan.Scan.Run
import TaintScan.Scan.Summary
import TaintScan.Scan.Template
import TaintScan.Scan.Transform
import TaintScan.Schema.Basic
import TaintScan.Schema.Constraint
import TaintScan.Schema.Kind
import TaintScan.Schema.Object
import TaintScan.Schema.Repository
import TaintScan.Settings
import TaintScan.Taint.Ledger
import TaintScan.Taint.Marker
import TaintScan.Taint.Selection
import TaintScan.Taint.Stylesheet
import TaintScan.Taint.Synthesis
import TaintScan.Text.Ascii
import TaintScan.Text.Blank
import TaintScan.Text.CombiningClass
import TaintScan.Text.Composition
import TaintScan.Text.Direction
import TaintScan.Text.Excerpt
import TaintScan.Text.Joining
import TaintScan.Text.Mark
import TaintScan.Text.Number
import TaintScan.Text.Pieces
import TaintScan.Text.Punycode
import TaintScan.Text.Replace
import TaintScan.Text.Runs
import TaintScan.Text.Search
import TaintScan.Text.Utf8
import TaintScan.Uri.Address
import TaintScan.Uri.Basic
import TaintScan.Uri.Drive
import TaintScan.Uri.File
import TaintScan.Uri.Host
import TaintScan.Uri.Label
import TaintScan.Uri.LabelChar
import TaintScan.Uri.Padding
import TaintScan.Uri.Percent
import TaintScan.Uri.Reader
import TaintScan.Uri.Segments
import TaintScan.Uuid
