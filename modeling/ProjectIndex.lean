import ProjectIndex.CommandLine.Arguments
import ProjectIndex.CommandLine.Json
import ProjectIndex.CommandLine.Run
import ProjectIndex.Digest.Sha256
import ProjectIndex.Domain.Components.Definition
import ProjectIndex.Domain.Components.Import
import ProjectIndex.Domain.Components.Indexer
import ProjectIndex.Domain.Components.Merge
import ProjectIndex.Domain.Components.Record
import ProjectIndex.Domain.Components.TemplateScan
import ProjectIndex.Domain.Composer
import ProjectIndex.Domain.Extensions
import ProjectIndex.Domain.Literal
import ProjectIndex.Domain.Services
import ProjectIndex.Domain.Snippets
import ProjectIndex.Domain.Stores
import ProjectIndex.Domain.SystemConfig
import ProjectIndex.Domain.Templates.Drift
import ProjectIndex.Domain.Templates.Indexer
import ProjectIndex.Domain.Templates.Marker
import ProjectIndex.Domain.Templates.Record
import ProjectIndex.Domain.Templates.Reference
import ProjectIndex.Domain.Theme
import ProjectIndex.Domain.XmlElement
import ProjectIndex.Engine.Basic
import ProjectIndex.Engine.Cache
import ProjectIndex.Engine.Daemon
import ProjectIndex.Engine.Facts
import ProjectIndex.Engine.Snapshot
import ProjectIndex.Failure
import ProjectIndex.Files.Basic
import ProjectIndex.Files.Edit
import ProjectIndex.Files.SkipNames
import ProjectIndex.Files.Walk
import ProjectIndex.Grammar.Cursor
import ProjectIndex.Grammar.FileType
import ProjectIndex.Grammar.Json
import ProjectIndex.Grammar.Parse
import ProjectIndex.Grammar.Script.Binding
import ProjectIndex.Grammar.Script.Class
import ProjectIndex.Grammar.Script.Declaration
import ProjectIndex.Grammar.Script.Expression
import ProjectIndex.Grammar.Script.Operand
import ProjectIndex.Grammar.Script.Reader
import ProjectIndex.Grammar.Script.Signature
import ProjectIndex.Grammar.Script.Statement
import ProjectIndex.Grammar.Script.Token
import ProjectIndex.Grammar.Script.Tree
import ProjectIndex.Grammar.Script.Type
import ProjectIndex.Grammar.Twig.Segment
import ProjectIndex.Grammar.Twig.Token
import ProjectIndex.Grammar.Twig.Tree
import ProjectIndex.Grammar.Xml
import ProjectIndex.Grammar.Xml.Doctype
import ProjectIndex.Grammar.Xml.Part
import ProjectIndex.Main
import ProjectIndex.Path.Basic
import ProjectIndex.Path.Order
import ProjectIndex.Scan.Indexer
import ProjectIndex.Scan.Scanner
import ProjectIndex.Settings.Basic
import ProjectIndex.Settings.Yaml.Document
import ProjectIndex.Settings.Yaml.Node
import ProjectIndex.Settings.Yaml.Scalar
import ProjectIndex.Settings.Yaml.Source
import ProjectIndex.Settings.Yaml.Token
import ProjectIndex.Store.Facts
import ProjectIndex.Store.Hashes
import ProjectIndex.Store.Packed
import ProjectIndex.Store.Timestamp
import ProjectIndex.Text.Blank
import ProjectIndex.Text.Bytes
import ProjectIndex.Text.Hidden
import ProjectIndex.Text.Scan
import ProjectIndex.Text.Search
import ProjectIndex.Text.Utf8
import ProjectIndex.Text.Word
import ProjectIndex.Tree.Basic
import ProjectIndex.Tree.Builder
import ProjectIndex.Tree.Comment
import ProjectIndex.Tree.Pattern
import ProjectIndex.Tree.Shape
import ProjectIndex.Watch.Batch
import ProjectIndex.Watch.Change
import ProjectIndex.Watch.Pipeline
import ProjectIndex.Proofs.Domain.Components.BlockTags
import ProjectIndex.Proofs.Domain.Components.Completed
import ProjectIndex.Proofs.Domain.Components.Gathering
import ProjectIndex.Proofs.Domain.Components.Merge
import ProjectIndex.Proofs.Domain.Components.Registered
import ProjectIndex.Proofs.Domain.Components.SlotTags
import ProjectIndex.Proofs.Domain.Components.TemplateBlocks
import ProjectIndex.Proofs.Domain.Containers
import ProjectIndex.Proofs.Domain.Elements
import ProjectIndex.Proofs.Domain.Flattening
import ProjectIndex.Proofs.Domain.Literals
import ProjectIndex.Proofs.Domain.Pairs
import ProjectIndex.Proofs.Domain.Templates.Inheritance
import ProjectIndex.Proofs.Domain.Templates.Inventory
import ProjectIndex.Proofs.Domain.Templates.Keys
import ProjectIndex.Proofs.Domain.Templates.Marked
import ProjectIndex.Proofs.Domain.Templates.Recorded
import ProjectIndex.Proofs.Domain.Templates.Spelling
import ProjectIndex.Proofs.Domain.Templates.Views
import ProjectIndex.Proofs.Domain.ThemeFields
import ProjectIndex.Proofs.Engine.Blank
import ProjectIndex.Proofs.Engine.Companions
import ProjectIndex.Proofs.Engine.Keepers
import ProjectIndex.Proofs.Engine.Rebuild
import ProjectIndex.Proofs.Engine.Scribes
import ProjectIndex.Proofs.Engine.Upkeep
import ProjectIndex.Proofs.Files.Edits
import ProjectIndex.Proofs.Files.Entries
import ProjectIndex.Proofs.Files.Listing
import ProjectIndex.Proofs.Files.Order
import ProjectIndex.Proofs.Files.Places
import ProjectIndex.Proofs.Files.Resolve
import ProjectIndex.Proofs.Files.Walk
import ProjectIndex.Proofs.Grammar.Brackets
import ProjectIndex.Proofs.Grammar.Json.Document
import ProjectIndex.Proofs.Grammar.Json.Nodes
import ProjectIndex.Proofs.Grammar.Json.Reading
import ProjectIndex.Proofs.Grammar.Json.Tokens
import ProjectIndex.Proofs.Grammar.Quoted
import ProjectIndex.Proofs.Grammar.Twig.Balance
import ProjectIndex.Proofs.Grammar.Twig.Bytewise
import ProjectIndex.Proofs.Grammar.Twig.Cuts
import ProjectIndex.Proofs.Grammar.Twig.Gaps
import ProjectIndex.Proofs.Grammar.Twig.Naming
import ProjectIndex.Proofs.Grammar.Twig.Placement
import ProjectIndex.Proofs.Grammar.Twig.Rendering
import ProjectIndex.Proofs.Grammar.Twig.Safety
import ProjectIndex.Proofs.Grammar.Twig.Statements
import ProjectIndex.Proofs.Grammar.Twig.Strings
import ProjectIndex.Proofs.Grammar.Twig.Template
import ProjectIndex.Proofs.Grammar.Twig.Titles
import ProjectIndex.Proofs.Grammar.Twig.Tokens
import ProjectIndex.Proofs.Grammar.Xml.Document
import ProjectIndex.Proofs.Scan.Alike
import ProjectIndex.Proofs.Scan.CallLog
import ProjectIndex.Proofs.Scan.Chunking
import ProjectIndex.Proofs.Scan.Convergence
import ProjectIndex.Proofs.Scan.Coverage
import ProjectIndex.Proofs.Scan.Incremental
import ProjectIndex.Proofs.Scan.Invariant
import ProjectIndex.Proofs.Scan.Isolation
import ProjectIndex.Proofs.Scan.Keepers
import ProjectIndex.Proofs.Scan.Ledger
import ProjectIndex.Proofs.Scan.Leftover
import ProjectIndex.Proofs.Scan.Mirror
import ProjectIndex.Proofs.Scan.PartialClear
import ProjectIndex.Proofs.Scan.Recorded
import ProjectIndex.Proofs.Scan.Refusal
import ProjectIndex.Proofs.Scan.Registry
import ProjectIndex.Proofs.Scan.Respelled
import ProjectIndex.Proofs.Scan.Rest
import ProjectIndex.Proofs.Scan.Sheets
import ProjectIndex.Proofs.Scan.Shelf
import ProjectIndex.Proofs.Scan.Steps
import ProjectIndex.Proofs.Scan.StoreIndexer
import ProjectIndex.Proofs.Scan.Synchronized
import ProjectIndex.Proofs.Scan.Tally
import ProjectIndex.Proofs.Scan.Upkeep
import ProjectIndex.Proofs.Store.History
import ProjectIndex.Proofs.Store.Interplay
import ProjectIndex.Proofs.Store.Positions
import ProjectIndex.Proofs.Store.Records
import ProjectIndex.Proofs.Store.Replace
import ProjectIndex.Proofs.Text.Boundary
import ProjectIndex.Proofs.Text.Search
import ProjectIndex.Proofs.Tree.Ancestry
import ProjectIndex.Proofs.Tree.Arena
import ProjectIndex.Proofs.Tree.Building
import ProjectIndex.Proofs.Tree.Calls
import ProjectIndex.Proofs.Tree.Frames
import ProjectIndex.Proofs.Tree.Growth
import ProjectIndex.Proofs.Tree.Layout
import ProjectIndex.Proofs.Tree.Order
import ProjectIndex.Proofs.Tree.Points
import ProjectIndex.Proofs.Tree.Ranges
import ProjectIndex.Proofs.Tree.Reading
import ProjectIndex.Proofs.Tree.Search
import ProjectIndex.Proofs.Tree.Siblings
import ProjectIndex.Proofs.Tree.Sketch
import ProjectIndex.Proofs.Tree.Tiling
import ProjectIndex.Proofs.Tree.Visit
import ProjectIndex.Proofs.Watch.Coalescing
import ProjectIndex.Proofs.Watch.Convergence
import ProjectIndex.Proofs.Watch.Handover
import ProjectIndex.Proofs.Watch.Pending
