import Shipment.Columns
import Shipment.CompileError
import Shipment.Diagnostic
import Shipment.Discovery
import Shipment.Fields
import Shipment.Files.Path
import Shipment.Files.Tree
import Shipment.Glob.Expression
import Shipment.Glob.Matching
import Shipment.Glob.Pattern
import Shipment.Ignore
import Shipment.Inline
import Shipment.Journal
import Shipment.Json.Basic
import Shipment.Json.Fault
import Shipment.Json.Lookup
import Shipment.Json.Numeral
import Shipment.Json.Printer
import Shipment.Json.Reader
import Shipment.Json.Shape
import Shipment.Json.StringBody
import Shipment.Loading
import Shipment.Manifest
import Shipment.Mismatch
import Shipment.Normal
import Shipment.Number.Basic
import Shipment.Number.Binary64
import Shipment.Number.Integer64
import Shipment.Number.Notation
import Shipment.Number.Reading
import Shipment.Number.Shortest
import Shipment.Options
import Shipment.Pointer
import Shipment.Project
import Shipment.Proofs.Additions
import Shipment.Proofs.Basic
import Shipment.Proofs.CombinedRules
import Shipment.Proofs.Compilation
import Shipment.Proofs.CompiledDocuments
import Shipment.Proofs.Coverage
import Shipment.Proofs.Extensions
import Shipment.Proofs.FaultLocations
import Shipment.Proofs.Fields
import Shipment.Proofs.Files.Lookup
import Shipment.Proofs.Files.Path
import Shipment.Proofs.Files.PathLookup
import Shipment.Proofs.Files.PathText
import Shipment.Proofs.Files.Skeleton
import Shipment.Proofs.Files.Spelling
import Shipment.Proofs.Files.WellFormed
import Shipment.Proofs.FirstOffence
import Shipment.Proofs.Glob.ClassRanges
import Shipment.Proofs.Glob.Endings
import Shipment.Proofs.Glob.Expression
import Shipment.Proofs.Glob.Faults
import Shipment.Proofs.Glob.Grammar
import Shipment.Proofs.Glob.Language
import Shipment.Proofs.Glob.Separators
import Shipment.Proofs.Ignore
import Shipment.Proofs.IgnoreLines
import Shipment.Proofs.Indexing
import Shipment.Proofs.Journal
import Shipment.Proofs.Json.Assignment
import Shipment.Proofs.Json.Grammar
import Shipment.Proofs.Json.Numbers
import Shipment.Proofs.Json.Places
import Shipment.Proofs.Json.Reading
import Shipment.Proofs.Json.RoundTrip
import Shipment.Proofs.Json.Unambiguity
import Shipment.Proofs.Json.WellFormed
import Shipment.Proofs.Json.Written
import Shipment.Proofs.ListedEntries
import Shipment.Proofs.Listing
import Shipment.Proofs.Loading
import Shipment.Proofs.MergeKeys
import Shipment.Proofs.Normal
import Shipment.Proofs.Number.Digits
import Shipment.Proofs.Number.Integer64
import Shipment.Proofs.Number.Rounding
import Shipment.Proofs.Number.Shortest
import Shipment.Proofs.PatternFaults
import Shipment.Proofs.PatternLines
import Shipment.Proofs.Pointer
import Shipment.Proofs.PushedEntries
import Shipment.Proofs.ReadSet
import Shipment.Proofs.Rendering
import Shipment.Proofs.RequestBody
import Shipment.Proofs.ResourceFiles
import Shipment.Proofs.RootSpelling
import Shipment.Proofs.Segments
import Shipment.Proofs.ServerError
import Shipment.Proofs.SourceMap
import Shipment.Proofs.StepSources
import Shipment.Proofs.StrayTildes
import Shipment.Proofs.SyntaxSpan
import Shipment.Proofs.Text.ByteOrder
import Shipment.Proofs.Text.ByteReading
import Shipment.Proofs.Text.Contents
import Shipment.Proofs.Text.Lines
import Shipment.Proofs.Tracing
import Shipment.Proofs.VoidSources
import Shipment.Proofs.Yaml.Boundaries
import Shipment.Proofs.Yaml.Compose
import Shipment.Proofs.Yaml.EventBoundaries
import Shipment.Proofs.Yaml.FaultBoundaries
import Shipment.Proofs.Yaml.Merge
import Shipment.Proofs.Yaml.MergedKeys
import Shipment.Proofs.Yaml.Node
import Shipment.Proofs.Yaml.TokenBoundaries
import Shipment.ServerError
import Shipment.Text.Blank
import Shipment.Text.Bytes
import Shipment.Text.Printable
import Shipment.Text.Quoted
import Shipment.ValidationFailure
import Shipment.Yaml.Compose
import Shipment.Yaml.Cursor
import Shipment.Yaml.Document
import Shipment.Yaml.Event
import Shipment.Yaml.Fault
import Shipment.Yaml.Grammar
import Shipment.Yaml.Lexeme
import Shipment.Yaml.LoadFault
import Shipment.Yaml.Merge
import Shipment.Yaml.Node
import Shipment.Yaml.Number
import Shipment.Yaml.Printer
import Shipment.Yaml.Resolve
import Shipment.Yaml.ScalarText
import Shipment.Yaml.Shape
import Shipment.Yaml.Token
import Shipment.Yaml.Tokens
