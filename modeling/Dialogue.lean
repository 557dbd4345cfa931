import Dialogue.Command.Basic
import Dialogue.Command.Export
import Dialogue.Command.Listing
import Dialogue.Command.Opcode
import Dialogue.CommandLine.Arguments
import Dialogue.CommandLine.Run
import Dialogue.Compile.ChoiceScript
import Dialogue.Compile.Emission
import Dialogue.Compile.Lowering
import Dialogue.Compile.Plan
import Dialogue.Decimal.Rounding
import Dialogue.Decimal.Shortest
import Dialogue.Dict
import Dialogue.Editor.Conversion
import Dialogue.Editor.Document
import Dialogue.Editor.Format
import Dialogue.Editor.Lenient
import Dialogue.Graph.Action
import Dialogue.Graph.Condition
import Dialogue.Graph.Document
import Dialogue.Graph.IdSet
import Dialogue.Graph.Index
import Dialogue.Graph.Menu
import Dialogue.Graph.Queue
import Dialogue.Graph.Reach
import Dialogue.Graph.ShortestPath
import Dialogue.Json.Fault
import Dialogue.Json.Lexer
import Dialogue.Json.Printer
import Dialogue.Json.Reader
import Dialogue.Json.Record
import Dialogue.Json.Value
import Dialogue.Main
import Dialogue.Storage.Artifact
import Dialogue.Storage.Bytes
import Dialogue.Storage.Disk
import Dialogue.Storage.StoredScript
import Dialogue.Text.Blank
import Dialogue.Text.Lines
import Dialogue.Text.Quoted
import Dialogue.Text.Utf8
import Dialogue.Text.Visible
import Dialogue.Proofs.Forest
import Dialogue.Proofs.Visits
import Dialogue.Proofs.Labels
import Dialogue.Proofs.Coverage
import Dialogue.Proofs.Grammar
import Dialogue.Proofs.Machine
import Dialogue.Proofs.Engine
import Dialogue.Proofs.Walk
import Dialogue.Proofs.Places
import Dialogue.Proofs.Steps
import Dialogue.Proofs.Tables
import Dialogue.Proofs.Following
import Dialogue.Proofs.Meaning
import Dialogue.Proofs.Routing
import Dialogue.Proofs.Jumps
import Dialogue.Proofs.Recursion
import Dialogue.Proofs.RoundTrip
import Dialogue.Proofs.Parallel
import Dialogue.Proofs.Alike
import Dialogue.Proofs.Muting
import Dialogue.Proofs.Silence
import Dialogue.Proofs.Splicing
import Dialogue.Proofs.Redrawing
import Dialogue.Proofs.Skeleton
import Dialogue.Proofs.Tokens
import Dialogue.Proofs.Trees
import Dialogue.Proofs.Results
import Dialogue.Proofs.UnknownTags
import Dialogue.Proofs.Readers
import Dialogue.Proofs.Skipping
import Dialogue.Proofs.Exported
import Dialogue.Proofs.Records
import Dialogue.Proofs.EditorReaders
import Dialogue.Proofs.FlatActions
import Dialogue.Proofs.Rendering
import Dialogue.Proofs.Edits
import Dialogue.Proofs.Usable
import Dialogue.Proofs.Rephrasing
import Dialogue.Proofs.Renaming
import Dialogue.Proofs.Paths
import Dialogue.Proofs.Removal
import Dialogue.Proofs.Reachability
import Dialogue.Proofs.Search
import Dialogue.Proofs.ShortestPath
import Dialogue.Proofs.LineBreaks
import Dialogue.Proofs.ScriptLanguage
import Dialogue.Proofs.ChoiceScripts
import Dialogue.Proofs.Dispatch
import Dialogue.Proofs.Nesting
import Dialogue.Proofs.Lookups
import Dialogue.Proofs.Arguments
import Dialogue.Proofs.LateLabels
import Dialogue.Proofs.FormNumbers
import Dialogue.Proofs.ListingLines
