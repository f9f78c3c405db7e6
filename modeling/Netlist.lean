import Netlist.Blif.Layout
import Netlist.Blif.Reader
import Netlist.Blif.Record
import Netlist.Blueprint
import Netlist.Bristol.Evaluator
import Netlist.Bristol.Line
import Netlist.Bristol.Writer
import Netlist.Circuit
import Netlist.Circuit.Compaction
import Netlist.Circuit.Countdown
import Netlist.Circuit.Document
import Netlist.Circuit.Liveness
import Netlist.Circuit.Marking
import Netlist.Circuit.Renumbering
import Netlist.Circuit.Schedule
import Netlist.Circuit.Sweep
import Netlist.Command.Options
import Netlist.Command.Program
import Netlist.Command.Tools
import Netlist.Composite
import Netlist.Composite.Codec
import Netlist.Connection
import Netlist.Connection.Reader
import Netlist.Decimal.Binary64
import Netlist.Decimal.Shortest
import Netlist.Decimal.Word
import Netlist.Design
import Netlist.Design.Flattening
import Netlist.Design.Hierarchy
import Netlist.Error
import Netlist.Event
import Netlist.Example
import Netlist.Failure
import Netlist.Fault
import Netlist.FileTree
import Netlist.Gate
import Netlist.Json.Mismatch
import Netlist.Json.Reader
import Netlist.Json.Reader.Number
import Netlist.Json.Reader.Text
import Netlist.Json.Value
import Netlist.Json.Writer
import Netlist.Lint
import Netlist.Main
import Netlist.Module
import Netlist.Outcome
import Netlist.Path
import Netlist.Proofs.Agreement
import Netlist.Proofs.AlikeCircuits
import Netlist.Proofs.AlikeDesigns
import Netlist.Proofs.Allocation
import Netlist.Proofs.Arrangement
import Netlist.Proofs.Bindings
import Netlist.Proofs.BlifReading
import Netlist.Proofs.Blocks
import Netlist.Proofs.Bookkeeping
import Netlist.Proofs.Bridges
import Netlist.Proofs.BusRuns
import Netlist.Proofs.CellNames
import Netlist.Proofs.Coding
import Netlist.Proofs.Collisions
import Netlist.Proofs.Counting
import Netlist.Proofs.DesignHistory
import Netlist.Proofs.DistinctNames
import Netlist.Proofs.Drivers
import Netlist.Proofs.Effects
import Netlist.Proofs.Evaluation
import Netlist.Proofs.EvaluatorHistory
import Netlist.Proofs.Extension
import Netlist.Proofs.FileChanges
import Netlist.Proofs.FormatAgreement
import Netlist.Proofs.HeldConstants
import Netlist.Proofs.Inlining
import Netlist.Proofs.Instantiation
import Netlist.Proofs.Interleaving
import Netlist.Proofs.JsonResolution
import Netlist.Proofs.KeptTexts
import Netlist.Proofs.Layouts
import Netlist.Proofs.Likeness
import Netlist.Proofs.Lockstep
import Netlist.Proofs.Loops
import Netlist.Proofs.Marking
import Netlist.Proofs.Mirroring
import Netlist.Proofs.NameTables
import Netlist.Proofs.Occurrences
import Netlist.Proofs.OpaqueCells
import Netlist.Proofs.PassHistory
import Netlist.Proofs.Passes
import Netlist.Proofs.Progress
import Netlist.Proofs.PrunedTexts
import Netlist.Proofs.Pruning
import Netlist.Proofs.Readability
import Netlist.Proofs.ReaderHistory
import Netlist.Proofs.Realization
import Netlist.Proofs.Recursion
import Netlist.Proofs.Renumbering
import Netlist.Proofs.Reordering
import Netlist.Proofs.Resolution
import Netlist.Proofs.Resolvability
import Netlist.Proofs.Routing
import Netlist.Proofs.Running
import Netlist.Proofs.Scheduling
import Netlist.Proofs.Scopes
import Netlist.Proofs.Settling
import Netlist.Proofs.Simplification
import Netlist.Proofs.SizeHints
import Netlist.Proofs.Sources
import Netlist.Proofs.Spellings
import Netlist.Proofs.StableOrder
import Netlist.Proofs.Starvation
import Netlist.Proofs.Sweeping
import Netlist.Proofs.Targets
import Netlist.Proofs.TextFaults
import Netlist.Proofs.Translation
import Netlist.Proofs.WrittenLines
import Netlist.Proofs.WrittenNames
import Netlist.Proofs.WrittenRecords
import Netlist.Proofs.WrittenRows
import Netlist.Proofs.WrittenValues
import Netlist.Proofs.YosysReading
import Netlist.Source
import Netlist.Statistics
import Netlist.Text.Blank
import Netlist.Text.Line
import Netlist.Text.Printable
import Netlist.Text.Quoted
import Netlist.Text.Utf8
import Netlist.Valuation
import Netlist.Wire
import Netlist.Wire.Allocator
import Netlist.Wire.Ascending
import Netlist.WireSets
import Netlist.Yaml.Scalar
import Netlist.Yaml.Writer
import Netlist.Yosys.Reader
import Netlist.Yosys.Schema
