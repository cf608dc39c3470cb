import Reactors.Text.Blank
import Reactors.Text.Lines
import Reactors.Text.Quoted
import Reactors.Decimal.Form
import Reactors.OrderedMap
import Reactors.Time.Reading
import Reactors.Json.Token
import Reactors.Json.Reader
import Reactors.Json.Writer
import Reactors.Document.Fields
import Reactors.Json.Stored
import Reactors.Time.Stored
import Reactors.Program.Definitions
import Reactors.Program.Printing
import Reactors.Program.Stored
import Reactors.Config
import Reactors.Instance.Trigger
import Reactors.Elaboration.Parameters
import Reactors.Elaboration.Building
import Reactors.Instance.Dump
import Reactors.Instance.Stored
import Reactors.Toml.Word
import Reactors.Toml.Token
import Reactors.Toml.Table
import Reactors.Toml.Stored
import Reactors.Files.System
import Reactors.Program.Loading
import Reactors.Config.Loading
import Reactors.CommandLine.Run
import Reactors.Main
import Reactors.Proofs.OrderedMaps
import Reactors.Proofs.Hierarchy
import Reactors.Proofs.Numbering
import Reactors.Proofs.Expansion
import Reactors.Proofs.PathIndex
import Reactors.Proofs.Layout
import Reactors.Proofs.BuiltTrees
import Reactors.Proofs.Levels
import Reactors.Proofs.Routes
import Reactors.Proofs.Unrolled
import Reactors.Proofs.Evaluation
import Reactors.Proofs.TriggerFields
import Reactors.Proofs.Elaborable
import Reactors.Proofs.QualifiedNames
import Reactors.Proofs.DepthFirst
import Reactors.Proofs.LoadedTrees
import Reactors.Proofs.CompleteWalks
import Reactors.Proofs.InstanceFaults
import Reactors.Proofs.NumberedTrees
import Reactors.Proofs.Cycles
import Reactors.Proofs.ReportedErrors
import Reactors.Proofs.Rounding
import Reactors.Proofs.ShortestDecimals
import Reactors.Proofs.JsonNumbers
import Reactors.Proofs.JsonReading
import Reactors.Proofs.RoundTrips
import Reactors.Proofs.StoredValues
import Reactors.Proofs.StoredTrees
import Reactors.Proofs.StoredPrograms
import Reactors.Proofs.Reachable
import Reactors.Proofs.Subtrees
import Reactors.Proofs.Comparisons
import Reactors.Proofs.AgreeingRuns
import Reactors.Proofs.EqualPrograms
import Reactors.Proofs.ComparedRuns
import Reactors.Proofs.QuotedExpressions
import Reactors.Proofs.DepthLimits
import Reactors.Proofs.DeclarationCounts
import Reactors.Proofs.ConfigurationFrame
import Reactors.Proofs.DerivedFields
import Reactors.Proofs.Navigation
import Reactors.Proofs.Timings
import Reactors.Proofs.Substitution
import Reactors.Proofs.ResolvedParameters
import Reactors.Proofs.PathLookup
import Reactors.Proofs.Trimming
import Reactors.Proofs.SignedDigits
import Reactors.Proofs.WrittenTimes
import Reactors.Proofs.CheckedTimes
import Reactors.Proofs.TimeGrammar
import Reactors.Proofs.ReadValues
import Reactors.Proofs.LoadedTimes
import Reactors.Proofs.NormalizedTimes
import Reactors.Proofs.FieldReferences
import Reactors.Proofs.TriggerLists
import Reactors.Proofs.OverrideChains
import Reactors.Proofs.Durations
import Reactors.Proofs.ShownValues
import Reactors.Proofs.TextLines
import Reactors.Proofs.Indentation
import Reactors.Proofs.CodeBlocks
import Reactors.Proofs.ScheduledTimers
import Reactors.Proofs.FilePaths
import Reactors.Proofs.Places
import Reactors.Proofs.ConfigSearch
import Reactors.Proofs.NearbyConfigs
import Reactors.Proofs.RepeatedNames
import Reactors.Proofs.DefinitionTables
import Reactors.Proofs.RefusedFields
