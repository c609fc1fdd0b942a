import CorpusCost.CommandLine.Command
import CorpusCost.CommandLine.Options
import CorpusCost.CommandLine.Reading
import CorpusCost.CommandLine.Run
import CorpusCost.Condition.Basic
import CorpusCost.Condition.Parser
import CorpusCost.Condition.Printer
import CorpusCost.Cost.Compile
import CorpusCost.Cost.Rule
import CorpusCost.Cost.Slot
import CorpusCost.Cost.Weights
import CorpusCost.Cost.WildcardRun
import CorpusCost.Diagnostic
import CorpusCost.File.Directory
import CorpusCost.File.FileError
import CorpusCost.File.Json
import CorpusCost.File.Records
import CorpusCost.File.Toml
import CorpusCost.Fit.ChaCha
import CorpusCost.Fit.Chromosome
import CorpusCost.Fit.Chunk
import CorpusCost.Fit.Config
import CorpusCost.Fit.Dataset
import CorpusCost.Fit.Population
import CorpusCost.Fit.Search
import CorpusCost.Fit.SearchError
import CorpusCost.Fit.Settings
import CorpusCost.Fit.Stats
import CorpusCost.Fit.Words
import CorpusCost.Fit.Workers
import CorpusCost.Inputs
import CorpusCost.Machine.Instruction
import CorpusCost.Machine.Listing
import CorpusCost.Machine.Run
import CorpusCost.Main
import CorpusCost.Number.Binary
import CorpusCost.Number.Notation
import CorpusCost.Number.Reading
import CorpusCost.Number.Rounding
import CorpusCost.Number.Scalar
import CorpusCost.Number.Shortest
import CorpusCost.Outline.Basic
import CorpusCost.Outline.Dump
import CorpusCost.Outline.Effect
import CorpusCost.Outline.Kind
import CorpusCost.Outline.Node
import CorpusCost.Outline.Walk
import CorpusCost.Parser.Basic
import CorpusCost.Parser.Lexeme
import CorpusCost.Proofs.Alike
import CorpusCost.Proofs.AtomReadBack
import CorpusCost.Proofs.BareRegexes
import CorpusCost.Proofs.Breeding
import CorpusCost.Proofs.Cancellation
import CorpusCost.Proofs.CanonicalText
import CorpusCost.Proofs.CappedComplements
import CorpusCost.Proofs.ChainReadBack
import CorpusCost.Proofs.ChunkPartition
import CorpusCost.Proofs.ClampSites
import CorpusCost.Proofs.ClassReadBack
import CorpusCost.Proofs.CompilerCorrectness
import CorpusCost.Proofs.ConditionReadBack
import CorpusCost.Proofs.ConfusionCounts
import CorpusCost.Proofs.Consumed
import CorpusCost.Proofs.CutConditions
import CorpusCost.Proofs.CutQueries
import CorpusCost.Proofs.CutSequences
import CorpusCost.Proofs.CutTexts
import CorpusCost.Proofs.CutWords
import CorpusCost.Proofs.DatasetFiles
import CorpusCost.Proofs.DeepNesting
import CorpusCost.Proofs.Depth
import CorpusCost.Proofs.DiagnosticSpans
import CorpusCost.Proofs.DrawnFractions
import CorpusCost.Proofs.Edits
import CorpusCost.Proofs.EffectSums
import CorpusCost.Proofs.Elitism
import CorpusCost.Proofs.Emission
import CorpusCost.Proofs.EncodedTexts
import CorpusCost.Proofs.ErrorPlaces
import CorpusCost.Proofs.Evaluation
import CorpusCost.Proofs.Everywhere
import CorpusCost.Proofs.Execution
import CorpusCost.Proofs.FBetaLaw
import CorpusCost.Proofs.FloatOrder
import CorpusCost.Proofs.FloatSign
import CorpusCost.Proofs.Fragments
import CorpusCost.Proofs.FusedRows
import CorpusCost.Proofs.GroupReadBack
import CorpusCost.Proofs.GrownOutlines
import CorpusCost.Proofs.GuardTransparency
import CorpusCost.Proofs.Guarded
import CorpusCost.Proofs.Interleaving
import CorpusCost.Proofs.Lines
import CorpusCost.Proofs.Listings
import CorpusCost.Proofs.LongerRuns
import CorpusCost.Proofs.LookAround
import CorpusCost.Proofs.NonnegativeRuns
import CorpusCost.Proofs.Pedigrees
import CorpusCost.Proofs.Places
import CorpusCost.Proofs.Polarity
import CorpusCost.Proofs.PositionReadBack
import CorpusCost.Proofs.QueryReadBack
import CorpusCost.Proofs.ReadBack
import CorpusCost.Proofs.ReaderLaws
import CorpusCost.Proofs.Rearranged
import CorpusCost.Proofs.Recast
import CorpusCost.Proofs.ReferenceCost
import CorpusCost.Proofs.RegexReadBack
import CorpusCost.Proofs.Regexes
import CorpusCost.Proofs.Reports
import CorpusCost.Proofs.Respaced
import CorpusCost.Proofs.Roles
import CorpusCost.Proofs.RunInvariant
import CorpusCost.Proofs.SampleScores
import CorpusCost.Proofs.Scaffolds
import CorpusCost.Proofs.Sealed
import CorpusCost.Proofs.SearchOutcome
import CorpusCost.Proofs.SingleElements
import CorpusCost.Proofs.Skeletons
import CorpusCost.Proofs.SmallSteps
import CorpusCost.Proofs.SteadyQueries
import CorpusCost.Proofs.SteadyWords
import CorpusCost.Proofs.Template
import CorpusCost.Proofs.TestReadBack
import CorpusCost.Proofs.Traversals
import CorpusCost.Proofs.Underflow
import CorpusCost.Proofs.UnreservedNames
import CorpusCost.Proofs.VerbatimRegexes
import CorpusCost.Proofs.VisibleEnds
import CorpusCost.Proofs.WellFormed
import CorpusCost.Proofs.WordReadBack
import CorpusCost.Proofs.WorkerIndependence
import CorpusCost.Proofs.Yields
import CorpusCost.Query.Basic
import CorpusCost.Query.Parser
import CorpusCost.Query.Printer
import CorpusCost.Query.Reading
import CorpusCost.Regex.Basic
import CorpusCost.Regex.Parser
import CorpusCost.Regex.Printer
import CorpusCost.Score
import CorpusCost.Text.Blank
import CorpusCost.Text.ByteSize
import CorpusCost.Text.Bytes
import CorpusCost.Text.Joined
import CorpusCost.Text.Uppercase
