import CorpusCost.CommandLine.Command
import CorpusCost.Fit.ChaCha
import CorpusCost.Fit.Search
import CorpusCost.Inputs
import CorpusCost.Outline.Dump
import CorpusCost.Score

/-!
# Running commands

What a command writes. Nothing is written to the standard output by a command that fails.
-/

set_option autoImplicit false

namespace CorpusCost.CommandLine

/-- What a command writes when it succeeds. -/
structure Written where
  /-- To the standard output. -/
  output : String
  /-- To the standard error output. -/
  notes : String
  /-- To a file: its path and its content. -/
  file : Option (String × String)
  deriving DecidableEq, Repr

/-- A text for the standard output. -/
def Written.ofOutput (output : String) : Written := ⟨output, "", none⟩

/-- A failure with a file. -/
def ofFile {β : Type} (result : Except FileError β) : Except Diagnostic β :=
  result.mapError fun error => .withoutSource (.file error)

/-- The weights in a file; all ones where no file is given. -/
def weightsOf (files : Files) : Option String → Except Diagnostic (Weights Float)
  | none => .ok .ones
  | some path => ofFile (Weights.load files path)

/-- The line for a query with its score. -/
def scoreLine (query : String) (score : Float) : String :=
  Number.fixed 6 score ++ "\t" ++ query ++ "\n"

/-- The object for a query with its score. -/
def scoreObject (query : String) (score : Float) : Json :=
  .object [⟨"query", .text query⟩, ⟨"score", .number score⟩]

/-- Queries with their scores in a format. -/
def ScoreFormat.written (format : ScoreFormat) (scores : List (String × Float)) : String :=
  match format with
  | .text => String.join (scores.map fun (query, score) => scoreLine query score)
  | .json =>
    (Json.list (scores.map fun (query, score) => scoreObject query score)).pretty ++ "\n"

/-- Scores queries; the first failure is the result. -/
def runScore (files : Files) (weights : Option String) (format : ScoreFormat)
    (queries : List String) : Except Diagnostic Written := do
  let weights ← weightsOf files weights
  let scores ← queries.mapM fun query => return (query, ← Query.scoreText query weights)
  pure (.ofOutput (format.written scores))

/-- Lists the cost program of a query. -/
def runCompile (files : Files) (weights : Option String) (text : String) :
    Except Diagnostic Written := do
  let weights ← weightsOf files weights
  let query ← Query.read text
  match query.compile weights with
  | .error error => .error (.of text (.cost error))
  | .ok program => pure (.ofOutput (Machine.listing program))

/-- Draws the tree of a query with the effect of its wildcards. -/
def runTree (text : String) : Except Diagnostic Written := do
  let query ← Query.read text
  pure (.ofOutput (query.dump (EffectTable.ofQuery query).get))

/-- The settings of a search: those in a file, or the standard ones, with the options of the command
in their place. -/
def settingsOf (files : Files) (options : FitOptions) :
    Except Diagnostic (SearchConfig Float) := do
  let config ←
    match options.config with
    | none => .ok .standard
    | some path => ofFile (SearchConfig.load files path)
  pure
    { config with
      generations := options.generations.getD config.generations
      populationSize := options.population.getD config.populationSize
      workers := options.workers.getD config.workers
      seed := options.seed.map UInt64.ofNat <|> config.seed }

/-- What a search with some settings finds, if they make sense. -/
def found (config : SearchConfig Float) (dataset : Dataset Float) (seed : UInt64) :
    Except SearchError (SearchResult Float) :=
  match config.validate with
  | .error error => .error error
  | .ok () => (Search.run config dataset .plain (fun _ _ => ()) () (ChaCha.ofSeed seed)).outcome

/-- Searches for weights; `chance` is the seed where none is given. -/
def runFit (files : Files) (chance : UInt64) (options : FitOptions) :
    Except Diagnostic Written := do
  let config ← settingsOf files options
  let dataset ← ofFile (Dataset.load files options.dataset)
  match found config dataset (config.seed.getD chance) with
  | .error error => .error (.withoutSource (.search error))
  | .ok result =>
    let notes :=
      result.stats.text ++ ", F" ++ plainLayout.text config.fBeta ++ ": " ++
        Number.fixed 4 result.fBeta ++ "\n"
    let json := result.weights.toJson.pretty ++ "\n"
    match options.output with
    | none => pure ⟨json, notes, none⟩
    | some path => pure ⟨"", notes, some (path, json)⟩

/-- Runs a command. -/
def Command.run (files : Files) (chance : UInt64) : Command → Except Diagnostic Written
  | score weights format queries => runScore files weights format queries
  | compile weights query => runCompile files weights query
  | tree query => runTree query
  | fit options => runFit files chance options

/-- The files that a command reads. -/
def Command.inputs : Command → List String
  | score weights _ _ => weights.toList
  | compile weights _ => weights.toList
  | tree _ => []
  | fit options => options.config.toList ++ [options.dataset]

end CorpusCost.CommandLine
