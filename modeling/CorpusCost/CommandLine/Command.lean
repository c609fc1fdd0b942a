/-!
# Commands

What a command line asks for.
-/

set_option autoImplicit false

namespace CorpusCost.CommandLine

/-- How scores are written. -/
inductive ScoreFormat where
  /-- A line for each query. -/
  | text
  /-- A list of objects. -/
  | json
  deriving DecidableEq, Repr

/-- What `fit` is given. -/
structure FitOptions where
  /-- The file with the samples. -/
  dataset : String
  /-- The file with the settings. -/
  config : Option String
  /-- The number of generations, whatever the settings say. -/
  generations : Option Nat
  /-- The number of candidates, whatever the settings say. -/
  population : Option Nat
  /-- The number of workers, whatever the settings say. -/
  workers : Option Nat
  /-- The seed, whatever the settings say. -/
  seed : Option Nat
  /-- The file to write the weights to. -/
  output : Option String
  deriving DecidableEq, Repr

/-- A command. -/
inductive Command where
  /-- Scores queries. -/
  | score (weights : Option String) (format : ScoreFormat) (queries : List String)
  /-- Lists the cost program of a query. -/
  | compile (weights : Option String) (query : String)
  /-- Draws the tree of a query. -/
  | tree (query : String)
  /-- Searches for weights. -/
  | fit (options : FitOptions)
  deriving DecidableEq, Repr

/-- Why a command line leads to no command. -/
inductive UsageError where
  /-- Help is asked for. -/
  | helpAsked
  /-- The version is asked for. -/
  | versionAsked
  /-- Nothing at all is asked for. -/
  | nothingAsked
  /-- There are options, but no command. -/
  | missingCommand
  /-- There is no such command. -/
  | unknownCommand
  /-- There is no such option, or no place for a further word. -/
  | unknownArgument
  /-- A word that a command needs is missing. -/
  | missingArgument
  /-- An option has no value, or one that is not among those it takes. -/
  | invalidValue
  /-- A value is no number in range. -/
  | invalidNumber
  /-- An option that takes no value has one. -/
  | unexpectedValue
  /-- An option is given twice. -/
  | repeatedOption
  deriving DecidableEq, Repr

end CorpusCost.CommandLine
