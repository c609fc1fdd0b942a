import CorpusCost.CommandLine.Command
import CorpusCost.Number.Reading

/-!
# Options

The options that each command knows, and the values they take.
-/

set_option autoImplicit false

namespace CorpusCost.CommandLine

/-- The name of a command. -/
inductive CommandName where
  /-- Scores queries. -/
  | score
  /-- Lists the cost program of a query. -/
  | compile
  /-- Draws the tree of a query. -/
  | tree
  /-- Searches for weights. -/
  | fit
  deriving DecidableEq, Repr

/-- An option without a value. -/
inductive Flag where
  /-- Logs more; may be given many times. -/
  | verbose
  /-- Asks for help. -/
  | help
  /-- Asks for the version. -/
  | version
  deriving DecidableEq, Repr

/-- An option with a value. -/
inductive Setting where
  /-- The file with the weights. -/
  | weights
  /-- How scores are written. -/
  | outputFormat
  /-- The file with the settings. -/
  | config
  /-- The number of generations. -/
  | generations
  /-- The number of candidates. -/
  | population
  /-- The number of workers. -/
  | workers
  /-- The seed of all random draws. -/
  | seed
  /-- The file to write to. -/
  | output
  deriving DecidableEq, Repr

/-- An option. -/
inductive Switch where
  /-- One without a value. -/
  | flag (flag : Flag)
  /-- One with a value. -/
  | setting (setting : Setting)
  deriving DecidableEq, Repr

/-- The spelling of an option. -/
structure Spelling where
  /-- The option. -/
  switch : Switch
  /-- The word after two dashes. -/
  long : String
  /-- The letter after one dash. -/
  short : Option Char
  deriving DecidableEq, Repr

/-- The options that every command knows. -/
def everywhere : List Spelling :=
  [⟨.flag .verbose, "verbose", some 'v'⟩, ⟨.flag .help, "help", some 'h'⟩]

/-- The options in front of the command. -/
def inFront : List Spelling := everywhere ++ [⟨.flag .version, "version", some 'V'⟩]

/-- The option for a weights file. -/
def weightsSpelling : Spelling := ⟨.setting .weights, "weights", some 'w'⟩

namespace CommandName

/-- The command of a name. -/
def ofString? (name : String) : Option CommandName :=
  match name with
  | "score" => some score
  | "compile" => some compile
  | "tree" => some tree
  | "fit" => some fit
  | _ => none

/-- The options of a command. -/
def spellings : CommandName → List Spelling
  | score =>
    weightsSpelling :: ⟨.setting .outputFormat, "output-format", some 'F'⟩ :: everywhere
  | compile => weightsSpelling :: everywhere
  | tree => everywhere
  | fit =>
    [⟨.setting .config, "config", some 'c'⟩, ⟨.setting .generations, "generations", none⟩,
      ⟨.setting .population, "population", none⟩, ⟨.setting .workers, "workers", none⟩,
      ⟨.setting .seed, "seed", none⟩, ⟨.setting .output, "output", some 'o'⟩] ++ everywhere

/-- Whether a command that has `count` operands takes another one. -/
def takesOperand : CommandName → Nat → Bool
  | score, _ => true
  | _, count => count == 0

end CommandName

/-- The option with a long name. -/
def longSwitch? (spellings : List Spelling) (name : String) : Option Switch :=
  (spellings.find? fun spelling => spelling.long == name).map Spelling.switch

/-- The option with a letter. -/
def shortSwitch? (spellings : List Spelling) (letter : Char) : Option Switch :=
  (spellings.find? fun spelling => spelling.short == some letter).map Spelling.switch

/-! ## What is given -/

/-- What a command has been given. -/
structure Given where
  /-- The file with the weights. -/
  weights : Option String
  /-- How scores are written. -/
  outputFormat : Option ScoreFormat
  /-- The file with the settings. -/
  config : Option String
  /-- The number of generations. -/
  generations : Option Nat
  /-- The number of candidates. -/
  population : Option Nat
  /-- The number of workers. -/
  workers : Option Nat
  /-- The seed. -/
  seed : Option Nat
  /-- The file to write to. -/
  output : Option String
  /-- The words that belong to no option, in order. -/
  operands : List String

namespace Given

/-- Nothing given yet. -/
def nothing : Given := ⟨none, none, none, none, none, none, none, none, []⟩

/-- The path that a value is; it may not be empty. -/
def path (value : String) : Except UsageError String :=
  if value = "" then .error .invalidValue else .ok value

/-- The natural number of at most 64 bits that a value is; a `+` may stand in front. -/
def count (value : String) : Except UsageError Nat :=
  let digits :=
    match value.toList with
    | '+' :: rest => rest
    | cs => cs
  if digits ≠ [] ∧ digits.all Char.isDigit ∧ Number.digitsValue digits < UInt64.size then
    .ok (Number.digitsValue digits)
  else .error .invalidNumber

/-- The format that a value names. -/
def format (value : String) : Except UsageError ScoreFormat :=
  match value with
  | "text" => .ok .text
  | "json" => .ok .json
  | _ => .error .invalidValue

/-- A value for an option that is given only once. -/
def once {β : Type} (before : Option β) (value : Except UsageError β) :
    Except UsageError (Option β) :=
  match before with
  | some _ => .error .repeatedOption
  | none => value.map some

/-- Takes a value of an option. -/
def accept (given : Given) (setting : Setting) (value : String) : Except UsageError Given :=
  match setting with
  | .weights => (once given.weights (path value)).map fun v => { given with weights := v }
  | .outputFormat =>
    (once given.outputFormat (format value)).map fun v => { given with outputFormat := v }
  | .config => (once given.config (path value)).map fun v => { given with config := v }
  | .generations =>
    (once given.generations (count value)).map fun v => { given with generations := v }
  | .population => (once given.population (count value)).map fun v => { given with population := v }
  | .workers => (once given.workers (count value)).map fun v => { given with workers := v }
  | .seed => (once given.seed (count value)).map fun v => { given with seed := v }
  | .output => (once given.output (path value)).map fun v => { given with output := v }

/-- Takes a word that belongs to no option; for `fit` it is a path. -/
def acceptOperand (given : Given) (name : CommandName) (word : String) : Except UsageError Given :=
  match name with
  | .fit => (path word).map fun v => { given with operands := given.operands ++ [v] }
  | _ => .ok { given with operands := given.operands ++ [word] }

/-- The command that is given. -/
def command (given : Given) (name : CommandName) : Except UsageError Command :=
  match given.operands with
  | [] => .error .missingArgument
  | operand :: operands =>
    .ok <|
      match name with
      | .score => .score given.weights (given.outputFormat.getD .text) (operand :: operands)
      | .compile => .compile given.weights operand
      | .tree => .tree operand
      | .fit =>
        .fit
          ⟨operand, given.config, given.generations, given.population, given.workers, given.seed,
            given.output⟩

end Given

end CorpusCost.CommandLine
