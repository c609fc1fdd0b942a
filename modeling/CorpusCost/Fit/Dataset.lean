import CorpusCost.Cost.Compile
import CorpusCost.File.Records
import CorpusCost.Fit.Stats
import CorpusCost.Number.Reading
import CorpusCost.Query.Reading
import CorpusCost.Text.Blank

/-!
# Samples to compare with

A dataset holds queries with the seconds they took. Texts that are no query, and queries without a
cost, are left out. Whether a query has a cost does not depend on the weights, so every sample has a
score for all of them.
-/

set_option autoImplicit false

namespace CorpusCost

/-- A query with the seconds it took. -/
structure Sample (α : Type) where
  /-- The text of the query as it was given. -/
  text : String
  /-- The query. -/
  query : Query
  /-- The seconds it took. -/
  seconds : α

/-- Samples in order. -/
structure Dataset (α : Type) where
  /-- The samples. -/
  samples : List (Sample α)

namespace Sample

variable {α : Type} [Scalar α]

/-- The sample of a text; none if it is no query or has no cost. -/
def prepare? (text : String) (seconds : α) : Option (Sample α) :=
  match Query.parse text with
  | .error _ => none
  | .ok query =>
    match query.compile (Weights.ones (α := α)) with
    | .error _ => none
    | .ok _ => some ⟨text, query, seconds⟩

/-- The score of a sample on a machine whose stack was left by earlier runs, if it has one, and the
stack that is left. -/
def score? (sample : Sample α) (weights : Weights α) (stack : Machine.Stack α) :
    Option α × Machine.Stack α :=
  match sample.query.compile weights with
  | .error _ => (none, stack)
  | .ok program =>
    match Machine.run program stack with
    | (.ok value, stack) => (some value, stack)
    | (.error _, stack) => (none, stack)

end Sample

namespace Dataset

variable {α : Type}

/-- No samples. -/
def empty : Dataset α := ⟨[]⟩

/-- The number of samples. -/
def size (dataset : Dataset α) : Nat := dataset.samples.length

/-- Whether there is no sample. -/
def isEmpty (dataset : Dataset α) : Bool := dataset.samples.isEmpty

/-- The samples among pairs of a text and seconds. -/
def ofPairs [Scalar α] (pairs : List (String × α)) : Dataset α :=
  ⟨pairs.filterMap fun (text, seconds) => Sample.prepare? text seconds⟩

/-! ## Files -/

/-- The duration that a text stands for, if it is a finite number. -/
def duration? (text : String) : Option Float :=
  (Number.float? (String.ofList (Text.trim text.toList))).filter Number.isFinite

/-- The query and the duration in a record: the duration is its last field, and the query is all
before it. -/
def pair? (fields : List String) : Option (String × Float) :=
  match fields.reverse with
  | seconds :: field :: others =>
    (duration? seconds).map fun value => (";".intercalate (field :: others).reverse, value)
  | _ => none

/-- The samples in a file of records; none if a record is not text. -/
def ofBytes? (bytes : Bytes) : Option (Dataset Float) := do
  let records ← (Records.ofBytes bytes).mapM fun record => record.mapM Bytes.text?
  pure (ofPairs (records.filterMap pair?))

/-! ## Evaluation -/

variable [Scalar α]

/-- The scores of samples beside their seconds, and the stack that is left. Samples without a score
are left out. -/
def predictions (weights : Weights α) :
    List (Sample α) → Machine.Stack α → List (α × α) × Machine.Stack α
  | [], stack => ([], stack)
  | sample :: samples, stack =>
    let (score, stack) := sample.score? weights stack
    let (pairs, stack) := predictions weights samples stack
    ((score.map fun value => (value, sample.seconds)).toList ++ pairs, stack)

/-- How the scores of all samples compare with their seconds, and the stack that is left. -/
def evaluate (dataset : Dataset α) (weights : Weights α) (threshold : α)
    (stack : Machine.Stack α) : EvalStats α × Machine.Stack α :=
  let (pairs, stack) := predictions weights dataset.samples stack
  (EvalStats.ofPredictions threshold pairs, stack)

end Dataset

end CorpusCost
