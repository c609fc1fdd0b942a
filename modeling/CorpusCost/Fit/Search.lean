import CorpusCost.Fit.Workers

/-!
# The search for weights

A search begins with candidates drawn at random. In each generation the candidates are evaluated and
ranked, the best one ever seen is kept, a report is made, and the next candidates are bred from the
best of these. The result is the best candidate of all generations.
-/

set_option autoImplicit false

namespace CorpusCost

/-- What is reported of a generation. -/
structure GenerationReport (α : Type) where
  /-- The number of the generation, from zero. -/
  generation : Nat
  /-- The fitness of its best candidate. -/
  best : α
  /-- The fitness of its worst candidate. -/
  worst : α
  /-- The fitness of the best candidate ever seen. -/
  bestSoFar : α
  /-- The weighted mean of precision and recall of its best candidate. -/
  fBeta : α
  deriving DecidableEq, Repr

/-- What a search finds. -/
structure SearchResult (α : Type) where
  /-- The best weights. -/
  weights : Weights α
  /-- How well they do. -/
  stats : EvalStats α
  /-- The weighted mean of their precision and recall. -/
  fBeta : α
  /-- A report for each generation. -/
  history : List (GenerationReport α)

/-- How a search ends. -/
structure SearchRun (α σ τ : Type) where
  /-- What it finds. -/
  outcome : Except SearchError (SearchResult α)
  /-- What the observer of its reports has made of them, also of a search that fails. -/
  observed : τ
  /-- The source of random words that is left. -/
  source : σ

namespace Search

variable {α σ τ : Type}

/-- A search under way. -/
structure State (α σ τ : Type) where
  /-- The candidates of the next generation. -/
  population : Population α
  /-- The best candidate ever seen. -/
  best : Option (Individual α)
  /-- The reports of all generations so far. -/
  history : List (GenerationReport α)
  /-- What the observer has made of the reports so far. -/
  observed : τ
  /-- The source of random words. -/
  source : σ

section

variable [Ranked α]

/-- The better of the best candidate so far and a candidate; the earlier one where neither is. -/
def better (best : Option (Individual α)) (leader : Individual α) : Individual α :=
  match best with
  | none => leader
  | some best => if leader.fitness < best.fitness then leader else best

/-- What holds of both candidates holds of the better one. -/
theorem better_induction {P : Individual α → Prop} {best : Option (Individual α)}
    {leader : Individual α} (hbest : ∀ kept ∈ best, P kept) (hleader : P leader) :
    P (better best leader) := by
  cases best with
  | none => exact hleader
  | some kept =>
    unfold better
    dsimp only
    split
    · exact hleader
    · exact hbest kept rfl

/-- The report of a generation whose first and last candidates and whose best one ever seen are
given. -/
def report (config : SearchConfig α) (generation : Nat) (leader last best : Individual α) :
    GenerationReport α where
  generation := generation
  best := leader.fitness
  worst := last.fitness
  bestSoFar := best.fitness
  fBeta :=
    match leader.stats with
    | some stats => stats.fBeta config.fBeta
    | none => Scalar.zero

/-- The state after a report on a ranked population; none if there is no candidate. -/
def State.record? (config : SearchConfig α) (observe : τ → GenerationReport α → τ)
    (generation : Nat) (population : Population α) (state : State α σ τ) :
    Option (State α σ τ) :=
  match population.best?, population.worst? with
  | some leader, some last =>
    let best := better state.best leader
    let made := report config generation leader last best
    some ⟨population, some best, state.history ++ [made], observe state.observed made, state.source⟩
  | _, _ => none

/-- What a search that ended with some best candidate finds. -/
def conclude (config : SearchConfig α) (best : Option (Individual α))
    (history : List (GenerationReport α)) : Except SearchError (SearchResult α) :=
  match best with
  | none => .error (.invalidConfig "generations must be at least 1")
  | some best =>
    let stats := best.stats.getD EvalStats.empty
    match best.chromosome.toWeights with
    | .error error => .error (.weights error)
    | .ok weights => .ok ⟨weights, stats, stats.fBeta config.fBeta, history⟩

/-- The end of a search in some state. -/
def State.finish (state : State α σ τ) (outcome : Except SearchError (SearchResult α)) :
    SearchRun α σ τ :=
  ⟨outcome, state.observed, state.source⟩

end

variable [Ranked α] [WordSource σ]

/-- The state with the next generation bred; the last generation, after which none is left, is
kept. -/
def State.breed (config : SearchConfig α) (generation left : Nat) (state : State α σ τ) :
    State α σ τ :=
  match left with
  | 0 => state
  | _ + 1 =>
    let (population, source) := state.population.breed config generation state.source
    { state with population, source }

/-- Searches for `left` more generations, the next one having the given number. -/
def runFrom (config : SearchConfig α) (dataset : Dataset α) (schedule : Schedule)
    (observe : τ → GenerationReport α → τ) (generation left : Nat) (state : State α σ τ) :
    SearchRun α σ τ :=
  match left with
  | 0 => state.finish (conclude config state.best state.history)
  | left + 1 =>
    match state.population.evaluate? config dataset (schedule generation) with
    | none => state.finish (.error .cancelled)
    | some population =>
      match state.record? config observe generation population.ranked with
      | none => state.finish (.error (.invalidConfig "population_size must be at least 1"))
      | some state =>
        runFrom config dataset schedule observe (generation + 1) left
          (state.breed config generation left)

/-- Searches for weights, with settings that make sense. The observer is shown the report of each
generation when it is made. -/
def run (config : SearchConfig α) (dataset : Dataset α) (schedule : Schedule)
    (observe : τ → GenerationReport α → τ) (observed : τ) (source : σ) : SearchRun α σ τ :=
  if dataset.isEmpty then ⟨.error .emptyDataset, observed, source⟩
  else
    let (population, source) := Population.random config Slot.count source
    runFrom config dataset schedule observe 0 config.generations
      ⟨population, none, [], observed, source⟩

end Search

/-! ## Text -/

/-- As an object. -/
def GenerationReport.toJson (report : GenerationReport Float) : Json :=
  .object
    [⟨"generation", .natural report.generation⟩, ⟨"best", .number report.best⟩,
      ⟨"worst", .number report.worst⟩, ⟨"best_so_far", .number report.bestSoFar⟩,
      ⟨"f_beta", .number report.fBeta⟩]

/-- As an object. -/
def SearchResult.toJson (result : SearchResult Float) : Json :=
  .object
    [⟨"weights", .ofNumbers result.weights.toList⟩, ⟨"stats", result.stats.toJson⟩,
      ⟨"f_beta", .number result.fBeta⟩,
      ⟨"history", .list (result.history.map GenerationReport.toJson)⟩]

end CorpusCost
