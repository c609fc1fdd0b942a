import CorpusCost.Fit.Chunk
import CorpusCost.Fit.Population

/-!
# Workers

A population is evaluated by workers that each take a chunk of it and a machine of their own. They
work in any order, one candidate at a time, and before each candidate they look whether anyone has
asked to stop. What happens meanwhile is a list of moves; after the last one the workers go on to
their end. An evaluation that anyone has asked to stop has no result.
-/

set_option autoImplicit false

namespace CorpusCost

variable {α : Type} [Scalar α]

/-- Candidates evaluated one after the other on a machine that has some stack at first. -/
def Individual.evaluateAll (dataset : Dataset α) (threshold : α) :
    List (Individual α) → Machine.Stack α → List (Individual α)
  | [], _ => []
  | individual :: individuals, stack =>
    let (individual, stack) := individual.evaluate dataset threshold stack
    individual :: evaluateAll dataset threshold individuals stack

/-- A worker with its chunk of a population. -/
structure Worker (α : Type) where
  /-- The candidates it has evaluated, in order. -/
  finished : List (Individual α)
  /-- The candidates it has still to evaluate, in order. -/
  waiting : List (Individual α)
  /-- The stack of its machine. -/
  stack : Machine.Stack α

namespace Worker

omit [Scalar α] in
/-- A worker at the beginning of its chunk. -/
def ofChunk (chunk : List (Individual α)) : Worker α := ⟨[], chunk, []⟩

/-- The worker after the next candidate. -/
def step (dataset : Dataset α) (threshold : α) (worker : Worker α) : Worker α :=
  match worker.waiting with
  | [] => worker
  | individual :: waiting =>
    let (individual, stack) := individual.evaluate dataset threshold worker.stack
    ⟨worker.finished ++ [individual], waiting, stack⟩

/-- The candidates of a worker that has gone on to its end. -/
def complete (dataset : Dataset α) (threshold : α) (worker : Worker α) : List (Individual α) :=
  worker.finished ++ Individual.evaluateAll dataset threshold worker.waiting worker.stack

end Worker

/-- What happens while a population is evaluated. -/
inductive Move where
  /-- The worker with this number comes to its next candidate. -/
  | work (worker : Nat)
  /-- Someone asks to stop. -/
  | stop
  deriving DecidableEq, Repr

/-- What happens while each generation is evaluated, by the number of the generation. -/
abbrev Schedule := Nat → List Move

namespace Schedule

/-- The workers go on to their end one after the other. -/
def plain : Schedule := fun _ => []

/-- Someone asks to stop before the generation with this number is evaluated. -/
def stoppedFrom (first : Nat) : Schedule := fun generation =>
  if first ≤ generation then [.stop] else []

end Schedule

/-- The workers on a population. -/
structure Crew (α : Type) where
  /-- The workers, in the order of their chunks. -/
  workers : List (Worker α)
  /-- Whether anyone has asked to stop. -/
  stopped : Bool

namespace Crew

omit [Scalar α] in
/-- As many workers as asked for at the beginning of their chunks. -/
def ofPopulation (population : Population α) (workers : Nat) : Crew α :=
  ⟨(Chunk.split population.individuals workers).map Worker.ofChunk, false⟩

/-- The workers after a move. A worker that sees that anyone has asked to stop evaluates
nothing. -/
def move (dataset : Dataset α) (threshold : α) (crew : Crew α) : Move → Crew α
  | .work worker =>
    if crew.stopped then crew
    else { crew with workers := crew.workers.modify worker (Worker.step dataset threshold) }
  | .stop => { crew with stopped := true }

/-- The workers after all moves of a list. -/
def after (dataset : Dataset α) (threshold : α) (crew : Crew α) (moves : List Move) : Crew α :=
  moves.foldl (move dataset threshold) crew

/-- The population once all workers are done; none if anyone has asked to stop. -/
def join? (dataset : Dataset α) (threshold : α) (crew : Crew α) : Option (Population α) :=
  if crew.stopped then none
  else some ⟨crew.workers.flatMap (Worker.complete dataset threshold)⟩

end Crew

/-- The population evaluated by workers while the moves happen; none if one of them is to stop. -/
def Population.evaluate? (population : Population α) (config : SearchConfig α)
    (dataset : Dataset α) (moves : List Move) : Option (Population α) :=
  ((Crew.ofPopulation population config.workers).after dataset config.threshold moves).join?
    dataset config.threshold

end CorpusCost
