import CorpusCost.Fit.Workers
import CorpusCost.Proofs.ChunkPartition

/-!
# Evaluation by workers in any order

A run of the machine begins with a cleared stack, so what comes of a candidate depends on the
candidate alone (`Individual.evaluated`). Each worker is therefore bound to leave its chunk with
every candidate evaluated, whatever it has done of it so far, and no move changes what the workers
are bound to leave (`Crew.bound_move`). Put together this is the whole population: an evaluation
that nobody stops evaluates every candidate once, in place (`Population.evaluate?_eq`).
-/

set_option autoImplicit false

namespace CorpusCost

open Machine

variable {α : Type} [Scalar α]

/-! ## Stacks of earlier runs -/

theorem Sample.score?_stack (sample : Sample α) (weights : Weights α) (stack other : Stack α) :
    (sample.score? weights stack).1 = (sample.score? weights other).1 := by
  unfold score?
  cases sample.query.compile weights with
  | error error => rfl
  | ok program => rfl

theorem Dataset.predictions_stack (weights : Weights α) (samples : List (Sample α))
    (stack other : Stack α) :
    (predictions weights samples stack).1 = (predictions weights samples other).1 := by
  induction samples generalizing stack other with
  | nil => rfl
  | cons sample samples ih =>
    simp only [predictions]
    rw [sample.score?_stack weights stack other, ih _ (sample.score? weights other).2]

theorem Dataset.evaluate_stack (dataset : Dataset α) (weights : Weights α) (threshold : α)
    (stack other : Stack α) :
    (dataset.evaluate weights threshold stack).1 = (dataset.evaluate weights threshold other).1 :=
  congrArg (EvalStats.ofPredictions threshold)
    (predictions_stack weights dataset.samples stack other)

namespace Individual

variable (dataset : Dataset α) (threshold : α)

/-- A candidate after its evaluation. -/
def evaluated (individual : Individual α) : Individual α :=
  (individual.evaluate dataset threshold []).1

/-- What earlier runs have left on the stack does not matter to a candidate. -/
theorem evaluate_fst (individual : Individual α) (stack : Stack α) :
    (individual.evaluate dataset threshold stack).1 = individual.evaluated dataset threshold := by
  unfold evaluated evaluate
  cases individual.chromosome.toWeights with
  | error error => rfl
  | ok weights =>
    dsimp only
    rw [dataset.evaluate_stack weights threshold stack []]

@[simp] theorem chromosome_evaluated (individual : Individual α) :
    (individual.evaluated dataset threshold).chromosome = individual.chromosome := by
  unfold evaluated evaluate
  split <;> rfl

/-- One machine for all candidates does as well as a machine for each. -/
theorem evaluateAll_eq_map (individuals : List (Individual α)) (stack : Stack α) :
    evaluateAll dataset threshold individuals stack =
      individuals.map (evaluated dataset threshold) := by
  induction individuals generalizing stack with
  | nil => rfl
  | cons individual individuals ih =>
    simp only [evaluateAll, List.map_cons]
    rw [ih, evaluate_fst]

end Individual

/-! ## What workers are bound to leave -/

section

variable (dataset : Dataset α) (threshold : α)

namespace Worker

/-- The candidates that a worker is bound to leave: those it has evaluated and those it has
still to evaluate. -/
def bound (worker : Worker α) : List (Individual α) :=
  worker.finished ++ worker.waiting.map (Individual.evaluated dataset threshold)

theorem complete_eq_bound (worker : Worker α) :
    worker.complete dataset threshold = worker.bound dataset threshold := by
  rw [complete, Individual.evaluateAll_eq_map, bound]

theorem bound_step (worker : Worker α) :
    (worker.step dataset threshold).bound dataset threshold = worker.bound dataset threshold := by
  unfold step
  split
  · rfl
  · rename_i individual waiting hwaiting
    simp [bound, hwaiting, Individual.evaluate_fst]

end Worker

omit [Scalar α] in
/-- A step of one of several parties that changes nothing in what the party is bound to leave
changes nothing in what all of them are. -/
theorem flatMap_modify {β γ : Type} {leave : β → List γ} {step : β → β}
    (hstep : ∀ party, leave (step party) = leave party) (parties : List β) (number : Nat) :
    (parties.modify number step).flatMap leave = parties.flatMap leave := by
  induction parties generalizing number with
  | nil => cases number <;> rfl
  | cons party parties ih =>
    cases number with
    | zero => simp [List.modify_zero_cons, hstep]
    | succ number => simp [List.modify_succ_cons, ih]

namespace Crew

/-- The candidates that all workers are bound to leave, in the order of their chunks. -/
def bound (crew : Crew α) : List (Individual α) :=
  crew.workers.flatMap (Worker.bound dataset threshold)

/-- No move changes what the workers are bound to leave. -/
theorem bound_move (crew : Crew α) (move : Move) :
    (crew.move dataset threshold move).bound dataset threshold = crew.bound dataset threshold := by
  cases move with
  | stop => rfl
  | work number =>
    unfold Crew.move
    dsimp only
    split
    · rfl
    · exact flatMap_modify (Worker.bound_step dataset threshold) crew.workers number

theorem bound_after (crew : Crew α) (moves : List Move) :
    (crew.after dataset threshold moves).bound dataset threshold =
      crew.bound dataset threshold := by
  induction moves generalizing crew with
  | nil => rfl
  | cons next moves ih =>
    rw [after, List.foldl_cons]
    exact (ih (crew.move dataset threshold next)).trans (crew.bound_move dataset threshold next)

/-- The workers stop exactly if anyone asks them to. -/
theorem stopped_after (crew : Crew α) (moves : List Move) :
    (crew.after dataset threshold moves).stopped = (crew.stopped || decide (.stop ∈ moves)) := by
  induction moves generalizing crew with
  | nil => simp [after]
  | cons next moves ih =>
    rw [after, List.foldl_cons]
    refine (ih (crew.move dataset threshold next)).trans ?_
    cases next with
    | stop => simp [move]
    | work number =>
      have hsame : (crew.move dataset threshold (.work number)).stopped = crew.stopped := by
        unfold move
        dsimp only
        split <;> rfl
      simp [hsame]

theorem join?_eq (crew : Crew α) :
    crew.join? dataset threshold =
      if crew.stopped then none else some ⟨crew.bound dataset threshold⟩ := by
  have hcomplete : Worker.complete dataset threshold = Worker.bound dataset threshold :=
    funext (Worker.complete_eq_bound dataset threshold)
  rw [join?, hcomplete]
  rfl

theorem bound_ofPopulation (population : Population α) (workers : Nat) :
    (ofPopulation population workers).bound dataset threshold =
      (Chunk.split population.individuals workers).flatten.map
        (Individual.evaluated dataset threshold) := by
  rw [bound, ofPopulation, List.flatMap_map, List.flatMap_def, List.map_flatten]
  rfl

end Crew

end

namespace Population

/-- A population with every candidate evaluated. -/
def evaluated (population : Population α) (dataset : Dataset α) (threshold : α) : Population α :=
  ⟨population.individuals.map (Individual.evaluated dataset threshold)⟩

/-- An evaluation has no result if anyone asks to stop, and otherwise evaluates every candidate,
whatever the order of the moves. -/
theorem evaluate?_eq (population : Population α) {config : SearchConfig α} (dataset : Dataset α)
    (hworkers : 0 < config.workers) (moves : List Move) :
    population.evaluate? config dataset moves =
      if .stop ∈ moves then none else some (population.evaluated dataset config.threshold) := by
  rw [evaluate?, Crew.join?_eq, Crew.stopped_after, Crew.bound_after, Crew.bound_ofPopulation,
    Chunk.flatten_split _ hworkers]
  simp [Crew.ofPopulation, evaluated]

end Population

end CorpusCost
