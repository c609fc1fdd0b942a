import Mathlib.Algebra.Ring.Nat
import CorpusCost.Proofs.Interleaving

/-!
# Evaluation in small steps

A task is a worker seen instruction by instruction: it takes the next candidate, compiles the query
of the next sample, executes one instruction of its program, takes the score off the stack, or is
done with the candidate. The tasks of a population make their steps in any order, given as a list
that names a task for each step.

Two things hold of every step. It leaves alone what the task is bound to leave (`Task.bound_step`),
so the order of the steps does not matter; and it brings the task nearer to its end
(`Task.left_step`), so that tasks that get to make steps enough are done (`Tasks.isDone_after`).
-/

set_option autoImplicit false

namespace CorpusCost

open Machine

variable {α : Type} [Scalar α]

/-! ## Scores in small steps -/

namespace Machine

/-- The value that the rest of a program leaves on top of the stack; none if it leaves no value or
an instruction finds too few. -/
def restValue? : Program α → Stack α → Option α
  | [], stack => stack.head?
  | instruction :: program, stack => (step? instruction stack).bind (restValue? program)

theorem restValue?_eq (program : Program α) (stack : Stack α) (pc : Nat) :
    restValue? program stack =
      match executeFrom pc program stack with
      | (.ok (), stack) => stack.head?
      | (.error _, _) => none := by
  induction program generalizing stack pc with
  | nil => rfl
  | cons instruction program ih =>
    rw [restValue?, executeFrom_cons]
    cases step? instruction stack with
    | none => rfl
    | some next => exact ih next (pc + 1)

end Machine

namespace Sample

theorem score?_of_error {sample : Sample α} {weights : Weights α} {error : CostError}
    (hcompile : sample.query.compile weights = .error error) (stack : Stack α) :
    (sample.score? weights stack).1 = none := by
  rw [score?, hcompile]

theorem score?_of_ok {sample : Sample α} {weights : Weights α} {program : Program α}
    (hcompile : sample.query.compile weights = .ok program) (stack : Stack α) :
    (sample.score? weights stack).1 = restValue? program [] := by
  rw [score?, hcompile, restValue?_eq program [] 0]
  simp only [run, execute]
  rcases executeFrom 0 program [] with ⟨_ | _, _ | _⟩ <;> rfl

end Sample

/-! ## Tasks -/

/-- The trial of a candidate on a dataset, under way. -/
structure Trial (α : Type) where
  /-- The candidate. -/
  individual : Individual α
  /-- Its weights. -/
  weights : Weights α
  /-- The scores so far beside the seconds. -/
  pairs : List (α × α)
  /-- The samples that have no score yet. -/
  samples : List (Sample α)

namespace Trial

omit [Scalar α] in
/-- The trial with one more score, if there is one. -/
def add (trial : Trial α) (seconds : α) (score : Option α) : Trial α :=
  { trial with pairs := trial.pairs ++ (score.map fun value => (value, seconds)).toList }

/-- The candidate when the trial is done. -/
def close (trial : Trial α) (threshold : α) : Individual α :=
  { trial.individual with stats := some (.ofPredictions threshold trial.pairs) }

/-- The candidate that the trial is bound to leave. -/
def bound (trial : Trial α) (threshold : α) : Individual α :=
  { trial.individual with
    stats := some (.ofPredictions threshold
      (trial.pairs ++ (Dataset.predictions trial.weights trial.samples []).1)) }

theorem bound_nil {trial : Trial α} (hsamples : trial.samples = [])
    (threshold : α) : trial.bound threshold = trial.close threshold := by
  simp [bound, close, hsamples, Dataset.predictions]

theorem bound_cons {trial : Trial α} {sample : Sample α} {samples : List (Sample α)}
    (hsamples : trial.samples = sample :: samples) (threshold : α) (stack : Stack α) :
    trial.bound threshold =
      ({ trial with samples }.add sample.seconds
        (sample.score? trial.weights stack).1).bound threshold := by
  simp only [bound, add, hsamples, Dataset.predictions, List.append_assoc]
  rw [sample.score?_stack trial.weights stack [],
    Dataset.predictions_stack trial.weights samples
      (sample.score? trial.weights []).2 []]

theorem bound_start (dataset : Dataset α) (threshold : α) {individual : Individual α}
    {weights : Weights α} (hweights : individual.chromosome.toWeights = .ok weights) :
    bound ⟨individual, weights, [], dataset.samples⟩ threshold =
      individual.evaluated dataset threshold := by
  simp [bound, Individual.evaluated, Individual.evaluate, hweights, Dataset.evaluate]

end Trial

/-- What a task is at. -/
inductive Activity (α : Type) where
  /-- It is between two candidates. -/
  | idle
  /-- It is between two samples. -/
  | trying (trial : Trial α)
  /-- It is inside the program of a sample that took some seconds. -/
  | scoring (seconds : α) (program : Program α) (trial : Trial α)

/-- A task with its chunk of a population. -/
structure Task (α : Type) where
  /-- The candidates it is done with, in order. -/
  finished : List (Individual α)
  /-- The candidates it has still to begin with, in order. -/
  waiting : List (Individual α)
  /-- What it is at. -/
  activity : Activity α
  /-- The stack of its machine. -/
  stack : Stack α

namespace Task

omit [Scalar α] in
/-- A task at the beginning of its chunk. -/
def ofChunk (chunk : List (Individual α)) : Task α := ⟨[], chunk, .idle, []⟩

omit [Scalar α] in
/-- Whether a task has nothing left to do. -/
def IsDone (task : Task α) : Prop := task.waiting = [] ∧ task.activity matches .idle

omit [Scalar α] in
instance (task : Task α) : Decidable task.IsDone := inferInstanceAs (Decidable (_ ∧ _))

section

variable (dataset : Dataset α) (threshold : α)

/-- The task after its next step. -/
def step (task : Task α) : Task α :=
  match task.activity with
  | .idle =>
    match task.waiting with
    | [] => task
    | individual :: waiting =>
      match individual.chromosome.toWeights with
      | .error _ =>
        { task with finished := task.finished ++ [{ individual with stats := none }], waiting }
      | .ok weights =>
        { task with waiting, activity := .trying ⟨individual, weights, [], dataset.samples⟩ }
  | .trying trial =>
    match trial.samples with
    | [] =>
      { task with finished := task.finished ++ [trial.close threshold], activity := .idle }
    | sample :: samples =>
      match sample.query.compile trial.weights with
      | .error _ => { task with activity := .trying { trial with samples } }
      | .ok program =>
        { task with
          activity := .scoring sample.seconds program { trial with samples }, stack := [] }
  | .scoring seconds [] trial =>
    { task with activity := .trying (trial.add seconds task.stack.head?) }
  | .scoring seconds (instruction :: program) trial =>
    match step? instruction task.stack with
    | none => { task with activity := .trying trial }
    | some stack => { task with activity := .scoring seconds program trial, stack }

/-- The candidate that a task is at, as it is bound to leave it. -/
def current (task : Task α) : Option (Individual α) :=
  match task.activity with
  | .idle => none
  | .trying trial => some (trial.bound threshold)
  | .scoring seconds program trial =>
    some ((trial.add seconds (restValue? program task.stack)).bound threshold)

/-- The candidates that a task is bound to leave: those it is done with, the one it is at, and those
it has still to begin with. -/
def bound (task : Task α) : List (Individual α) :=
  task.finished ++ (task.current threshold).toList ++
    task.waiting.map (Individual.evaluated dataset threshold)

theorem bound_ofChunk (chunk : List (Individual α)) :
    (ofChunk chunk).bound dataset threshold =
      chunk.map (Individual.evaluated dataset threshold) :=
  rfl

theorem bound_of_isDone {task : Task α} (hdone : task.IsDone) :
    task.bound dataset threshold = task.finished := by
  obtain ⟨finished, waiting, activity, stack⟩ := task
  obtain ⟨hwaiting, hidle⟩ := hdone
  obtain rfl : waiting = [] := hwaiting
  cases activity with
  | idle => simp [bound, current]
  | trying trial => cases hidle
  | scoring seconds program trial => cases hidle

/-- No step changes what the task is bound to leave. -/
theorem bound_step (task : Task α) :
    (task.step dataset threshold).bound dataset threshold = task.bound dataset threshold := by
  obtain ⟨finished, waiting, activity, stack⟩ := task
  cases activity with
  | idle =>
    cases waiting with
    | nil => rfl
    | cons individual waiting =>
      cases hweights : individual.chromosome.toWeights with
      | error error =>
        simp [step, bound, current, hweights, Individual.evaluated, Individual.evaluate]
      | ok weights =>
        simp [step, bound, current, hweights, Trial.bound_start dataset threshold hweights]
  | trying trial =>
    cases hsamples : trial.samples with
    | nil => simp [step, bound, current, hsamples, Trial.bound_nil hsamples threshold]
    | cons sample samples =>
      have hbound := Trial.bound_cons hsamples threshold []
      cases hcompile : sample.query.compile trial.weights with
      | error error =>
        rw [Sample.score?_of_error hcompile] at hbound
        simp [step, bound, current, hsamples, hcompile, hbound, Trial.add]
      | ok program =>
        rw [Sample.score?_of_ok hcompile] at hbound
        simp [step, bound, current, hsamples, hcompile, hbound]
  | scoring seconds program trial =>
    cases program with
    | nil => rfl
    | cons instruction program =>
      cases hstep : step? instruction stack with
      | none => simp [step, bound, current, hstep, restValue?, Trial.add]
      | some next => simp [step, bound, current, hstep, restValue?]

end

end Task

/-! ## Steps that are left -/

/-- The number of steps that a sample takes. -/
def Sample.steps (weights : Weights α) (sample : Sample α) : Nat :=
  match sample.query.compile weights with
  | .error _ => 1
  | .ok program => program.length + 2

/-- The number of steps that samples and the end of their trial take. -/
def Trial.left (trial : Trial α) : Nat :=
  (trial.samples.map (Sample.steps trial.weights)).sum + 1

/-- The number of steps that a candidate takes. -/
def Individual.steps (dataset : Dataset α) (individual : Individual α) : Nat :=
  match individual.chromosome.toWeights with
  | .error _ => 1
  | .ok weights => Trial.left ⟨individual, weights, [], dataset.samples⟩ + 1

namespace Task

variable (dataset : Dataset α) (threshold : α)

/-- An upper end of the number of steps that a task has still to make. -/
def left (task : Task α) : Nat :=
  (match task.activity with
    | .idle => 0
    | .trying trial => trial.left
    | .scoring _ program trial => program.length + 1 + trial.left) +
  (task.waiting.map (Individual.steps dataset)).sum

/-- A task with no steps left is done. -/
theorem isDone_of_left {task : Task α} (hleft : task.left dataset = 0) : task.IsDone := by
  obtain ⟨finished, waiting, activity, stack⟩ := task
  cases activity with
  | idle =>
    cases waiting with
    | nil => exact ⟨rfl, rfl⟩
    | cons individual waiting =>
      have hsteps : 0 < individual.steps dataset := by
        unfold Individual.steps
        split <;> omega
      simp only [left, List.map_cons, List.sum_cons] at hleft
      omega
  | trying trial =>
    simp only [left, Trial.left] at hleft
    omega
  | scoring seconds program trial =>
    simp only [left, Trial.left] at hleft
    omega

/-- Every step brings a task nearer to its end. -/
theorem left_step (task : Task α) :
    (task.step dataset threshold).left dataset ≤ task.left dataset - 1 := by
  obtain ⟨finished, waiting, activity, stack⟩ := task
  cases activity with
  | idle =>
    cases waiting with
    | nil => exact Nat.zero_le _
    | cons individual waiting =>
      cases hweights : individual.chromosome.toWeights with
      | error error => simp [step, left, hweights, Individual.steps]
      | ok weights =>
        simp only [step, left, hweights, Individual.steps, List.map_cons, List.sum_cons]
        omega
  | trying trial =>
    cases hsamples : trial.samples with
    | nil => simp [step, left, hsamples, Trial.left]
    | cons sample samples =>
      cases hcompile : sample.query.compile trial.weights with
      | error error =>
        simp only [step, left, hsamples, hcompile, Trial.left, Sample.steps, List.map_cons,
          List.sum_cons]
        omega
      | ok program =>
        simp only [step, left, hsamples, hcompile, Trial.left, Sample.steps, List.map_cons,
          List.sum_cons]
        omega
  | scoring seconds program trial =>
    cases program with
    | nil =>
      simp only [step, left, Trial.left, Trial.add, List.length_nil]
      omega
    | cons instruction program =>
      cases hstep : step? instruction stack with
      | none =>
        simp only [step, left, hstep, List.length_cons]
        omega
      | some next =>
        simp only [step, left, hstep, List.length_cons]
        omega

end Task

/-! ## Tasks in any order -/

/-- The tasks of a population. -/
abbrev Tasks (α : Type) := List (Task α)

namespace Tasks

omit [Scalar α] in
/-- The tasks on the chunks of a population, at their beginning. -/
def ofPopulation (population : Population α) (workers : Nat) : Tasks α :=
  (Chunk.split population.individuals workers).map Task.ofChunk

variable (dataset : Dataset α) (threshold : α)

/-- The tasks after steps of the tasks with the given numbers, one after the other. -/
def after (tasks : Tasks α) (order : List Nat) : Tasks α :=
  order.foldl (fun tasks number => tasks.modify number (Task.step dataset threshold)) tasks

theorem bound_after (tasks : Tasks α) (order : List Nat) :
    (tasks.after dataset threshold order).flatMap (Task.bound dataset threshold) =
      tasks.flatMap (Task.bound dataset threshold) := by
  induction order generalizing tasks with
  | nil => rfl
  | cons number order ih =>
    rw [after, List.foldl_cons]
    exact (ih _).trans (flatMap_modify (Task.bound_step dataset threshold) tasks number)

/-- Tasks that are all done have evaluated every candidate, once and in place, whatever the order of
their steps. -/
theorem finished_of_isDone (population : Population α) {workers : Nat} (hworkers : 0 < workers)
    (order : List Nat)
    (hdone : ∀ task ∈ (ofPopulation population workers).after dataset threshold order,
      task.IsDone) :
    ((ofPopulation population workers).after dataset threshold order).flatMap Task.finished =
      population.individuals.map (Individual.evaluated dataset threshold) := by
  have hfinished : ∀ tasks : Tasks α, (∀ task ∈ tasks, task.IsDone) →
      tasks.flatMap Task.finished = tasks.flatMap (Task.bound dataset threshold) := by
    intro tasks htasks
    rw [List.flatMap_def, List.flatMap_def]
    refine congrArg List.flatten (List.map_congr_left ?_)
    exact fun task htask => (Task.bound_of_isDone dataset threshold (htasks task htask)).symm
  rw [hfinished _ hdone, bound_after, ofPopulation, List.flatMap_map]
  simp only [Task.bound_ofChunk]
  rw [List.flatMap_def, ← List.map_flatten, Chunk.flatten_split _ hworkers]

/-- Every step of a task takes one from the steps it has left. -/
theorem left_after (tasks : Tasks α) (order : List Nat) (number : Nat) :
    ∀ task ∈ (tasks.after dataset threshold order)[number]?, ∃ before ∈ tasks[number]?,
      task.left dataset ≤ before.left dataset - order.count number := by
  induction order generalizing tasks with
  | nil => exact fun task htask => ⟨task, htask, Nat.le_refl _⟩
  | cons next order ih =>
    intro task htask
    obtain ⟨middle, hmiddle, hleft⟩ := ih _ task htask
    rw [List.getElem?_modify] at hmiddle
    obtain ⟨before, hbefore, rfl⟩ := Option.map_eq_some_iff.mp hmiddle
    refine ⟨before, hbefore, ?_⟩
    have hstep := before.left_step dataset threshold
    by_cases hnext : next = number
    · subst hnext
      rw [if_pos rfl] at hleft
      rw [List.count_cons_self]
      omega
    · rw [if_neg hnext] at hleft
      rwa [List.count_cons_of_ne hnext]

/-- Tasks that get to make as many steps as they have left are done. -/
theorem isDone_after (tasks : Tasks α) (order : List Nat)
    (hfair : ∀ number, ∀ task ∈ tasks[number]?, task.left dataset ≤ order.count number) :
    ∀ task ∈ tasks.after dataset threshold order, task.IsDone := by
  intro task htask
  obtain ⟨number, hnumber⟩ := List.mem_iff_getElem?.mp htask
  obtain ⟨before, hbefore, hleft⟩ := left_after dataset threshold tasks order number task hnumber
  have henough := hfair number before hbefore
  exact Task.isDone_of_left dataset (by omega)

end Tasks

end CorpusCost
