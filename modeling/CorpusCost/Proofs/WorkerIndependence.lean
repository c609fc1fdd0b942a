import CorpusCost.Proofs.SearchOutcome
import CorpusCost.Proofs.SmallSteps

/-!
# Workers make no difference

A search that nobody stops does the same for any number of workers and any order of their moves: the
words of the source are drawn between evaluations only, and an evaluation evaluates every candidate
in place. So a search is determined by its settings but for the number of workers, by its dataset,
and by its source.
-/

set_option autoImplicit false

namespace CorpusCost

namespace Search

variable {α σ τ : Type} [Ranked α] [WordSource σ]

/-- A search under way that nobody stops goes on in the same way for any number of workers and in
any order of moves. -/
theorem runFrom_workers {config : SearchConfig α} {workers : Nat} {dataset : Dataset α}
    {schedule other : Schedule} {observe : τ → GenerationReport α → τ}
    (hconfig : 0 < config.workers) (hworkers : 0 < workers)
    (hschedule : ∀ generation, .stop ∉ schedule generation)
    (hother : ∀ generation, .stop ∉ other generation) (generation left : Nat)
    (state : State α σ τ) :
    runFrom config dataset schedule observe generation left state =
      runFrom { config with workers } dataset other observe generation left state := by
  have hrecord : ∀ generation (population : Population α) (state : State α σ τ),
      state.record? { config with workers } observe generation population =
        state.record? config observe generation population :=
    fun _ _ _ => rfl
  have hbreed : ∀ generation left (state : State α σ τ),
      state.breed { config with workers } generation left = state.breed config generation left :=
    fun _ _ _ => rfl
  induction left generalizing generation state with
  | zero => rfl
  | succ left ih =>
    have hfirst := state.population.evaluate?_eq dataset hconfig (schedule generation)
    have hsecond := state.population.evaluate?_eq dataset
      (show 0 < ({ config with workers } : SearchConfig α).workers from hworkers) (other generation)
    rw [if_neg (hschedule generation)] at hfirst
    rw [if_neg (hother generation)] at hsecond
    rw [runFrom, runFrom, hfirst, hsecond]
    simp only [hrecord, hbreed]
    split
    · rfl
    · exact ih _ _

/-- Settings that differ only in the number of workers give the same search, whatever the order of
the workers' moves, unless someone stops it. In each of its evaluations, all orders of the moves and
all orders of the small steps of the tasks evaluate the candidates just as one machine does that
takes them one after the other; and tasks that get to make as many steps as they have left are
done. -/
theorem run_workers (config : SearchConfig α) (workers : Nat) (dataset : Dataset α)
    (schedule other : Schedule) (observe : τ → GenerationReport α → τ) (observed : τ) (source : σ)
    (hconfig : config.validate = .ok ()) (hworkers : { config with workers }.validate = .ok ())
    (hschedule : ∀ generation, .stop ∉ schedule generation)
    (hother : ∀ generation, .stop ∉ other generation) :
    run config dataset schedule observe observed source =
        run { config with workers } dataset other observe observed source ∧
      ∀ (population : Population α) (stack : Machine.Stack α),
        let alone := Individual.evaluateAll dataset config.threshold population.individuals stack
        let tasks := Tasks.ofPopulation population config.workers
        (∀ moves, .stop ∉ moves → population.evaluate? config dataset moves = some ⟨alone⟩) ∧
        (∀ order, (∀ task ∈ tasks.after dataset config.threshold order, task.IsDone) →
          (tasks.after dataset config.threshold order).flatMap Task.finished = alone) ∧
        ∀ order,
          (∀ number, ∀ task ∈ tasks[number]?, task.left dataset ≤ order.count number) →
          ∀ task ∈ tasks.after dataset config.threshold order, task.IsDone := by
  obtain ⟨-, -, hpositive⟩ := SearchConfig.positive_of_validate hconfig
  obtain ⟨-, -, hothers⟩ := SearchConfig.positive_of_validate hworkers
  refine ⟨?_, ?_⟩
  · cases hdataset : dataset.isEmpty with
    | true => simp only [run, hdataset, if_true]
    | false =>
      rw [run_eq config schedule observe observed source hdataset,
        run_eq { config with workers } other observe observed source hdataset]
      exact runFrom_workers hpositive hothers hschedule hother 0 config.generations _
  · intro population stack alone tasks
    have halone : alone = population.individuals.map
        (Individual.evaluated dataset config.threshold) :=
      Individual.evaluateAll_eq_map dataset config.threshold population.individuals stack
    refine ⟨?_, ?_, Tasks.isDone_after dataset config.threshold tasks⟩
    · intro moves hmoves
      rw [Population.evaluate?_eq _ dataset hpositive, if_neg hmoves, halone]
      rfl
    · intro order hdone
      rw [halone]
      exact Tasks.finished_of_isDone dataset config.threshold population hpositive order hdone

/-- The standard settings and those with one worker, on a dataset of one query. -/
theorem run_workers_standard :
    let config : SearchConfig Float := SearchConfig.standard
    let dataset : Dataset Float := Dataset.ofPairs [("[word=\"a\"]", 1.0)]
    let source := ScriptedWords.ofList [5]
    config.workers = 8 ∧
      run config dataset Schedule.plain (fun (_ : Unit) _ => ()) () source =
        run { config with workers := 1 } dataset (fun _ => [.work 0]) (fun _ _ => ()) () source :=
  ⟨rfl, (run_workers SearchConfig.standard 1 _ _ _ _ () _
    (SearchConfig.validate_eq_ok.mpr (by decide +kernel))
    (SearchConfig.validate_eq_ok.mpr (by decide +kernel))
    (fun _ => by simp [Schedule.plain]) (fun _ => by simp)).1⟩

end Search

end CorpusCost
