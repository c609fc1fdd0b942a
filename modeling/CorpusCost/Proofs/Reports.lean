import CorpusCost.Proofs.Evaluation
import CorpusCost.Proofs.SearchOutcome

/-!
# Results and their reports

What an evaluation leaves of a candidate depends on the genes alone, so a candidate that has been
evaluated is left as it is by every further evaluation, on any machine. The kept candidate is such a
one from the generation it comes from to the end, however often the population is ranked and
replaced. So the result of a search can be evaluated again from its weights (`run_reproduces`), and
it has the fitness of the last report.
-/

set_option autoImplicit false

namespace CorpusCost

variable {α σ τ : Type}

/-! ## Evaluated candidates -/

section

variable [Scalar α] (dataset : Dataset α) (threshold : α)

/-- Whether a candidate has been evaluated: another evaluation leaves it as it is. -/
def Individual.IsEvaluated (individual : Individual α) : Prop :=
  individual.evaluated dataset threshold = individual

/-- Whether every candidate has been evaluated. -/
def Population.IsComplete (population : Population α) : Prop :=
  ∀ individual ∈ population.individuals, individual.IsEvaluated dataset threshold

theorem Individual.isEvaluated_evaluated (individual : Individual α) :
    (individual.evaluated dataset threshold).IsEvaluated dataset threshold := by
  unfold IsEvaluated evaluated evaluate
  cases hweights : individual.chromosome.toWeights <;> simp only [hweights]

variable {dataset threshold}

/-- The statistics of an evaluated candidate are those of its weights. -/
theorem Individual.IsEvaluated.stats_eq {individual : Individual α}
    (hevaluated : individual.IsEvaluated dataset threshold) {weights : Weights α}
    (hweights : individual.chromosome.toWeights = .ok weights) :
    individual.stats = some (dataset.evaluate weights threshold []).1 := by
  rw [← hevaluated]
  simp only [evaluated, evaluate, hweights]

end

/-- An evaluation that has a result leaves every candidate evaluated. -/
theorem Population.isComplete_of_evaluate? [Scalar α] {population evaluated : Population α}
    {config : SearchConfig α} {dataset : Dataset α} {moves : List Move}
    (hevaluate : population.evaluate? config dataset moves = some evaluated) :
    evaluated.IsComplete dataset config.threshold := by
  refine population.forall_of_evaluate? ?_ hevaluate
  intro individual stack
  rw [individual.evaluate_fst]
  exact individual.isEvaluated_evaluated dataset config.threshold

/-! ## Reports -/

variable [Ranked α]

theorem Population.IsComplete.ranked {population : Population α} {dataset : Dataset α}
    {threshold : α} (hcomplete : population.IsComplete dataset threshold) :
    population.ranked.IsComplete dataset threshold :=
  fun individual hmem => hcomplete individual (List.mem_mergeSort.mp hmem)

/-- Whether a report is about evaluated candidates alone: the first and the last one of a population
that is completely evaluated and ranked, and a kept one. -/
def GenerationReport.IsFounded (config : SearchConfig α) (dataset : Dataset α)
    (made : GenerationReport α) : Prop :=
  ∃ (population : Population α) (leader last best : Individual α),
    population.IsComplete dataset config.threshold ∧
      population.ranked.best? = some leader ∧ population.ranked.worst? = some last ∧
      best.IsEvaluated dataset config.threshold ∧
      made = Search.report config made.generation leader last best

/-- Whether a result is about evaluated candidates alone: it has the weights and the statistics of one
of them, and all its reports are about such. -/
def SearchResult.IsFounded (config : SearchConfig α) (dataset : Dataset α)
    (result : SearchResult α) : Prop :=
  (∃ best : Individual α, best.IsEvaluated dataset config.threshold ∧
      best.chromosome.toWeights = .ok result.weights ∧ best.stats = some result.stats) ∧
    ∀ made ∈ result.history, made.IsFounded config dataset

namespace Search

/-- A record keeps the better candidate, adds one report to the history and shows it to the
observer. -/
theorem State.eq_of_record? {config : SearchConfig α} {observe : τ → GenerationReport α → τ}
    {generation : Nat} {population : Population α} {state next : State α σ τ}
    (hrecord : state.record? config observe generation population = some next) :
    ∃ leader last, population.best? = some leader ∧ population.worst? = some last ∧
      let best := better state.best leader
      let made := report config generation leader last best
      next = ⟨population, some best, state.history ++ [made], observe state.observed made,
        state.source⟩ := by
  unfold State.record? at hrecord
  split at hrecord
  · rename_i leader last hleader hlast
    exact ⟨leader, last, hleader, hlast, (Option.some.inj hrecord).symm⟩
  · cases hrecord

/-- What holds of a search under way before the generation with some number: the kept candidate has
been evaluated and is the one of the last report, the reports are numbered from zero and are about
evaluated candidates, and the observer has been shown each of them once, in order. -/
structure State.IsReported (config : SearchConfig α) (dataset : Dataset α)
    (observe : τ → GenerationReport α → τ) (observed : τ) (generation : Nat)
    (state : State α σ τ) : Prop where
  best : ∀ best ∈ state.best, best.IsEvaluated dataset config.threshold
  last : state.history.getLast?.map GenerationReport.bestSoFar = state.best.map Individual.fitness
  numbers : state.history.map GenerationReport.generation = List.range generation
  shown : state.observed = state.history.foldl observe observed
  founded : ∀ made ∈ state.history, made.IsFounded config dataset

variable {config : SearchConfig α} {dataset : Dataset α} {observe : τ → GenerationReport α → τ}
  {observed : τ}

/-- A record of a population that is completely evaluated. -/
theorem State.IsReported.record? {generation : Nat} {state next : State α σ τ}
    (hstate : state.IsReported config dataset observe observed generation)
    {population : Population α} (hcomplete : population.IsComplete dataset config.threshold)
    (hrecord : state.record? config observe generation population.ranked = some next) :
    next.IsReported config dataset observe observed (generation + 1) := by
  obtain ⟨leader, last, hleader, hlast, rfl⟩ := State.eq_of_record? hrecord
  have hbest : (better state.best leader).IsEvaluated dataset config.threshold :=
    better_induction (P := (·.IsEvaluated dataset config.threshold)) hstate.best
      (hcomplete.ranked leader (List.mem_of_mem_head? hleader))
  refine ⟨?_, ?_, ?_, ?_, ?_⟩
  · intro best hkept
    obtain rfl := Option.some.inj hkept
    exact hbest
  · simp [report]
  · simp [hstate.numbers, List.range_succ, report]
  · simp [hstate.shown]
  · intro made hmade
    rcases List.mem_append.mp hmade with hearlier | hnew
    · exact hstate.founded made hearlier
    · obtain rfl := List.mem_singleton.mp hnew
      exact ⟨population, leader, last, better state.best leader, hcomplete, hleader, hlast, hbest,
        rfl⟩

variable [WordSource σ]

theorem isReported_initial (config : SearchConfig α) (dataset : Dataset α)
    (observe : τ → GenerationReport α → τ) (observed : τ) (source : σ) :
    (initial config observed source).IsReported config dataset observe observed 0 :=
  ⟨nofun, rfl, rfl, rfl, nofun⟩

/-- Breeding touches nothing that has been kept or reported. -/
theorem State.IsReported.breed {generation : Nat} {state : State α σ τ}
    (hstate : state.IsReported config dataset observe observed generation) (number left : Nat) :
    (state.breed config number left).IsReported config dataset observe observed generation := by
  cases left with
  | zero => exact hstate
  | succ left => exact ⟨hstate.best, hstate.last, hstate.numbers, hstate.shown, hstate.founded⟩

omit [WordSource σ] in
/-- What a search ends with is made of the kept candidate. -/
theorem eq_of_conclude {best : Option (Individual α)} {history : List (GenerationReport α)}
    {result : SearchResult α} (hconclude : conclude config best history = .ok result) :
    ∃ kept weights, best = some kept ∧ kept.chromosome.toWeights = .ok weights ∧
      result = ⟨weights, kept.stats.getD .empty, (kept.stats.getD .empty).fBeta config.fBeta,
        history⟩ := by
  unfold conclude at hconclude
  cases best with
  | none => cases hconclude
  | some kept =>
    cases hweights : kept.chromosome.toWeights with
    | error error => simp [hweights] at hconclude
    | ok weights => exact ⟨kept, weights, rfl, hweights, by simpa [hweights] using hconclude.symm⟩

/-- However a search ends, it ends in a state whose reports are those of the generations it has been
through; one that succeeds has been through all of them. -/
theorem exists_reported_of_runFrom (config : SearchConfig α) (dataset : Dataset α)
    (schedule : Schedule) (observe : τ → GenerationReport α → τ) (observed : τ) (left : Nat) :
    ∀ (generation : Nat) (state : State α σ τ),
      state.IsReported config dataset observe observed generation →
      ∃ (reached : Nat) (final : State α σ τ) (outcome : Except SearchError (SearchResult α)),
        final.IsReported config dataset observe observed reached ∧
          runFrom config dataset schedule observe generation left state = final.finish outcome ∧
          ∀ result, outcome = .ok result →
            reached = generation + left ∧
              conclude config final.best final.history = .ok result := by
  induction left with
  | zero =>
    intro generation state hstate
    exact ⟨generation, state, conclude config state.best state.history, hstate, rfl,
      fun result hok => ⟨rfl, hok⟩⟩
  | succ left ih =>
    intro generation state hstate
    rw [runFrom]
    cases hevaluate : state.population.evaluate? config dataset (schedule generation) with
    | none =>
      refine ⟨generation, state, .error .cancelled, hstate, rfl, ?_⟩
      intro result herror
      cases herror
    | some population =>
      cases hrecord : state.record? config observe generation population.ranked with
      | none =>
        simp only [hrecord]
        refine ⟨generation, state, .error _, hstate, rfl, ?_⟩
        intro result herror
        cases herror
      | some next =>
        simp only [hrecord]
        have hnext := hstate.record? (Population.isComplete_of_evaluate? hevaluate) hrecord
        obtain ⟨reached, final, outcome, hfinal, hrun, hok⟩ :=
          ih (generation + 1) _ (hnext.breed generation left)
        refine ⟨reached, final, outcome, hfinal, hrun, fun result hresult => ?_⟩
        obtain ⟨hreached, hconclude⟩ := hok result hresult
        exact ⟨by omega, hconclude⟩

omit [WordSource σ] in
/-- What is found at the end is the kept candidate, with its weights, its statistics and its
fitness. -/
theorem State.IsReported.conclude {generation : Nat} {state : State α σ τ}
    (hstate : state.IsReported config dataset observe observed generation)
    {result : SearchResult α}
    (hconclude : Search.conclude config state.best state.history = .ok result) :
    result.IsFounded config dataset ∧ result.history = state.history ∧
      result.fBeta = result.stats.fBeta config.fBeta ∧
      result.history.getLast?.map GenerationReport.bestSoFar = some result.stats.fitness := by
  obtain ⟨kept, weights, hkept, hweights, rfl⟩ := eq_of_conclude hconclude
  have hevaluated := hstate.best kept hkept
  have hstats := hevaluated.stats_eq hweights
  refine ⟨⟨⟨kept, hevaluated, hweights, ?_⟩, hstate.founded⟩, rfl, rfl, ?_⟩
  · simp [hstats]
  · rw [hstate.last, hkept, Option.map_some, Individual.fitness, hstats]
    rfl

/-- A search that succeeds has been through all its generations. -/
theorem exists_reported_of_run {schedule : Schedule} {source : σ} {result : SearchResult α}
    (hok : (run config dataset schedule observe observed source).outcome = .ok result) :
    ∃ final : State α σ τ,
      final.IsReported config dataset observe observed config.generations ∧
        conclude config final.best final.history = .ok result ∧
        (run config dataset schedule observe observed source).observed = final.observed := by
  have hdataset : dataset.isEmpty = false := by
    refine Bool.eq_false_iff.mpr fun hempty => ?_
    simp [run, hempty] at hok
  rw [run_eq config schedule observe observed source hdataset] at hok ⊢
  obtain ⟨reached, final, outcome, hfinal, hrun, hend⟩ :=
    exists_reported_of_runFrom config dataset schedule observe observed config.generations 0 _
      (isReported_initial config dataset observe observed source)
  rw [hrun] at hok ⊢
  obtain ⟨hreached, hconclude⟩ := hend result hok
  rw [Nat.zero_add] at hreached
  exact ⟨final, hreached ▸ hfinal, hconclude, rfl⟩

/-- Whether what an observer has made of reports is made of some that are numbered from zero and are
about evaluated candidates alone. -/
def IsShown (config : SearchConfig α) (dataset : Dataset α) (observe : τ → GenerationReport α → τ)
    (observed shown : τ) : Prop :=
  ∃ reports : List (GenerationReport α),
    shown = reports.foldl observe observed ∧
      reports.map GenerationReport.generation = List.range reports.length ∧
      ∀ made ∈ reports, made.IsFounded config dataset

omit [WordSource σ] in
theorem State.IsReported.isShown {generation : Nat} {state : State α σ τ}
    (hstate : state.IsReported config dataset observe observed generation) :
    IsShown config dataset observe observed state.observed := by
  refine ⟨state.history, hstate.shown, ?_, hstate.founded⟩
  have hlength := congrArg List.length hstate.numbers
  rw [List.length_map, List.length_range] at hlength
  rw [hstate.numbers, hlength]

/-- However a search ends, its observer has been shown reports about evaluated candidates alone. -/
theorem isShown_run (config : SearchConfig α) (dataset : Dataset α) (schedule : Schedule)
    (observe : τ → GenerationReport α → τ) (observed : τ) (source : σ) :
    IsShown config dataset observe observed
      (run config dataset schedule observe observed source).observed := by
  have hinitial := isReported_initial config dataset observe observed source
  cases hdataset : dataset.isEmpty with
  | true =>
    simp only [run, hdataset, if_true]
    exact hinitial.isShown
  | false =>
    rw [run_eq config schedule observe observed source hdataset]
    obtain ⟨reached, final, outcome, hfinal, hrun, -⟩ :=
      exists_reported_of_runFrom config dataset schedule observe observed config.generations 0 _
        hinitial
    rw [hrun]
    exact hfinal.isShown

/-- What a search finds reproduces its reports. An evaluation of the weights, on any machine, gives
the statistics of the result; these have the fitness that the last report gives for the best
candidate; there is one report for each generation, numbered from zero; and the observer has been
shown just these reports, in order. -/
theorem run_reproduces {schedule : Schedule} {source : σ} {result : SearchResult α}
    (hok : (run config dataset schedule observe observed source).outcome = .ok result) :
    (∀ stack, (dataset.evaluate result.weights config.threshold stack).1 = result.stats) ∧
      result.fBeta = result.stats.fBeta config.fBeta ∧
      result.history.getLast?.map GenerationReport.bestSoFar = some result.stats.fitness ∧
      result.history.map GenerationReport.generation = List.range config.generations ∧
      (run config dataset schedule observe observed source).observed =
        result.history.foldl observe observed := by
  obtain ⟨final, hfinal, hconclude, hobserved⟩ := exists_reported_of_run hok
  obtain ⟨⟨⟨best, hevaluated, hweights, hbest⟩, -⟩, hhistory, hfBeta, hlast⟩ :=
    hfinal.conclude hconclude
  refine ⟨?_, hfBeta, hlast, ?_, ?_⟩
  · intro stack
    rw [dataset.evaluate_stack result.weights config.threshold stack []]
    exact Option.some.inj ((hevaluated.stats_eq hweights).symm.trans hbest)
  · rw [hhistory, hfinal.numbers]
  · rw [hobserved, hfinal.shown, hhistory]

/-- The standard settings, on a dataset of one query, with an observer that collects the reports, the
latest one first. -/
theorem run_reproduces_standard :
    let config : SearchConfig Float := SearchConfig.standard
    let dataset : Dataset Float := Dataset.ofPairs [("[word=\"a\"]", 1.0)]
    let source := ScriptedWords.ofList [5]
    ∃ result, (run config dataset Schedule.plain (fun shown made => made :: shown) []
        source).outcome = .ok result ∧
      (∀ stack, (dataset.evaluate result.weights config.threshold stack).1 = result.stats) ∧
      result.history.map GenerationReport.generation = List.range config.generations ∧
      (run config dataset Schedule.plain (fun shown made => made :: shown) [] source).observed =
        result.history.reverse := by
  intro config dataset source
  have hdataset : dataset.isEmpty = false := by decide +kernel
  obtain ⟨result, hok⟩ := run_plain_ok config
    (fun (shown : List (GenerationReport Float)) made => made :: shown) [] source hdataset
    (by decide) (by decide) (by decide)
  obtain ⟨hstats, -, -, hnumbers, hshown⟩ := run_reproduces hok
  refine ⟨result, hok, hstats, hnumbers, hshown.trans ?_⟩
  simp

end Search

end CorpusCost
