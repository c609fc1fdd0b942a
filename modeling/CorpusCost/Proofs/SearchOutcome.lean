import CorpusCost.Fit.Search
import CorpusCost.Proofs.Breeding
import CorpusCost.Proofs.Interleaving

/-!
# How searches end

A search with a candidate, a generation and a worker at least, on a dataset that is not empty,
succeeds unless someone stops it. What is carried from generation to generation is that there are as
many candidates as the settings ask for and that each has a gene for every slot.
-/

set_option autoImplicit false

namespace CorpusCost

variable {α σ τ : Type}

/-! ## Settings that make sense -/

namespace SearchConfig

variable [Scalar α] {config : SearchConfig α}

theorem validate_eq_ok :
    config.validate = .ok () ↔ ∀ requirement ∈ config.requirements, requirement.1 = true := by
  have hfind : config.validate = .ok () ↔
      config.requirements.find? (fun requirement => !requirement.1) = none := by
    unfold validate
    split <;> simp [*]
  rw [hfind, List.find?_eq_none]
  simp

/-- Settings that make sense ask for a candidate, a generation and a worker at least. -/
theorem positive_of_validate (hvalid : config.validate = .ok ()) :
    0 < config.populationSize ∧ 0 < config.generations ∧ 0 < config.workers := by
  have hall := validate_eq_ok.mp hvalid
  simp only [requirements, List.forall_mem_cons, decide_eq_true_eq] at hall
  exact ⟨hall.1, hall.2.1, hall.2.2.1⟩

theorem isPositive_maxGeneValue_of_validate (hvalid : config.validate = .ok ()) :
    isPositive config.maxGeneValue = true := by
  have hall := validate_eq_ok.mp hvalid
  simp only [requirements, List.forall_mem_cons] at hall
  exact hall.2.2.2.2.1

end SearchConfig

/-! ## Sizes of populations and chromosomes -/

namespace Population

/-- Whether each candidate of a population has a gene for every slot. -/
def IsSized (population : Population α) : Prop :=
  ∀ individual ∈ population.individuals, individual.chromosome.size = Slot.count

theorem isSized_ranked [Ranked α] {population : Population α} (hsized : population.IsSized) :
    population.ranked.IsSized :=
  fun individual hmem => hsized individual (List.mem_mergeSort.mp hmem)

variable [Scalar α]

theorem isSized_random [WordSource σ] (config : SearchConfig α) (source : σ) :
    (random config Slot.count source).1.IsSized :=
  forall_random (Chromosome.inherited_size config.maxGeneValue) source

theorem isSized_breed [WordSource σ] {population : Population α} (hsized : population.IsSized)
    (config : SearchConfig α) (generation : Nat) (source : σ) :
    (population.breed config generation source).1.IsSized :=
  forall_breed (Chromosome.inherited_size config.maxGeneValue) hsized generation source

@[simp] theorem size_evaluated (population : Population α) (dataset : Dataset α) (threshold : α) :
    (population.evaluated dataset threshold).size = population.size :=
  List.length_map _

/-- An evaluation leaves what holds of the chromosomes. -/
theorem forall_chromosome_evaluated (P : Chromosome α → Prop) {population : Population α}
    (hpopulation : ∀ individual ∈ population.individuals, P individual.chromosome)
    (dataset : Dataset α) (threshold : α) :
    ∀ individual ∈ (population.evaluated dataset threshold).individuals,
      P individual.chromosome := by
  intro individual hmem
  obtain ⟨original, horiginal, rfl⟩ := List.mem_map.mp hmem
  rw [Individual.chromosome_evaluated]
  exact hpopulation original horiginal

theorem isSized_evaluated {population : Population α} (hsized : population.IsSized)
    (dataset : Dataset α) (threshold : α) : (population.evaluated dataset threshold).IsSized :=
  forall_chromosome_evaluated (fun chromosome => chromosome.size = Slot.count) hsized dataset
    threshold

end Population

/-! ## The search -/

namespace Search

variable [Ranked α]

/-- What holds of a search under way: there are as many candidates as the settings ask for, and each
candidate, the kept one too, has a gene for every slot. -/
structure State.IsSized (config : SearchConfig α) (state : State α σ τ) : Prop where
  size : state.population.size = config.populationSize
  genes : state.population.IsSized
  best : ∀ best, state.best = some best → best.chromosome.size = Slot.count

/-- A population with any candidate is recorded, and the better of its leader and the kept candidate
is kept. -/
theorem State.exists_record? (state : State α σ τ) (config : SearchConfig α)
    (observe : τ → GenerationReport α → τ) (generation : Nat) {population : Population α}
    (hnonempty : population.individuals ≠ []) :
    ∃ next, state.record? config observe generation population = some next ∧
      next.population = population ∧
      next.best = some (better state.best (population.individuals.head hnonempty)) := by
  have hleader : population.best? = some (population.individuals.head hnonempty) :=
    List.head?_eq_some_head hnonempty
  have hlast : population.worst? = some (population.individuals.getLast hnonempty) :=
    List.getLast?_eq_some_getLast hnonempty
  exact ⟨_, by rw [State.record?, hleader, hlast], rfl, rfl⟩

theorem State.IsSized.record? {config : SearchConfig α} {state : State α σ τ}
    (hstate : state.IsSized config) {population : Population α}
    (hsize : population.size = config.populationSize) (hgenes : population.IsSized)
    (hpositive : 0 < config.populationSize) (observe : τ → GenerationReport α → τ)
    (generation : Nat) :
    ∃ next, state.record? config observe generation population = some next ∧
      next.IsSized config ∧ next.best.isSome = true := by
  have hnonempty : population.individuals ≠ [] :=
    List.ne_nil_of_length_pos (by rw [← Population.size]; omega)
  obtain ⟨next, hrecord, hpopulation, hbest⟩ :=
    state.exists_record? config observe generation hnonempty
  refine ⟨next, hrecord, ⟨by rw [hpopulation, hsize], by rwa [hpopulation], ?_⟩, by rw [hbest]; rfl⟩
  intro best hkept
  rw [hbest] at hkept
  obtain rfl := Option.some.inj hkept
  exact better_induction (P := fun kept => kept.chromosome.size = Slot.count) hstate.best
    (hgenes _ (List.head_mem hnonempty))

/-- A generation that is evaluated is recorded. -/
theorem State.IsSized.record?_evaluated {config : SearchConfig α} {state : State α σ τ}
    (hstate : state.IsSized config) (hpositive : 0 < config.populationSize) (dataset : Dataset α)
    (observe : τ → GenerationReport α → τ) (generation : Nat) :
    ∃ next, state.record? config observe generation
        (state.population.evaluated dataset config.threshold).ranked = some next ∧
      next.IsSized config ∧ next.best.isSome = true := by
  refine hstate.record? ?_ (Population.isSized_ranked ?_) hpositive observe generation
  · rw [Population.size_ranked, Population.size_evaluated, hstate.size]
  · exact Population.isSized_evaluated hstate.genes dataset config.threshold

variable [WordSource σ]

/-- The beginning of a search. -/
def initial (config : SearchConfig α) (observed : τ) (source : σ) : State α σ τ :=
  ⟨(Population.random config Slot.count source).1, none, [], observed,
    (Population.random config Slot.count source).2⟩

theorem run_eq (config : SearchConfig α) {dataset : Dataset α} (schedule : Schedule)
    (observe : τ → GenerationReport α → τ) (observed : τ) (source : σ)
    (hdataset : dataset.isEmpty = false) :
    run config dataset schedule observe observed source =
      runFrom config dataset schedule observe 0 config.generations
        (initial config observed source) := by
  unfold run
  rw [hdataset]
  rfl

theorem isSized_initial (config : SearchConfig α) (observed : τ) (source : σ) :
    (initial config observed source).IsSized config :=
  ⟨Population.size_random config Slot.count source, Population.isSized_random config source, nofun⟩

theorem breed_best (config : SearchConfig α) (generation left : Nat) (state : State α σ τ) :
    (state.breed config generation left).best = state.best ∧
      (state.breed config generation left).history = state.history := by
  cases left <;> exact ⟨rfl, rfl⟩

theorem State.IsSized.breed {config : SearchConfig α} {state : State α σ τ}
    (hstate : state.IsSized config) (hpositive : 0 < config.populationSize)
    (generation left : Nat) : (state.breed config generation left).IsSized config := by
  cases left with
  | zero => exact hstate
  | succ left =>
    have hsize : 0 < state.population.size := by
      rw [hstate.size]
      exact hpositive
    exact ⟨Population.size_breed hsize config generation state.source,
      Population.isSized_breed hstate.genes config generation state.source, hstate.best⟩

theorem conclude_ok (config : SearchConfig α) {best : Individual α}
    (hsize : best.chromosome.size = Slot.count) (history : List (GenerationReport α)) :
    ∃ result, conclude config (some best) history = .ok result := by
  obtain ⟨weights, hweights⟩ : ∃ weights, best.chromosome.toWeights = .ok weights :=
    ⟨_, dif_pos hsize⟩
  refine ⟨⟨weights, best.stats.getD .empty, (best.stats.getD .empty).fBeta config.fBeta,
    history⟩, ?_⟩
  simp only [conclude, hweights]

/-- A search under way either finds something or is stopped. -/
theorem runFrom_outcome (config : SearchConfig α) (dataset : Dataset α) (schedule : Schedule)
    (observe : τ → GenerationReport α → τ) (hpositive : 0 < config.populationSize)
    (hworkers : 0 < config.workers) (left : Nat) :
    ∀ (generation : Nat) (state : State α σ τ), state.IsSized config →
      (0 < left ∨ state.best.isSome = true) →
      (∃ result, (runFrom config dataset schedule observe generation left state).outcome =
          .ok result) ∨
        (runFrom config dataset schedule observe generation left state).outcome =
            .error .cancelled ∧ ∃ stopped, .stop ∈ schedule stopped := by
  induction left with
  | zero =>
    intro generation state hstate hbest
    obtain ⟨best, hbest⟩ := Option.isSome_iff_exists.mp (hbest.resolve_left (by omega))
    obtain ⟨result, hresult⟩ := conclude_ok config (hstate.best best hbest) state.history
    refine .inl ⟨result, ?_⟩
    rw [runFrom, hbest]
    exact hresult
  | succ left ih =>
    intro generation state hstate _
    rw [runFrom, state.population.evaluate?_eq dataset hworkers]
    by_cases hstop : .stop ∈ schedule generation
    · rw [if_pos hstop]
      exact .inr ⟨rfl, generation, hstop⟩
    · rw [if_neg hstop]
      obtain ⟨next, hrecord, hnext, hbest⟩ :=
        hstate.record?_evaluated hpositive dataset observe generation
      simp only [hrecord]
      refine ih (generation + 1) _ (hnext.breed hpositive generation left) (.inr ?_)
      rw [(breed_best config generation left next).1]
      exact hbest

/-- A search either finds something or is stopped. -/
theorem run_outcome (config : SearchConfig α) {dataset : Dataset α} (schedule : Schedule)
    (observe : τ → GenerationReport α → τ) (observed : τ) (source : σ)
    (hdataset : dataset.isEmpty = false) (hpositive : 0 < config.populationSize)
    (hgenerations : 0 < config.generations) (hworkers : 0 < config.workers) :
    (∃ result, (run config dataset schedule observe observed source).outcome = .ok result) ∨
      (run config dataset schedule observe observed source).outcome = .error .cancelled ∧
        ∃ stopped, .stop ∈ schedule stopped := by
  rw [run_eq config schedule observe observed source hdataset]
  exact runFrom_outcome config dataset schedule observe hpositive hworkers config.generations 0 _
    (isSized_initial config observed source) (.inl hgenerations)

/-- A search that nobody stops succeeds. -/
theorem run_plain_ok (config : SearchConfig α) {dataset : Dataset α}
    (observe : τ → GenerationReport α → τ) (observed : τ) (source : σ)
    (hdataset : dataset.isEmpty = false) (hpositive : 0 < config.populationSize)
    (hgenerations : 0 < config.generations) (hworkers : 0 < config.workers) :
    ∃ result, (run config dataset Schedule.plain observe observed source).outcome =
      .ok result := by
  rcases run_outcome config Schedule.plain observe observed source hdataset hpositive hgenerations
    hworkers with hok | ⟨-, generation, hstop⟩
  · exact hok
  · simp [Schedule.plain] at hstop

end Search

end CorpusCost
