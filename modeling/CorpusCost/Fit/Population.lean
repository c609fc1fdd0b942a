import CorpusCost.Fit.Chromosome
import CorpusCost.Fit.Config
import CorpusCost.Fit.Dataset

/-!
# Populations

A population is a row of candidates. It is ranked by how well the candidates do, and the next one is
bred from the best of them.
-/

set_option autoImplicit false

namespace CorpusCost

/-- A candidate. -/
structure Individual (α : Type) where
  /-- Its genes. -/
  chromosome : Chromosome α
  /-- How well it does; none before it is evaluated. -/
  stats : Option (EvalStats α)

namespace Individual

variable {α : Type}

/-- A candidate that is not evaluated. -/
def unevaluated (chromosome : Chromosome α) : Individual α := ⟨chromosome, none⟩

/-- What a candidate is ranked by: the smaller, the better. -/
def fitness [Ranked α] (individual : Individual α) : α :=
  match individual.stats with
  | some stats => stats.fitness
  | none => Ranked.infinity

/-- Whether one candidate need not come after another. -/
def notWorse [Ranked α] (first second : Individual α) : Bool :=
  Ranked.totalLE first.fitness second.fitness

/-- A candidate evaluated on a machine whose stack was left by earlier runs, and the stack that is
left. -/
def evaluate [Scalar α] (dataset : Dataset α) (threshold : α) (individual : Individual α)
    (stack : Machine.Stack α) : Individual α × Machine.Stack α :=
  match individual.chromosome.toWeights with
  | .error _ => ({ individual with stats := none }, stack)
  | .ok weights =>
    let (stats, stack) := dataset.evaluate weights threshold stack
    ({ individual with stats := some stats }, stack)

end Individual

/-- Candidates in order. -/
structure Population (α : Type) where
  /-- The candidates. -/
  individuals : List (Individual α)

namespace Population

variable {α σ : Type}

/-- No candidates. -/
def empty : Population α := ⟨[]⟩

/-- The number of candidates. -/
def size (population : Population α) : Nat := population.individuals.length

/-- Whether there is no candidate. -/
def isEmpty (population : Population α) : Bool := population.individuals.isEmpty

/-- The first candidate, which is the best one of a ranked population. -/
def best? (population : Population α) : Option (Individual α) := population.individuals.head?

/-- The last candidate, which is the worst one of a ranked population. -/
def worst? (population : Population α) : Option (Individual α) := population.individuals.getLast?

/-- The candidates from the best to the worst; equal ones stay in order. -/
def ranked [Ranked α] (population : Population α) : Population α :=
  ⟨population.individuals.mergeSort Individual.notWorse⟩

theorem size_ranked [Ranked α] (population : Population α) :
    population.ranked.size = population.size :=
  List.length_mergeSort _

/-! ## Breeding -/

section

variable [Scalar α] [WordSource σ]

/-- Candidates with genes drawn at random. -/
def random (config : SearchConfig α) (dimension : Nat) (source : σ) : Population α × σ :=
  let (chromosomes, source) :=
    Draw.repeated (Chromosome.random dimension config.maxGeneValue) config.populationSize source
  (⟨chromosomes.map Individual.unevaluated⟩, source)

theorem size_random (config : SearchConfig α) (dimension : Nat) (source : σ) :
    (random config dimension source).1.size = config.populationSize := by
  simp [random, size, Draw.length_repeated]

/-- One of the parents. -/
def parent (parents : List (Individual α)) (h : 0 < parents.length) (source : σ) :
    Chromosome α × σ :=
  ((parents.get ⟨(Draw.below parents.length source).1, Draw.below_lt h source⟩).chromosome,
    (Draw.below parents.length source).2)

/-- A child of two of the parents, with genes drawn anew with some probability. -/
def child (parents : List (Individual α)) (h : 0 < parents.length) (probability max : α)
    (source : σ) : Chromosome α × σ :=
  let (first, source) := parent parents h source
  let (second, source) := parent parents h source
  let (child, source) := first.crossover second source
  child.mutate probability max source

/-- The candidates that a ranked population has for parents. -/
def parents (population : Population α) (config : SearchConfig α) : List (Individual α) :=
  population.individuals.take config.parentPoolSize

/-- The next generation: as many children of the best candidates as the settings ask for. An empty
population has none. -/
def breed (population : Population α) (config : SearchConfig α) (generation : Nat)
    (source : σ) : Population α × σ :=
  if h : 0 < (population.parents config).length then
    let probability := config.mutationProbabilityAt generation
    let (chromosomes, source) :=
      Draw.repeated (child (population.parents config) h probability config.maxGeneValue)
        config.populationSize source
    (⟨chromosomes.map Individual.unevaluated⟩, source)
  else (empty, source)

theorem length_parents (population : Population α) (config : SearchConfig α) :
    (population.parents config).length = min config.parentPoolSize population.size := by
  simp [parents, size]

/-- A population with any candidates has as many children as the settings ask for. -/
theorem size_breed {population : Population α} (h : 0 < population.size)
    (config : SearchConfig α) (generation : Nat) (source : σ) :
    (population.breed config generation source).1.size = config.populationSize := by
  have pool : 0 < (population.parents config).length := by
    have := config.one_le_parentPoolSize
    rw [length_parents]
    omega
  simp [breed, pool, size, Draw.length_repeated]

end

end Population

end CorpusCost
