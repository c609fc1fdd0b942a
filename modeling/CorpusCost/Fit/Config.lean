import CorpusCost.Fit.SearchError
import CorpusCost.Number.Scalar

/-!
# Settings of a search for weights

How many candidates there are, how long they are bred, and how. Settings are checked one after the
other before a search begins; the first that makes no sense is reported.
-/

set_option autoImplicit false

namespace CorpusCost

/-- The settings of a search for weights. -/
structure SearchConfig (α : Type) where
  /-- The number of candidates in a generation. -/
  populationSize : Nat
  /-- The number of generations. -/
  generations : Nat
  /-- The number of workers that evaluate candidates. -/
  workers : Nat
  /-- How likely a gene is drawn anew when a candidate is bred. -/
  mutationProbability : α
  /-- The generation after which genes are drawn anew half as often; zero for none. -/
  tuneAfter : Nat
  /-- Above every gene that is drawn. -/
  maxGeneValue : α
  /-- The part of the candidates, best first, that others are bred from. -/
  parentFraction : α
  /-- The number of seconds above which a query is slow. -/
  threshold : α
  /-- The weight of recall against precision in reports. -/
  fBeta : α
  /-- The seed of all random draws. -/
  seed : Option UInt64

namespace SearchConfig

variable {α : Type} [Scalar α]

/-- The settings where none are given. -/
def standard : SearchConfig α where
  populationSize := 1000
  generations := 30
  workers := 8
  mutationProbability := 0.15
  tuneAfter := 29
  maxGeneValue := ((100 : Nat) : α)
  parentFraction := 0.2
  threshold := Scalar.one
  fBeta := 0.5
  seed := none

/-- Whether a value is a finite number above zero. -/
def isPositive (x : α) : Bool := Scalar.isFinite x && decide (Scalar.zero < x)

/-- What settings must satisfy, with the reason to refuse those that do not, in the order of the
checks. -/
def requirements (config : SearchConfig α) : List (Bool × String) :=
  [(0 < config.populationSize, "population_size must be at least 1"),
    (0 < config.generations, "generations must be at least 1"),
    (0 < config.workers, "workers must be at least 1"),
    (Scalar.zero ≤ config.mutationProbability ∧ config.mutationProbability ≤ Scalar.one,
      "mutation_probability must be within [0, 1]"),
    (isPositive config.maxGeneValue, "max_gene_value must be a positive number"),
    (Scalar.zero < config.parentFraction ∧ config.parentFraction ≤ Scalar.one,
      "parent_fraction must be within (0, 1]"),
    (Scalar.isFinite config.threshold, "threshold must be a finite number"),
    (isPositive config.fBeta, "f_beta must be a positive number")]

/-- Whether settings make sense; the first that does not is the error. -/
def validate (config : SearchConfig α) : Except SearchError Unit :=
  match config.requirements.find? fun requirement => !requirement.1 with
  | none => .ok ()
  | some (_, reason) => .error (.invalidConfig reason)

/-- The number of candidates, best first, that others are bred from: a part of all of them, but at
least one. -/
def parentPoolSize (config : SearchConfig α) : Nat :=
  min (max (Scalar.wholePart ((config.populationSize : α) * config.parentFraction)) 1)
    (max config.populationSize 1)

/-- How likely a gene is drawn anew when the candidates after a generation are bred. -/
def mutationProbabilityAt (config : SearchConfig α) (generation : Nat) : α :=
  if 0 < config.tuneAfter ∧ config.tuneAfter < generation then
    config.mutationProbability / ((2 : Nat) : α)
  else config.mutationProbability

theorem one_le_parentPoolSize (config : SearchConfig α) : 1 ≤ config.parentPoolSize := by
  unfold parentPoolSize
  omega

end SearchConfig

end CorpusCost
