import CorpusCost.Cost.Weights
import CorpusCost.File.Json
import CorpusCost.Fit.Words

/-!
# Chromosomes

A chromosome is a row of genes, one for each slot of a weight vector. New ones are drawn at random,
put together from two others, and changed gene by gene.
-/

set_option autoImplicit false

namespace CorpusCost

/-- A row of genes. -/
structure Chromosome (α : Type) where
  /-- The genes in order. -/
  genes : List α
  deriving DecidableEq, Repr

namespace Chromosome

variable {α σ : Type}

/-- The number of genes. -/
def size (chromosome : Chromosome α) : Nat := chromosome.genes.length

/-- Whether there are no genes. -/
def isEmpty (chromosome : Chromosome α) : Bool := chromosome.genes.isEmpty

/-- The genes of a weight vector. -/
def ofWeights (weights : Weights α) : Chromosome α := ⟨weights.toList⟩

/-- The weight vector with these genes. -/
def toWeights (chromosome : Chromosome α) : Except CostError (Weights α) :=
  Weights.ofList chromosome.genes

section

variable [Scalar α] [WordSource σ]

/-- A gene from zero up to `max`. -/
def randomGene (max : α) (source : σ) : α × σ :=
  let (fraction, source) := Draw.fraction source
  (fraction * max, source)

/-- A chromosome of `dimension` genes from zero up to `max`. -/
def random (dimension : Nat) (max : α) (source : σ) : Chromosome α × σ :=
  let (genes, source) := Draw.repeated (randomGene max) dimension source
  (⟨genes⟩, source)

/-- A gene that is drawn anew with some probability. -/
def mutateGene (probability max gene : α) (source : σ) : α × σ :=
  let (fraction, source) := Draw.fraction (α := α) source
  if fraction < probability then randomGene max source else (gene, source)

/-- A chromosome with each gene drawn anew with some probability. -/
def mutate (chromosome : Chromosome α) (probability max : α) (source : σ) : Chromosome α × σ :=
  let (genes, source) := Draw.forEach (mutateGene probability max) chromosome.genes source
  (⟨genes⟩, source)

theorem size_random (dimension : Nat) (max : α) (source : σ) :
    (random dimension max source).1.size = dimension :=
  Draw.length_repeated _ _ _

theorem size_mutate (chromosome : Chromosome α) (probability max : α) (source : σ) :
    (chromosome.mutate probability max source).1.size = chromosome.size :=
  Draw.length_forEach _ _ _

end

/-- The genes of one chromosome before a place and those of another from there on. -/
def splice (head tail : Chromosome α) (split : Nat) : Chromosome α :=
  ⟨head.genes.take split ++ tail.genes.drop split⟩

theorem size_splice {head tail : Chromosome α} (h : head.size = tail.size) (split : Nat) :
    (head.splice tail split).size = head.size := by
  unfold size at h
  simp only [splice, size, List.length_append, List.length_take, List.length_drop]
  omega

/-- A chromosome put together from two at a random place, in a random order. Where the first has no
genes, nothing is drawn and it is the second. -/
def crossover [WordSource σ] (first second : Chromosome α) (source : σ) : Chromosome α × σ :=
  if first.isEmpty then (second, source)
  else
    let (split, source) := Draw.below first.size source
    let (heads, source) := Draw.coin source
    (if heads then first.splice second split else second.splice first split, source)

/-- Chromosomes of one size have children of that size. -/
theorem size_crossover [WordSource σ] {first second : Chromosome α}
    (h : first.size = second.size) (source : σ) :
    (first.crossover second source).1.size = first.size := by
  unfold crossover
  split
  · exact h.symm
  · dsimp only
    split
    · exact size_splice h _
    · rw [size_splice h.symm, h]

/-! ## Text -/

/-- The genes with four decimal places. -/
def text (chromosome : Chromosome Float) : String :=
  "[" ++ ", ".intercalate (chromosome.genes.map (Number.fixed 4)) ++ "]"

/-- As a list. -/
def toJson (chromosome : Chromosome Float) : Json := .ofNumbers chromosome.genes

end Chromosome

end CorpusCost
