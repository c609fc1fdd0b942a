import CorpusCost.Fit.Population

/-!
# What children have from their parents

Chromosomes come about in three ways: they are drawn at random, put together from two others, and
changed gene by gene. A property that all three keep is inherited (`Chromosome.Inherited`): every
candidate of a random population has it, and every population has it that is bred from one whose
candidates have it. The size of a chromosome is inherited, and so is whatever all random genes have.
-/

set_option autoImplicit false

namespace CorpusCost

variable {α σ : Type}

/-! ## Several draws -/

namespace Draw

/-- What holds of every draw holds of all values of a repeated draw. -/
theorem forall_repeated {β : Type} {P : β → Prop} {draw : σ → β × σ}
    (hdraw : ∀ source, P (draw source).1) (count : Nat) (source : σ) :
    ∀ value ∈ (repeated draw count source).1, P value := by
  induction count generalizing source with
  | zero => simp [repeated]
  | succ count ih =>
    rw [repeated, List.forall_mem_cons]
    exact ⟨hdraw source, ih _⟩

/-- What every draw makes of items that have it holds of all values drawn for such items. -/
theorem forall_forEach {β : Type} {P : β → Prop} {draw : β → σ → β × σ}
    (hdraw : ∀ item source, P item → P (draw item source).1) (items : List β) (source : σ)
    (hitems : ∀ item ∈ items, P item) : ∀ value ∈ (forEach draw items source).1, P value := by
  induction items generalizing source with
  | nil => simp [forEach]
  | cons item items ih =>
    rw [List.forall_mem_cons] at hitems
    rw [forEach, List.forall_mem_cons]
    exact ⟨hdraw item source hitems.1, ih _ hitems.2⟩

end Draw

section

variable [Scalar α] [WordSource σ]

/-! ## Inherited properties -/

namespace Chromosome

/-- A property that random chromosomes have, and children whose parents have it. -/
structure Inherited (σ : Type) [WordSource σ] (max : α) (P : Chromosome α → Prop) : Prop where
  random : ∀ source : σ, P (random Slot.count max source).1
  crossover : ∀ {first second : Chromosome α} (source : σ), P first → P second →
    P (first.crossover second source).1
  mutate : ∀ {chromosome : Chromosome α} (probability : α) (source : σ), P chromosome →
    P (chromosome.mutate probability max source).1

/-- Every chromosome has a gene for every slot. -/
theorem inherited_size (max : α) :
    Inherited σ max fun chromosome => chromosome.size = Slot.count where
  random := size_random Slot.count max
  crossover source hfirst hsecond := by
    rw [size_crossover (hfirst.trans hsecond.symm), hfirst]
  mutate probability source hsize := by rw [size_mutate, hsize]

omit [Scalar α] in
theorem forall_genes_splice {P : α → Prop} {head tail : Chromosome α}
    (hhead : ∀ gene ∈ head.genes, P gene) (htail : ∀ gene ∈ tail.genes, P gene) (split : Nat) :
    ∀ gene ∈ (head.splice tail split).genes, P gene := by
  intro gene hgene
  rcases List.mem_append.mp hgene with htaken | hdropped
  · exact hhead gene (List.mem_of_mem_take htaken)
  · exact htail gene (List.mem_of_mem_drop hdropped)

/-- What all random genes have is inherited by whole chromosomes: no gene comes about in another
way. -/
theorem inherited_genes {max : α} {P : α → Prop}
    (hrandom : ∀ source : σ, P (randomGene max source).1) :
    Inherited σ max fun chromosome => ∀ gene ∈ chromosome.genes, P gene where
  random := Draw.forall_repeated hrandom Slot.count
  crossover {first second} source hfirst hsecond := by
    unfold crossover
    split
    · exact hsecond
    · dsimp only
      split
      · exact forall_genes_splice hfirst hsecond _
      · exact forall_genes_splice hsecond hfirst _
  mutate {chromosome} probability source hgenes := by
    refine Draw.forall_forEach ?_ chromosome.genes source hgenes
    intro gene source hgene
    unfold mutateGene
    dsimp only
    split
    · exact hrandom _
    · exact hgene

end Chromosome

namespace Population

variable {P : Chromosome α → Prop} {config : SearchConfig α}
  (hinherited : Chromosome.Inherited σ config.maxGeneValue P)

include hinherited

theorem forall_random (source : σ) :
    ∀ individual ∈ (random config Slot.count source).1.individuals, P individual.chromosome := by
  intro individual hmem
  obtain ⟨chromosome, hchromosome, rfl⟩ := List.mem_map.mp hmem
  exact Draw.forall_repeated hinherited.random _ _ chromosome hchromosome

theorem child_of_parents {parents : List (Individual α)}
    (hparents : ∀ individual ∈ parents, P individual.chromosome) (h : 0 < parents.length)
    (probability : α) (source : σ) :
    P (child parents h probability config.maxGeneValue source).1 := by
  have hparent : ∀ source : σ, P (parent parents h source).1 :=
    fun source => hparents _ (List.get_mem _ _)
  exact hinherited.mutate probability _
    (hinherited.crossover _ (hparent source) (hparent (parent parents h source).2))

theorem forall_breed {population : Population α}
    (hpopulation : ∀ individual ∈ population.individuals, P individual.chromosome)
    (generation : Nat) (source : σ) :
    ∀ individual ∈ (population.breed config generation source).1.individuals,
      P individual.chromosome := by
  unfold breed
  split
  · rename_i h
    intro individual hmem
    obtain ⟨chromosome, hchromosome, rfl⟩ := List.mem_map.mp hmem
    have hparents : ∀ parent ∈ population.parents config, P parent.chromosome :=
      fun parent hparent => hpopulation parent (List.mem_of_mem_take hparent)
    exact Draw.forall_repeated (child_of_parents hinherited hparents h _) _ _ chromosome hchromosome
  · intro individual hmem
    cases hmem

end Population

end

end CorpusCost
