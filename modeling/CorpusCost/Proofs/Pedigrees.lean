import CorpusCost.Fit.Population
import CorpusCost.Proofs.Breeding
import CorpusCost.Proofs.DrawnFractions

/-!
# Pedigrees

Where the genes of a child come from is settled by random draws that do not look at any gene: its
two parents, the place from which the second one gives the genes, and which genes are drawn anew. A
`Pedigree` is what these draws say. Pedigrees are drawn here on their own, by draws that fail where
there is nothing to choose from (`Pedigree.draw?`), and breeding takes the same words from the
source as they do and makes of each pedigree a child that has its genes accordingly.
-/

set_option autoImplicit false

namespace CorpusCost

variable {α σ : Type}

/-! ## Draws that may fail -/

namespace Draw

section

variable {β γ : Type}

/-- `count` draws, one after the other, all of which must succeed. -/
def repeated? (draw : σ → Option (β × σ)) : Nat → σ → Option (List β × σ)
  | 0, source => some ([], source)
  | count + 1, source => do
    let (value, source) ← draw source
    let (values, source) ← repeated? draw count source
    some (value :: values, source)

/-- Draws that succeed, and go along with others, do so when they are repeated. -/
theorem repeated?_along {draw? : σ → Option (β × σ)} {draw : σ → γ × σ} {R : β → γ → Prop}
    (hdraw : ∀ source, ∃ value, draw? source = some (value, (draw source).2) ∧
      R value (draw source).1) (count : Nat) (source : σ) :
    ∃ values, repeated? draw? count source = some (values, (repeated draw count source).2) ∧
      List.Forall₂ R values (repeated draw count source).1 := by
  induction count generalizing source with
  | zero => exact ⟨[], rfl, .nil⟩
  | succ count ih =>
    obtain ⟨value, hvalue, hR⟩ := hdraw source
    obtain ⟨values, hvalues, hRs⟩ := ih (draw source).2
    refine ⟨value :: values, ?_, .cons hR hRs⟩
    rw [repeated?, hvalue]
    show (repeated? draw? count (draw source).2).bind _ = _
    rw [hvalues]
    rfl

/-- What holds of every draw that succeeds holds of all values of a repeated draw. -/
theorem forall_repeated? {P : β → Prop} {draw? : σ → Option (β × σ)}
    (hdraw : ∀ source value after, draw? source = some (value, after) → P value) {count : Nat}
    {source after : σ} {values : List β} (h : repeated? draw? count source = some (values, after)) :
    ∀ value ∈ values, P value := by
  induction count generalizing source values with
  | zero =>
    obtain ⟨rfl, -⟩ : [] = values ∧ source = after := by simpa [repeated?] using h
    exact List.forall_mem_nil P
  | succ count ih =>
    obtain ⟨⟨value, between⟩, hvalue, hrest⟩ := Option.bind_eq_some_iff.mp h
    obtain ⟨⟨others, last⟩, hothers, hlast⟩ := Option.bind_eq_some_iff.mp hrest
    obtain ⟨rfl, rfl⟩ : value :: others = values ∧ last = after := by simpa using hlast
    exact List.forall_mem_cons.mpr ⟨hdraw _ _ _ hvalue, ih hothers⟩

end

variable [WordSource σ]

/-- A number below `n`; there is none below zero. -/
def index? (n : Nat) (source : σ) : Option (Fin n × σ) :=
  if h : 0 < n then some (⟨(below n source).1, below_lt h source⟩, (below n source).2) else none

/-- Above zero there always is one. -/
theorem exists_index? {n : Nat} (h : 0 < n) (source : σ) :
    ∃ i after, index? n source = some (i, after) := ⟨_, _, dif_pos h⟩

theorem below_of_index? {n : Nat} {source after : σ} {i : Fin n}
    (h : index? n source = some (i, after)) : below n source = (i.val, after) := by
  have hpos : 0 < n := i.pos
  rw [index?, dif_pos hpos] at h
  obtain ⟨rfl, rfl⟩ : _ = i ∧ (below n source).2 = after := by simpa using h
  rfl

/-- Whether something is drawn anew, which it is with the given probability, and from which
fraction. -/
def redraw [Scalar α] (probability : α) (source : σ) : Option α × σ :=
  let (chance, source) := fraction (α := α) source
  if chance < probability then
    let (fresh, source) := fraction source
    (some fresh, source)
  else (none, source)

/-- With the probability zero nothing is drawn anew. -/
theorem redraw_of_eq_zero {probability : Float} (h : probability == 0.0) (source : σ) :
    (redraw probability source).1 = none := by
  simp only [redraw, if_neg (not_fraction_lt_zero h source)]

/-- With the probability one everything is. -/
theorem redraw_of_eq_one {probability : Float} (h : probability == 1.0) (source : σ) :
    (redraw probability source).1 ≠ none := by
  simp only [redraw, if_pos (fraction_lt_one h source)]
  exact Option.some_ne_none _

end Draw

/-! ## Genes -/

namespace Chromosome

/-- A gene, or what is drawn in its place. -/
def renewed [Mul α] (max gene : α) : Option α → α
  | none => gene
  | some fraction => fraction * max

section

variable [Scalar α] [WordSource σ]

theorem mutateGene_eq (probability max gene : α) (source : σ) :
    mutateGene probability max gene source =
      (renewed max gene (Draw.redraw probability source).1,
        (Draw.redraw probability source).2) := by
  unfold mutateGene Draw.redraw
  dsimp only
  split <;> rfl

/-- Which genes are drawn anew, and from what, does not depend on any of them. -/
theorem forEach_mutateGene (probability max : α) (genes : List α) (source : σ) :
    Draw.forEach (mutateGene probability max) genes source =
      (List.zipWith (renewed max) genes
        (Draw.repeated (Draw.redraw probability) genes.length source).1,
        (Draw.repeated (Draw.redraw probability) genes.length source).2) := by
  induction genes generalizing source with
  | nil => rfl
  | cons gene genes ih =>
    rw [Draw.forEach, mutateGene_eq]
    dsimp only
    rw [ih, List.length_cons, Draw.repeated, List.zipWith_cons_cons]

theorem mutate_eq (chromosome : Chromosome α) (probability max : α) (source : σ) :
    chromosome.mutate probability max source =
      (⟨List.zipWith (renewed max) chromosome.genes
        (Draw.repeated (Draw.redraw probability) chromosome.size source).1⟩,
        (Draw.repeated (Draw.redraw probability) chromosome.size source).2) := by
  rw [mutate, forEach_mutateGene]
  rfl

end

theorem getElem?_splice {head : Chromosome α} {split : Nat} (hsplit : split ≤ head.size)
    (tail : Chromosome α) (i : Nat) : (head.splice tail split).genes[i]? =
      if i < split then head.genes[i]? else tail.genes[i]? := by
  have htake : (head.genes.take split).length = split := List.length_take_of_le hsplit
  rw [splice, List.getElem?_append, htake]
  split
  · rw [List.getElem?_take_of_lt ‹_›]
  · rw [List.getElem?_drop]
    congr 1
    omega

/-- A chromosome is put together at a place that can be chosen. -/
theorem crossover_of_index? [WordSource σ] {first : Chromosome α} {source after : σ}
    {split : Fin first.size} (h : Draw.index? first.size source = some (split, after))
    (second : Chromosome α) : first.crossover second source =
      (if (Draw.coin after).1 then first.splice second split else second.splice first split,
        (Draw.coin after).2) := by
  have hempty : ¬first.isEmpty = true := by
    have hpos : 0 < first.genes.length := split.pos
    rw [isEmpty, List.isEmpty_iff]
    exact List.ne_nil_of_length_pos hpos
  rw [crossover, if_neg hempty, Draw.below_of_index? h]

end Chromosome

/-! ## Pedigrees -/

/-- Where a child has its `length` genes from, whose parents are two of `pool` candidates. -/
structure Pedigree (α : Type) (pool length : Nat) where
  /-- The parent that gives the genes before a place. -/
  before : Fin pool
  /-- The parent that gives the genes from there on. -/
  behind : Fin pool
  /-- The place. -/
  split : Fin length
  /-- For each gene the fraction that it is drawn anew from, if it is. -/
  redrawn : Fin length → Option α

namespace Pedigree

variable {pool length : Nat}

/-- The parent that gives a gene which is not drawn anew. -/
def parentOf (pedigree : Pedigree α pool length) (i : Fin length) : Fin pool :=
  if i < pedigree.split then pedigree.before else pedigree.behind

/-- Whether a child is not evaluated and has its genes as a pedigree says. -/
structure Accounts [Mul α] (pedigree : Pedigree α pool length) (max : α)
    (candidates : List (Individual α)) (child : Individual α) : Prop where
  /-- The child is not evaluated. -/
  unevaluated : child.stats = none
  /-- It has all genes. -/
  size : child.chromosome.size = length
  /-- A gene that is drawn anew is a fraction of the greatest one. -/
  fresh : ∀ i fraction, pedigree.redrawn i = some fraction →
    child.chromosome.genes[i.val]? = some (fraction * max)
  /-- Any other gene is that of a parent at the same place. -/
  kept : ∀ i, pedigree.redrawn i = none → ∃ parent,
    candidates[(pedigree.parentOf i).val]? = some parent ∧
      child.chromosome.genes[i.val]? = parent.chromosome.genes[i.val]?

section

variable [Scalar α] [WordSource σ]

/-- The draws that a child is bred with. -/
def draw? (pool length : Nat) (probability : α) (source : σ) :
    Option (Pedigree α pool length × σ) := do
  let (first, source) ← Draw.index? pool source
  let (second, source) ← Draw.index? pool source
  let (split, source) ← Draw.index? length source
  let (heads, source) := Draw.coin source
  let redraws := Draw.repeated (Draw.redraw probability) length source
  some ({
    before := if heads then first else second
    behind := if heads then second else first
    split := split
    redrawn := fun i => redraws.1.get (i.cast (Draw.length_repeated _ _ _).symm) }, redraws.2)

omit [Scalar α] in
/-- Parents of one size have that size when they are put together. -/
theorem size_splice {parents : List (Individual α)}
    (hsize : ∀ parent ∈ parents, parent.chromosome.size = length)
    (before behind : Fin parents.length) (split : Nat) :
    ((parents.get before).chromosome.splice (parents.get behind).chromosome split).size =
      length := by
  have hbefore := hsize _ (List.get_mem parents before)
  have hbehind := hsize _ (List.get_mem parents behind)
  rw [Chromosome.size_splice (hbefore.trans hbehind.symm), hbefore]

/-- Two parents put together, with some of the genes drawn anew, are what the pedigree says. -/
theorem accounts_splice {parents : List (Individual α)}
    (hsize : ∀ parent ∈ parents, parent.chromosome.size = length)
    (before behind : Fin parents.length) (split : Fin length) {redraws : List (Option α)}
    (hredraws : redraws.length = length) (max : α) :
    (mk before behind split fun i => redraws.get (i.cast hredraws.symm)).Accounts max parents
      (.unevaluated ⟨List.zipWith (Chromosome.renewed max)
        ((parents.get before).chromosome.splice (parents.get behind).chromosome split).genes
        redraws⟩) := by
  have hgenes : ((parents.get before).chromosome.splice (parents.get behind).chromosome
      split).genes.length = length := size_splice hsize before behind split
  have hbefore := hsize _ (List.get_mem parents before)
  have hgene := Chromosome.getElem?_splice (split.isLt.le.trans_eq hbefore.symm)
    (parents.get behind).chromosome
  generalize ((parents.get before).chromosome.splice (parents.get behind).chromosome
    split).genes = genes at hgenes hgene
  have hrenewed : ∀ i : Fin length, (List.zipWith (Chromosome.renewed max) genes redraws)[i.val]? =
      genes[i.val]?.map (Chromosome.renewed max · (redraws.get (i.cast hredraws.symm))) := by
    intro i
    have hredrawn : redraws[i.val]? = some (redraws.get (i.cast hredraws.symm)) :=
      List.getElem?_eq_getElem (hredraws ▸ i.isLt)
    rw [List.getElem?_zipWith, hredrawn]
    cases genes[i.val]? <;> rfl
  refine ⟨rfl, ?_, ?_, ?_⟩
  · show (List.zipWith _ genes redraws).length = length
    rw [List.length_zipWith, hgenes, hredraws, Nat.min_self]
  · intro i fraction hfresh
    have hsome := List.getElem?_eq_getElem (hgenes ▸ i.isLt : i.val < genes.length)
    refine (hrenewed i).trans ?_
    rw [hsome, Option.map_some]
    dsimp only at hfresh
    rw [hfresh, Chromosome.renewed]
  · -- Where nothing is drawn anew, what is left is the gene of the parent at that place.
    intro i hkept
    refine ⟨parents.get (parentOf _ i), List.getElem?_eq_getElem _, (hrenewed i).trans ?_⟩
    dsimp only at hkept
    simp only [hkept, Chromosome.renewed, Option.map_id_fun', id, hgene, parentOf, Fin.lt_def]
    split <;> rfl

/-- Whatever a gene is drawn anew from is one of the draws for this. -/
theorem redrawn_of_draw? {probability : α} {source after : σ} {pedigree : Pedigree α pool length}
    (h : draw? pool length probability source = some (pedigree, after)) (i : Fin length) :
    ∃ source : σ, pedigree.redrawn i = (Draw.redraw probability source).1 := by
  obtain ⟨⟨first, afterFirst⟩, -, h⟩ := Option.bind_eq_some_iff.mp h
  obtain ⟨⟨second, afterSecond⟩, -, h⟩ := Option.bind_eq_some_iff.mp h
  obtain ⟨⟨split, afterSplit⟩, -, h⟩ := Option.bind_eq_some_iff.mp h
  obtain ⟨rfl, -⟩ : _ = pedigree ∧ _ = after := by simpa using h
  exact Draw.forall_repeated (P := fun redrawn => ∃ source : σ,
    redrawn = (Draw.redraw probability source).1) (fun source => ⟨source, rfl⟩) length _ _
    (List.get_mem _ _)

end

namespace Accounts

/-- Parents that are taken from the first candidates are candidates. -/
theorem of_take [Mul α] {pedigree : Pedigree α pool length} {max : α}
    {candidates : List (Individual α)} {count : Nat} {child : Individual α}
    (h : pedigree.Accounts max (candidates.take count) child) :
    pedigree.Accounts max candidates child where
  unevaluated := h.unevaluated
  size := h.size
  fresh := h.fresh
  kept i hkept := by
    obtain ⟨parent, hparent, hgene⟩ := h.kept i hkept
    rw [List.getElem?_take] at hparent
    split at hparent
    · exact ⟨parent, hparent, hgene⟩
    · cases hparent

end Accounts

end Pedigree

/-! ## Breeding -/

namespace Population

variable [WordSource σ]

theorem parent_of_index? {parents : List (Individual α)} (h : 0 < parents.length)
    {source after : σ} {i : Fin parents.length}
    (hindex : Draw.index? parents.length source = some (i, after)) :
    parent parents h source = ((parents.get i).chromosome, after) := by
  have hbelow := Draw.below_of_index? hindex
  simp only [parent, hbelow]

/-- A child put together from two parents is one of them before a place and the other from there
on, with genes drawn anew in between. -/
theorem child_eq [Scalar α] {parents : List (Individual α)} (h : 0 < parents.length)
    (probability max : α) {source afterFirst afterSecond afterSplit : σ}
    {first second : Fin parents.length} {split : Fin (parents.get first).chromosome.size}
    (hfirst : Draw.index? parents.length source = some (first, afterFirst))
    (hsecond : Draw.index? parents.length afterFirst = some (second, afterSecond))
    (hsplit : Draw.index? (parents.get first).chromosome.size afterSecond =
      some (split, afterSplit)) :
    child parents h probability max source =
      ((parents.get (if (Draw.coin afterSplit).1 then first else second)).chromosome.splice
        (parents.get (if (Draw.coin afterSplit).1 then second else first)).chromosome
        split).mutate probability max (Draw.coin afterSplit).2 := by
  rw [child, parent_of_index? h hfirst]
  dsimp only
  rw [parent_of_index? h hsecond]
  dsimp only
  rw [Chromosome.crossover_of_index? hsplit]
  cases (Draw.coin afterSplit).1 <;> rfl

/-- The draws that a child is bred with make up a pedigree, and the child is what this says. -/
theorem child_accounts [Scalar α] {parents : List (Individual α)} {length : Nat}
    (h : 0 < parents.length) (hlength : 0 < length)
    (hsize : ∀ parent ∈ parents, parent.chromosome.size = length)
    (probability max : α) (source : σ) : ∃ pedigree,
      Pedigree.draw? parents.length length probability source =
        some (pedigree, (child parents h probability max source).2) ∧
      pedigree.Accounts max parents (.unevaluated (child parents h probability max source).1) := by
  obtain ⟨first, afterFirst, hfirst⟩ := Draw.exists_index? h source
  obtain ⟨second, afterSecond, hsecond⟩ := Draw.exists_index? h afterFirst
  -- The place is chosen among as many as the first parent has genes.
  obtain rfl := hsize _ (List.get_mem parents first)
  obtain ⟨split, afterSplit, hsplit⟩ := Draw.exists_index? hlength afterSecond
  rw [child_eq h probability max hfirst hsecond hsplit, Chromosome.mutate_eq,
    Pedigree.size_splice hsize, Pedigree.draw?, hfirst]
  simp only [Option.bind_eq_bind, Option.bind_some, hsecond, hsplit]
  exact ⟨_, rfl, Pedigree.accounts_splice hsize _ _ split (Draw.length_repeated _ _ _) max⟩

/-- A population is bred by as many draws of pedigrees as the settings ask for children. -/
theorem breed_accounts [Scalar α] {population : Population α} {config : SearchConfig α}
    {length : Nat} (hpool : 0 < (population.parents config).length) (hlength : 0 < length)
    (hsize : ∀ individual ∈ population.individuals, individual.chromosome.size = length)
    (generation : Nat) (source : σ) : ∃ pedigrees,
      Draw.repeated? (Pedigree.draw? (population.parents config).length length
        (config.mutationProbabilityAt generation)) config.populationSize source =
          some (pedigrees, (population.breed config generation source).2) ∧
      List.Forall₂ (fun pedigree child =>
        pedigree.Accounts config.maxGeneValue population.individuals child)
        pedigrees (population.breed config generation source).1.individuals := by
  have hparents : ∀ parent ∈ population.parents config, parent.chromosome.size = length :=
    fun parent hparent => hsize parent (List.mem_of_mem_take hparent)
  have hchild := fun source : σ => child_accounts hpool hlength hparents
    (config.mutationProbabilityAt generation) config.maxGeneValue source
  obtain ⟨pedigrees, hpedigrees, haccounts⟩ := Draw.repeated?_along
    (R := fun pedigree chromosome => Pedigree.Accounts pedigree config.maxGeneValue
      (population.parents config) (.unevaluated chromosome)) hchild config.populationSize source
  rw [breed, dif_pos hpool]
  exact ⟨pedigrees, hpedigrees,
    List.forall₂_map_right_iff.mpr (haccounts.imp fun _ _ h => h.of_take)⟩

/-- A population with any candidates, whose chromosomes have all the same number of genes, is bred
as pedigrees say, and one pedigree is drawn for each of the children that the settings ask for. No
draw fails, so that there are always parents and a place to choose from; the parents are among the
best candidates, as many as the settings ask for and there are. With the mutation probability zero
no gene is drawn anew, with one every gene is. -/
theorem breed_pedigrees {population : Population Float} {length : Nat}
    (hpopulation : 0 < population.size) (hlength : 0 < length)
    (hsize : ∀ individual ∈ population.individuals, individual.chromosome.size = length)
    (config : SearchConfig Float) (generation : Nat) (source : σ) :
    ∃ pedigrees : List (Pedigree Float (min config.parentPoolSize population.size) length),
      Draw.repeated? (Pedigree.draw? _ length (config.mutationProbabilityAt generation))
        config.populationSize source =
          some (pedigrees, (population.breed config generation source).2) ∧
      (population.breed config generation source).1.size = config.populationSize ∧
      List.Forall₂ (fun pedigree child =>
        pedigree.Accounts config.maxGeneValue population.individuals child)
        pedigrees (population.breed config generation source).1.individuals ∧
      (config.mutationProbabilityAt generation == 0.0 →
        ∀ pedigree ∈ pedigrees, ∀ i, pedigree.redrawn i = none) ∧
      (config.mutationProbabilityAt generation == 1.0 →
        ∀ pedigree ∈ pedigrees, ∀ i, pedigree.redrawn i ≠ none) := by
  have hpool : 0 < (population.parents config).length := by
    have := config.one_le_parentPoolSize
    rw [length_parents]
    omega
  have hbred := breed_accounts hpool hlength hsize generation source
  rw [length_parents] at hbred
  obtain ⟨pedigrees, hpedigrees, haccounts⟩ := hbred
  have hredrawn := Draw.forall_repeated? (fun _ _ _ => Pedigree.redrawn_of_draw?) hpedigrees
  refine ⟨pedigrees, hpedigrees, size_breed hpopulation config generation source, haccounts,
    ?_, ?_⟩
  · intro hzero pedigree hpedigree i
    obtain ⟨source, hsource⟩ := hredrawn pedigree hpedigree i
    rw [hsource, Draw.redraw_of_eq_zero hzero]
  · intro hone pedigree hpedigree i
    obtain ⟨source, hsource⟩ := hredrawn pedigree hpedigree i
    rw [hsource]
    exact Draw.redraw_of_eq_one hone source

/-- Three children of two parents, without genes drawn anew. -/
theorem breed_pedigrees_pair :
    let population : Population Float := ⟨[.unevaluated ⟨[1.0, 2.0]⟩, .unevaluated ⟨[3.0, 4.0]⟩]⟩
    let config : SearchConfig Float :=
      { SearchConfig.standard with populationSize := 3, mutationProbability := 0.0 }
    let source := ScriptedWords.ofList [0, 0xc000000000000000, 0x4000000000000000]
    ∃ pedigrees : List (Pedigree Float (min config.parentPoolSize population.size) 2),
      Draw.repeated? (Pedigree.draw? _ 2 (config.mutationProbabilityAt 0)) 3 source =
        some (pedigrees, (population.breed config 0 source).2) ∧
      List.Forall₂ (fun pedigree child =>
        pedigree.Accounts config.maxGeneValue population.individuals child)
        pedigrees (population.breed config 0 source).1.individuals ∧
      ∀ pedigree ∈ pedigrees, ∀ i, pedigree.redrawn i = none := by
  intro population config source
  have hsize : ∀ individual ∈ population.individuals, individual.chromosome.size = 2 := by
    simp [population, Individual.unevaluated, Chromosome.size]
  obtain ⟨pedigrees, hpedigrees, -, haccounts, hnone, -⟩ :=
    breed_pedigrees (by decide) (by decide) hsize config 0 source
  exact ⟨pedigrees, hpedigrees, haccounts, hnone (by decide)⟩

end Population

end CorpusCost
