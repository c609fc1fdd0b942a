import CorpusCost.Proofs.SampleScores
import CorpusCost.Proofs.SearchOutcome
import Mathlib.Algebra.Order.Field.Basic
import Mathlib.Algebra.Order.Field.Rat
import Mathlib.Tactic.NormNum
import Mathlib.Tactic.Positivity

/-!
# What holds throughout a search

A search goes from generation to generation, and the populations it comes through are those that
`Search.Reaches` finds. Each of them has as many candidates as the settings ask for, each candidate
has a gene for every slot, and each gene is one that can be drawn: one of the evenly spaced
fractions of one times the greatest value. Where numbers are exact, genes therefore lie between zero
and that value. An evaluation that nobody stops gives every candidate statistics of the whole
dataset.
-/

set_option autoImplicit false

namespace CorpusCost

variable {α σ τ : Type}

/-! ## Genes -/

/-- A reading of numbers as rationals that multiplication, division and natural numbers agree
with, and that takes finite numbers above zero to such. -/
structure Scalar.IsExact [Scalar α] (value : α → Rat) : Prop where
  natCast : ∀ n : Nat, value (n : α) = n
  mul : ∀ x y, value (x * y) = value x * value y
  div : ∀ x y, value (x / y) = value x / value y
  positive : ∀ x, SearchConfig.isPositive x = true → 0 < value x

/-- The rational numbers and infinity. -/
inductive Extended where
  /-- A rational number. -/
  | finite (number : Rat)
  /-- Above every number. -/
  | infinity

namespace Extended

/-- The rational number; zero for infinity. -/
def value : Extended → Rat
  | .finite number => number
  | .infinity => 0

/-- An operation on rational numbers; infinity where one of the two is infinity. -/
def lift (operation : Rat → Rat → Rat) : Extended → Extended → Extended
  | .finite x, .finite y => .finite (operation x y)
  | _, _ => .infinity

/-- Whether one number is below another. -/
def isBelow : Extended → Extended → Bool
  | .finite x, .finite y => decide (x < y)
  | .finite _, .infinity => true
  | .infinity, _ => false

instance : Ranked Extended where
  add := lift (· + ·)
  sub := lift (· - ·)
  mul := lift (· * ·)
  div := lift (· / ·)
  natCast n := .finite n
  ofScientific mantissa sign exponent := .finite (OfScientific.ofScientific mantissa sign exponent)
  lt x y := x.isBelow y = true
  le x y := y.isBelow x = false
  decidableLT x y := inferInstanceAs (Decidable (x.isBelow y = true))
  decidableLE x y := inferInstanceAs (Decidable (y.isBelow x = false))
  isFinite x := x.isBelow .infinity
  wholePart x := x.value.floor.toNat
  infinity := .infinity
  totalLE x y := !y.isBelow x

theorem value_lift {operation : Rat → Rat → Rat} (hleft : ∀ y, operation 0 y = 0)
    (hright : ∀ x, operation x 0 = 0) (x y : Extended) :
    (lift operation x y).value = operation x.value y.value := by
  cases x <;> cases y <;> simp [lift, value, hleft, hright]

theorem isExact_value : Scalar.IsExact value where
  natCast _ := rfl
  mul := value_lift zero_mul mul_zero
  div := value_lift zero_div div_zero
  positive
    | .finite number, hpositive => by
      obtain ⟨-, hbelow⟩ := Bool.and_eq_true_iff.mp hpositive
      exact of_decide_eq_true (of_decide_eq_true hbelow)

end Extended

namespace Chromosome

variable [Scalar α]

/-- Whether a gene can be drawn: a fraction of one that can be drawn times the greatest value. -/
def IsGene (max gene : α) : Prop :=
  ∃ count < Draw.fractions, gene = (count : α) / (Draw.fractions : α) * max

theorem isGene_randomGene [WordSource σ] (max : α) (source : σ) :
    IsGene max (randomGene max source).1 := by
  refine ⟨((WordSource.next source).1 >>> 12).toNat, ?_, rfl⟩
  have hword := (WordSource.next source).1.toNat_lt
  rw [UInt64.toNat_shiftRight, Nat.shiftRight_eq_div_pow]
  exact Nat.div_lt_of_lt_mul hword

/-- Where numbers are exact, a gene lies between zero and the greatest value. -/
theorem IsGene.exact {value : α → Rat} (hexact : Scalar.IsExact value) {max gene : α}
    (hgene : IsGene max gene) (hmax : SearchConfig.isPositive max = true) :
    0 ≤ value gene ∧ value gene < value max := by
  obtain ⟨count, hcount, rfl⟩ := hgene
  have hpositive := hexact.positive max hmax
  have hbelow : (count : Rat) / (Draw.fractions : Rat) < 1 := by
    rw [div_lt_one (by norm_num [Draw.fractions])]
    exact_mod_cast hcount
  rw [hexact.mul, hexact.div, hexact.natCast, hexact.natCast]
  constructor
  · positivity
  · exact mul_lt_of_lt_one_left hpositive hbelow

end Chromosome

/-! ## Populations -/

/-- What holds of every population of a search. -/
structure Population.IsLawful [Scalar α] (config : SearchConfig α) (population : Population α) :
    Prop where
  size : population.size = config.populationSize
  chromosomes : ∀ individual ∈ population.individuals, individual.chromosome.size = Slot.count
  genes : ∀ individual ∈ population.individuals, ∀ gene ∈ individual.chromosome.genes,
    Chromosome.IsGene config.maxGeneValue gene

namespace Population

theorem IsLawful.ranked [Ranked α] {config : SearchConfig α} {population : Population α}
    (hlawful : population.IsLawful config) : population.ranked.IsLawful config where
  size := (size_ranked population).trans hlawful.size
  chromosomes individual hmem := hlawful.chromosomes individual (List.mem_mergeSort.mp hmem)
  genes individual hmem := hlawful.genes individual (List.mem_mergeSort.mp hmem)

variable [Scalar α] {config : SearchConfig α}

theorem isLawful_random [WordSource σ] (config : SearchConfig α) (source : σ) :
    (random config Slot.count source).1.IsLawful config where
  size := size_random config Slot.count source
  chromosomes := isSized_random config source
  genes := forall_random
    (Chromosome.inherited_genes (Chromosome.isGene_randomGene config.maxGeneValue)) source

theorem IsLawful.breed [WordSource σ] {population : Population α}
    (hlawful : population.IsLawful config) (hpositive : 0 < config.populationSize)
    (generation : Nat) (source : σ) :
    (population.breed config generation source).1.IsLawful config where
  size := size_breed (by rw [hlawful.size]; exact hpositive) config generation source
  chromosomes := isSized_breed hlawful.chromosomes config generation source
  genes := forall_breed
    (Chromosome.inherited_genes (Chromosome.isGene_randomGene config.maxGeneValue)) hlawful.genes
    generation source

theorem IsLawful.evaluated {population : Population α} (hlawful : population.IsLawful config)
    (dataset : Dataset α) (threshold : α) :
    (population.evaluated dataset threshold).IsLawful config where
  size := (size_evaluated population dataset threshold).trans hlawful.size
  chromosomes := isSized_evaluated hlawful.chromosomes dataset threshold
  genes := forall_chromosome_evaluated
    (fun chromosome => ∀ gene ∈ chromosome.genes, Chromosome.IsGene config.maxGeneValue gene)
    hlawful.genes dataset threshold

/-- Parents are chosen from a range that is not empty and lies inside the population. -/
theorem IsLawful.parents {population : Population α} (hlawful : population.IsLawful config)
    (hpositive : 0 < config.populationSize) :
    0 < (population.parents config).length ∧
      (population.parents config).length ≤ population.size := by
  have hpool := config.one_le_parentPoolSize
  have hsize := hlawful.size
  rw [length_parents]
  omega

/-- An evaluation gives a candidate with a gene for every slot statistics of the whole dataset. -/
theorem stats_evaluated (pairs : List (String × α)) (threshold : α) {individual : Individual α}
    (hsize : individual.chromosome.size = Slot.count) :
    ∃ stats, (individual.evaluated (Dataset.ofPairs pairs) threshold).stats = some stats ∧
      stats.total = (Dataset.ofPairs pairs).size := by
  obtain ⟨weights, hweights⟩ : ∃ weights, individual.chromosome.toWeights = .ok weights :=
    ⟨_, dif_pos hsize⟩
  refine ⟨((Dataset.ofPairs pairs).evaluate weights threshold []).1, ?_, ?_⟩
  · simp [Individual.evaluated, Individual.evaluate, hweights]
  · refine (EvalStats.total_ofPredictions threshold _).trans
      (Dataset.length_predictions weights ?_ [])
    exact fun sample hsample => (Dataset.prepared_of_mem hsample).2

end Population

/-! ## The search -/

namespace Search

variable [Ranked α] [WordSource σ]

/-- The states that a search comes to, by the number of the next generation. -/
inductive Reaches (config : SearchConfig α) (dataset : Dataset α) (schedule : Schedule)
    (observe : τ → GenerationReport α → τ) (start : State α σ τ) : Nat → State α σ τ → Prop where
  | start : Reaches config dataset schedule observe start 0 start
  | next {generation : Nat} {state recorded : State α σ τ} {evaluated : Population α} :
      Reaches config dataset schedule observe start generation state →
      generation < config.generations →
      state.population.evaluate? config dataset (schedule generation) = some evaluated →
      state.record? config observe generation evaluated.ranked = some recorded →
      Reaches config dataset schedule observe start (generation + 1)
        (recorded.breed config generation (config.generations - (generation + 1)))

variable {config : SearchConfig α} {dataset : Dataset α} {schedule : Schedule}
  {observe : τ → GenerationReport α → τ} {start : State α σ τ}

/-- A search goes on from every state that it comes to. -/
theorem Reaches.runFrom_eq {generation : Nat} {state : State α σ τ}
    (hreaches : Reaches config dataset schedule observe start generation state) :
    runFrom config dataset schedule observe 0 config.generations start =
      runFrom config dataset schedule observe generation (config.generations - generation)
        state := by
  induction hreaches with
  | start => rfl
  | @next generation state recorded evaluated _ hgeneration hevaluate hrecord ih =>
    have hleft : config.generations - generation = config.generations - (generation + 1) + 1 := by
      omega
    rw [ih, hleft, runFrom, hevaluate]
    simp only [hrecord]

omit [WordSource σ] in
/-- The population that a recorded state holds is the one that was recorded. -/
theorem State.population_of_record? {generation : Nat} {state recorded : State α σ τ}
    {population : Population α}
    (hrecord : state.record? config observe generation population = some recorded) :
    recorded.population = population := by
  unfold State.record? at hrecord
  split at hrecord
  · cases hrecord
    rfl
  · cases hrecord

/-- One generation leaves a lawful population. -/
theorem isLawful_next (hpositive : 0 < config.populationSize) (hworkers : 0 < config.workers)
    {generation left : Nat} {moves : List Move} {state recorded : State α σ τ}
    {evaluated : Population α} (hlawful : state.population.IsLawful config)
    (hevaluate : state.population.evaluate? config dataset moves = some evaluated)
    (hrecord : state.record? config observe generation evaluated.ranked = some recorded) :
    (recorded.breed config generation left).population.IsLawful config := by
  have hevaluated : evaluated = state.population.evaluated dataset config.threshold := by
    rw [Population.evaluate?_eq _ dataset hworkers] at hevaluate
    split at hevaluate
    · cases hevaluate
    · exact (Option.some.inj hevaluate).symm
  have hrecorded : recorded.population.IsLawful config := by
    rw [State.population_of_record? hrecord, hevaluated]
    exact (hlawful.evaluated dataset config.threshold).ranked
  cases left with
  | zero => exact hrecorded
  | succ left => exact hrecorded.breed hpositive generation recorded.source

/-- A search that starts with a lawful population comes only to lawful ones. -/
theorem Reaches.isLawful (hpositive : 0 < config.populationSize) (hworkers : 0 < config.workers)
    (hstart : start.population.IsLawful config) {generation : Nat} {state : State α σ τ}
    (hreaches : Reaches config dataset schedule observe start generation state) :
    state.population.IsLawful config := by
  induction hreaches with
  | start => exact hstart
  | next _ _ hevaluate hrecord ih => exact isLawful_next hpositive hworkers ih hevaluate hrecord

/-- A search that nobody stops comes to all of its generations. -/
theorem exists_reaches (hpositive : 0 < config.populationSize) (hworkers : 0 < config.workers)
    (hstart : start.population.IsLawful config) (generation : Nat)
    (hgeneration : generation ≤ config.generations)
    (hstop : ∀ earlier < generation, .stop ∉ schedule earlier) :
    ∃ state, Reaches config dataset schedule observe start generation state := by
  induction generation with
  | zero => exact ⟨start, .start⟩
  | succ generation ih =>
    obtain ⟨state, hreaches⟩ := ih (by omega) fun earlier hearlier => hstop earlier (by omega)
    have hevaluate := state.population.evaluate?_eq dataset hworkers (schedule generation)
    rw [if_neg (hstop generation (by omega))] at hevaluate
    have hlawful := hreaches.isLawful hpositive hworkers hstart
    have hranked := (hlawful.evaluated dataset config.threshold).ranked
    have hnonempty := List.ne_nil_of_length_pos (hranked.size.symm ▸ hpositive)
    obtain ⟨recorded, hrecord, -⟩ := state.exists_record? config observe generation hnonempty
    exact ⟨_, hreaches.next hgeneration hevaluate hrecord⟩

/-- A search comes to all its generations unless someone stops it. Every population that it comes to
is lawful, before and after its evaluation; the genes lie between zero and the greatest value where
numbers are exact; an evaluation that nobody stops gives every candidate statistics of the whole
dataset and leaves parents to choose from. A search therefore ends with weights unless someone stops
it. -/
theorem run_invariant (config : SearchConfig α) (pairs : List (String × α)) (schedule : Schedule)
    (observe : τ → GenerationReport α → τ) (observed : τ) (source : σ)
    (hvalid : config.validate = .ok ()) (hdataset : (Dataset.ofPairs pairs).isEmpty = false) :
    let dataset := Dataset.ofPairs pairs
    let found := run config dataset schedule observe observed source
    let reaches := Reaches config dataset schedule observe (initial config observed source)
    (∀ generation ≤ config.generations, (∀ earlier < generation, .stop ∉ schedule earlier) →
        ∃ state, reaches generation state) ∧
      (∀ (generation : Nat) (state : State α σ τ), reaches generation state →
        found = runFrom config dataset schedule observe generation
          (config.generations - generation) state ∧
        state.population.IsLawful config ∧
        (∀ value : α → Rat, Scalar.IsExact value → ∀ individual ∈ state.population.individuals,
          ∀ gene ∈ individual.chromosome.genes,
            0 ≤ value gene ∧ value gene < value config.maxGeneValue) ∧
        ∀ evaluated : Population α,
          state.population.evaluate? config dataset (schedule generation) = some evaluated →
            evaluated.IsLawful config ∧
            (∀ individual ∈ evaluated.individuals,
              ∃ stats, individual.stats = some stats ∧ stats.total = dataset.size) ∧
            0 < (evaluated.ranked.parents config).length ∧
            ∀ source : σ, (Draw.below (evaluated.ranked.parents config).length source).1 <
              evaluated.ranked.size) ∧
      ((∃ result, found.outcome = .ok result) ∨
        found.outcome = .error .cancelled ∧ ∃ stopped, .stop ∈ schedule stopped) := by
  intro dataset found reaches
  obtain ⟨hpositive, hgenerations, hworkers⟩ := SearchConfig.positive_of_validate hvalid
  have hstart : (initial (τ := τ) config observed source).population.IsLawful config :=
    Population.isLawful_random config source
  refine ⟨exists_reaches hpositive hworkers hstart, ?_, ?_⟩
  · intro generation state hreaches
    have hlawful := hreaches.isLawful hpositive hworkers hstart
    refine ⟨?_, hlawful, ?_, ?_⟩
    · exact (run_eq config schedule observe observed source hdataset).trans hreaches.runFrom_eq
    · intro value hexact individual hmem gene hgene
      exact (hlawful.genes individual hmem gene hgene).exact hexact
        (SearchConfig.isPositive_maxGeneValue_of_validate hvalid)
    · intro evaluated hevaluate
      rw [Population.evaluate?_eq _ dataset hworkers] at hevaluate
      split at hevaluate
      · cases hevaluate
      · obtain rfl := Option.some.inj hevaluate
        have hevaluated := hlawful.evaluated dataset config.threshold
        obtain ⟨hparents, hinside⟩ := hevaluated.ranked.parents hpositive
        refine ⟨hevaluated, ?_, hparents, ?_⟩
        · intro individual hmem
          obtain ⟨original, horiginal, rfl⟩ := List.mem_map.mp hmem
          exact Population.stats_evaluated pairs config.threshold
            (hlawful.chromosomes original horiginal)
        · intro source
          exact Nat.lt_of_lt_of_le (Draw.below_lt hparents source) hinside
  · exact run_outcome config schedule observe observed source hdataset hpositive hgenerations
      hworkers

/-- The standard settings with exact numbers, on a dataset of one query. -/
theorem run_invariant_standard :
    let config : SearchConfig Extended := SearchConfig.standard
    let dataset : Dataset Extended := Dataset.ofPairs [("[word=\"a\"]", 1.0)]
    let source := ScriptedWords.ofList [5]
    config.validate = .ok () ∧ dataset.isEmpty = false ∧
      (∀ individual ∈ (initial config () source).population.individuals,
        ∀ gene ∈ individual.chromosome.genes, 0 ≤ gene.value ∧ gene.value < 100) ∧
      ∃ result, (run config dataset Schedule.plain (fun (_ : Unit) _ => ()) () source).outcome =
        .ok result := by
  intro config dataset source
  have hvalid : config.validate = .ok () := SearchConfig.validate_eq_ok.mpr (by decide +kernel)
  have hdataset : dataset.isEmpty = false := by decide +kernel
  obtain ⟨-, hstates, houtcome⟩ := run_invariant config [("[word=\"a\"]", 1.0)] Schedule.plain
    (fun (_ : Unit) _ => ()) () source hvalid hdataset
  refine ⟨hvalid, hdataset, ?_, ?_⟩
  · obtain ⟨-, -, hgenes, -⟩ := hstates 0 _ .start
    exact hgenes Extended.value Extended.isExact_value
  · rcases houtcome with hok | ⟨-, stopped, hstop⟩
    · exact hok
    · cases hstop

end Search

end CorpusCost
