import CorpusCost.Proofs.Evaluation
import CorpusCost.Proofs.SearchOutcome

/-!
# The best candidate of a search

A search keeps the best candidate it has seen. Candidates are ranked by the total order of their
fitness, but the kept one is replaced only by one whose fitness is below its own, and nothing is
below what is not a number. So the kept candidate is the best one of all (`kept_spec`) unless no
fitness of the first generation is a number: then the search stays with what is not a number, and
misses every number that comes later.
-/

set_option autoImplicit false

namespace CorpusCost

namespace Search

variable {α σ τ : Type} [Ranked α]

/-! ## The generations of a search -/

section

variable [WordSource σ]

/-- The evaluated populations of the next `left` generations, as far as the search gets. -/
def evaluatedFrom (config : SearchConfig α) (dataset : Dataset α) (schedule : Schedule)
    (observe : τ → GenerationReport α → τ) (generation left : Nat) (state : State α σ τ) :
    List (Population α) :=
  match left with
  | 0 => []
  | left + 1 =>
    match state.population.evaluate? config dataset (schedule generation) with
    | none => []
    | some population =>
      population ::
        match state.record? config observe generation population.ranked with
        | none => []
        | some next =>
          evaluatedFrom config dataset schedule observe (generation + 1) left
            (next.breed config generation left)

/-- The evaluated populations of a search, one for each generation. -/
def evaluated (config : SearchConfig α) (dataset : Dataset α) (schedule : Schedule)
    (observe : τ → GenerationReport α → τ) (observed : τ) (source : σ) : List (Population α) :=
  if dataset.isEmpty then []
  else
    evaluatedFrom config dataset schedule observe 0 config.generations
      (initial config observed source)

end

/-- The candidates that are kept after each of the given evaluated populations, where `best` was
kept before. -/
def kept (best : Option (Individual α)) : List (Population α) → List (Individual α)
  | [] => []
  | population :: populations =>
    match population.ranked.best? with
    | none => []
    | some leader =>
      better best leader :: kept (some (better best leader)) populations

/-! ## Reports are about the kept candidates -/

section

variable [WordSource σ]

omit [WordSource σ] in
/-- A record is made of a population that has a first and a last candidate. -/
theorem record?_eq_some {config : SearchConfig α} {observe : τ → GenerationReport α → τ}
    {generation : Nat} {population : Population α} {state next : State α σ τ}
    (hrecord : state.record? config observe generation population = some next) :
    ∃ leader, population.best? = some leader ∧ next.best = some (better state.best leader) ∧
      next.history.map GenerationReport.bestSoFar =
        state.history.map GenerationReport.bestSoFar ++ [(better state.best leader).fitness] := by
  unfold State.record? at hrecord
  split at hrecord
  · rename_i leader last hleader hlast
    cases hrecord
    refine ⟨leader, hleader, rfl, ?_⟩
    simp [report]
  · cases hrecord

/-- A search that succeeds has one evaluated population for each generation, reports the fitness of
the candidates that are kept, and concludes with the last of them. -/
theorem runFrom_eq_ok (config : SearchConfig α) (dataset : Dataset α) (schedule : Schedule)
    (observe : τ → GenerationReport α → τ) {result : SearchResult α} (left : Nat) :
    ∀ (generation : Nat) (state : State α σ τ),
      (runFrom config dataset schedule observe generation left state).outcome = .ok result →
      let populations := evaluatedFrom config dataset schedule observe generation left state
      populations.length = left ∧ (kept state.best populations).length = left ∧
        result.history.map GenerationReport.bestSoFar =
          state.history.map GenerationReport.bestSoFar ++
            (kept state.best populations).map Individual.fitness ∧
        conclude config ((kept state.best populations).getLast?.or state.best) result.history =
          .ok result := by
  induction left with
  | zero =>
    intro generation state hok
    have hresult : conclude config state.best state.history = .ok result := hok
    have hhistory : result.history = state.history := by
      unfold conclude at hresult
      split at hresult
      · cases hresult
      · dsimp only at hresult
        split at hresult
        · cases hresult
        · cases hresult
          rfl
    simp [evaluatedFrom, kept, hhistory, hresult]
  | succ left ih =>
    intro generation state hok
    rw [runFrom] at hok
    rw [evaluatedFrom]
    cases hevaluate : state.population.evaluate? config dataset (schedule generation) with
    | none => simp [hevaluate, State.finish] at hok
    | some population =>
      cases hrecord : state.record? config observe generation population.ranked with
      | none => simp [hevaluate, hrecord, State.finish] at hok
      | some next =>
        simp only [hevaluate, hrecord] at hok
        obtain ⟨leader, hleader, hbest, hhistory⟩ := record?_eq_some hrecord
        obtain ⟨hkeep, hsame⟩ := breed_best config generation left next
        obtain ⟨hlength, hcount, hreports, hconclude⟩ := ih (generation + 1) _ hok
        rw [hkeep, hbest] at hcount hreports hconclude
        rw [hsame, hhistory] at hreports
        simp only [hrecord, kept, hleader]
        generalize evaluatedFrom config dataset schedule observe (generation + 1) left
          (next.breed config generation left) = later at hlength hcount hreports hconclude ⊢
        refine ⟨by rw [List.length_cons, hlength], by rw [List.length_cons, hcount], ?_, ?_⟩
        · rw [hreports, List.map_cons, List.append_assoc]
          rfl
        · rw [List.getLast?_cons]
          cases hlast : (kept (some (better state.best leader)) later).getLast? with
          | none => simpa [hlast] using hconclude
          | some last => simpa [hlast] using hconclude

end

/-! ## What is kept

From here on the results are doubles. -/

end Search

namespace Individual

/-- The place of a candidate in the ranking. -/
def rank (individual : Individual Float) : Int := Number.totalKey individual.fitness

/-- Whether the fitness of a candidate is a number. -/
def hasNumber (individual : Individual Float) : Bool := !individual.fitness.isNaN

theorem notWorse_iff (first second : Individual Float) :
    first.notWorse second = true ↔ first.rank ≤ second.rank := decide_eq_true_iff

end Individual

namespace Population

/-- The leader of a ranked population is the first in the total order. -/
theorem best?_ranked {population : Population Float} {leader : Individual Float}
    (hleader : population.ranked.best? = some leader) :
    leader ∈ population.individuals ∧
      ∀ individual ∈ population.individuals, leader.rank ≤ individual.rank := by
  have htrans : ∀ a b c : Individual Float,
      a.notWorse b = true → b.notWorse c = true → a.notWorse c = true := by
    intro a b c hab hbc
    rw [Individual.notWorse_iff] at hab hbc ⊢
    omega
  have htotal : ∀ a b : Individual Float, (a.notWorse b || b.notWorse a) = true := by
    intro a b
    rw [Bool.or_eq_true, Individual.notWorse_iff, Individual.notWorse_iff]
    omega
  have hsorted := List.pairwise_mergeSort htrans htotal population.individuals
  have hmem : ∀ individual, individual ∈ population.individuals ↔
      individual ∈ population.individuals.mergeSort Individual.notWorse :=
    fun individual => List.mem_mergeSort.symm
  simp only [hmem]
  unfold best? ranked at hleader
  cases hsort : population.individuals.mergeSort Individual.notWorse with
  | nil => simp [hsort] at hleader
  | cons first rest =>
    obtain rfl : first = leader := by simpa [hsort] using hleader
    rw [hsort] at hsorted
    refine ⟨by simp, ?_⟩
    intro individual hindividual
    rcases List.mem_cons.mp hindividual with rfl | hrest
    · exact Int.le_refl _
    · exact (Individual.notWorse_iff _ _).mp (List.rel_of_pairwise_cons hsorted hrest)

end Population

namespace Search

open Number

/-- The candidates of some populations. -/
def candidates (populations : List (Population Float)) : List (Individual Float) :=
  populations.flatMap Population.individuals

theorem mem_candidates_append {populations others : List (Population Float)}
    {individual : Individual Float} :
    individual ∈ candidates (populations ++ others) ↔
      individual ∈ candidates populations ∨ individual ∈ candidates others := by
  rw [candidates, List.flatMap_append, List.mem_append]
  rfl

theorem mem_candidates_cons {population : Population Float}
    {populations : List (Population Float)} {individual : Individual Float} :
    individual ∈ candidates (population :: populations) ↔
      individual ∈ population.individuals ∨ individual ∈ candidates populations := by
  rw [candidates, List.flatMap_cons, List.mem_append]
  rfl

theorem mem_candidates_singleton {population : Population Float} {individual : Individual Float} :
    individual ∈ candidates [population] ↔ individual ∈ population.individuals := by
  simp [candidates]

/-! ### One replacement -/

section

variable {best leader : Individual Float}

theorem rank_better_le (hbest : Unsigned best.fitness) (hleader : Unsigned leader.fitness) :
    (better (some best) leader).rank ≤ best.rank := by
  unfold better
  dsimp only
  split
  · rename_i hlt
    exact Int.le_of_lt ((hleader.lt_iff hbest).mp hlt).1
  · exact Int.le_refl _

/-- A candidate whose fitness is a number gives way to every better one. -/
theorem rank_better_le_leader (hbest : Unsigned best.fitness) (hleader : Unsigned leader.fitness)
    (hnumber : best.hasNumber = true) : (better (some best) leader).rank ≤ leader.rank := by
  unfold better
  dsimp only
  split
  · exact Int.le_refl _
  · rename_i hlt
    have hnan : best.fitness.isNaN = false := by simpa [Individual.hasNumber] using hnumber
    have hrank := mt (fun h => (hleader.lt_iff hbest).mpr ⟨h, hnan⟩) hlt
    exact Int.not_lt.mp hrank

/-- A candidate whose fitness is not a number is kept for good. -/
theorem better_of_not_hasNumber (hbest : Unsigned best.fitness)
    (hleader : Unsigned leader.fitness) (hnumber : best.hasNumber = false) :
    better (some best) leader = best := by
  have hlt : ¬leader.fitness < best.fitness := by
    intro hlt
    have hnan := ((hleader.lt_iff hbest).mp hlt).2
    rw [Individual.hasNumber, hnan] at hnumber
    exact absurd hnumber (by decide)
  exact if_neg hlt

end

theorem hasNumber_iff {individual : Individual Float} (hsign : Unsigned individual.fitness) :
    individual.hasNumber = true ↔ individual.rank ≤ 0x7ff0000000000000 := by
  have hnan := hsign.isNaN_iff
  have hrank : individual.rank = individual.fitness.toBits.toNat := hsign.totalKey_eq
  rw [Individual.hasNumber, Bool.not_eq_true', ← Bool.not_eq_true, hnan, hrank]
  omega

/-! ### All replacements -/

/-- What is known of the candidate that is kept after some populations. Once the first population
has any number, it is the first of all candidates in the total order; without one, its fitness is
not a number. -/
structure KeptAfter (populations : List (Population Float)) (best : Individual Float) : Prop where
  mem : best ∈ candidates populations
  least : (∃ individual ∈ candidates (populations.take 1), individual.hasNumber = true) →
    ∀ individual ∈ candidates populations, best.rank ≤ individual.rank
  stuck : (∀ individual ∈ candidates (populations.take 1), individual.hasNumber = false) →
    best.hasNumber = false

/-- Whether no fitness in some populations has a minus sign. -/
def AllUnsigned (populations : List (Population Float)) : Prop :=
  ∀ individual ∈ candidates populations, Unsigned individual.fitness

theorem keptAfter_first {population : Population Float} {leader : Individual Float}
    (hleader : population.ranked.best? = some leader) : KeptAfter [population] leader := by
  obtain ⟨hmem, hleast⟩ := Population.best?_ranked hleader
  refine ⟨mem_candidates_singleton.mpr hmem, ?_, ?_⟩
  · intro _ individual hindividual
    exact hleast individual (mem_candidates_singleton.mp hindividual)
  · intro hstuck
    exact hstuck leader (mem_candidates_singleton.mpr hmem)

/-- One more generation. -/
theorem KeptAfter.step {populations : List (Population Float)} {best leader : Individual Float}
    {population : Population Float} (hkept : KeptAfter populations best)
    (hsign : AllUnsigned (populations ++ [population]))
    (hleader : population.ranked.best? = some leader) :
    KeptAfter (populations ++ [population]) (better (some best) leader) := by
  obtain ⟨hmem, hleast⟩ := Population.best?_ranked hleader
  have hnew : leader ∈ candidates (populations ++ [population]) :=
    mem_candidates_append.mpr (.inr (mem_candidates_singleton.mpr hmem))
  have hold : best ∈ candidates (populations ++ [population]) :=
    mem_candidates_append.mpr (.inl hkept.mem)
  have hfirst : (populations ++ [population]).take 1 = populations.take 1 := by
    cases populations with
    | nil => cases hkept.mem
    | cons first rest => rfl
  refine ⟨?_, ?_, ?_⟩
  · exact better_induction (P := (· ∈ candidates (populations ++ [population])))
      (by simpa using hold) hnew
  · rw [hfirst]
    intro hnumber individual hindividual
    have hbest : best.hasNumber = true := by
      obtain ⟨other, hother, hothers⟩ := hnumber
      have hbefore : other ∈ candidates populations := by
        obtain ⟨first, hin, hfrom⟩ := List.mem_flatMap.mp hother
        exact List.mem_flatMap.mpr ⟨first, List.mem_of_mem_take hin, hfrom⟩
      have hle := hkept.least ⟨other, hother, hothers⟩ other hbefore
      have hother' := hsign other (mem_candidates_append.mpr (.inl hbefore))
      rw [hasNumber_iff hother'] at hothers
      rw [hasNumber_iff (hsign best hold)]
      omega
    rcases mem_candidates_append.mp hindividual with hbefore | hnow
    · have hrank := rank_better_le (hsign best hold) (hsign leader hnew)
      have hle := hkept.least hnumber individual hbefore
      omega
    · have hrank := rank_better_le_leader (hsign best hold) (hsign leader hnew) hbest
      have hle := hleast individual (mem_candidates_singleton.mp hnow)
      omega
  · rw [hfirst]
    intro hstuck
    have hbest := hkept.stuck hstuck
    rwa [better_of_not_hasNumber (hsign best hold) (hsign leader hnew) hbest]

/-- What is known between two populations; before the first one nothing is kept. -/
def KeptSoFar (populations : List (Population Float)) : Option (Individual Float) → Prop
  | none => populations = []
  | some best => KeptAfter populations best

theorem KeptSoFar.step {populations : List (Population Float)} {best : Option (Individual Float)}
    {leader : Individual Float} {population : Population Float} (hkept : KeptSoFar populations best)
    (hsign : AllUnsigned (populations ++ [population]))
    (hleader : population.ranked.best? = some leader) :
    KeptAfter (populations ++ [population]) (better best leader) := by
  cases best with
  | none =>
    obtain rfl : populations = [] := hkept
    exact keptAfter_first hleader
  | some best => exact KeptAfter.step hkept hsign hleader

/-- All generations: the invariant holds of each candidate that is kept on the way. -/
theorem keptAfter_kept (populations : List (Population Float)) :
    ∀ (earlier : List (Population Float)) (best : Option (Individual Float)),
      KeptSoFar earlier best → AllUnsigned (earlier ++ populations) →
      ∀ (i : Nat) (later : Individual Float), (kept best populations)[i]? = some later →
        KeptAfter (earlier ++ populations.take (i + 1)) later := by
  induction populations with
  | nil =>
    intro earlier best hkept hsign i later hlater
    simp [kept] at hlater
  | cons population populations ih =>
    intro earlier best hkept hsign i later hlater
    rw [kept] at hlater
    split at hlater
    · simp at hlater
    · rename_i leader hleader
      have hsplit : earlier ++ population :: populations =
          (earlier ++ [population]) ++ populations := by
        simp
      rw [hsplit] at hsign
      have hnow : AllUnsigned (earlier ++ [population]) := fun individual hmem =>
        hsign individual (mem_candidates_append.mpr (.inl hmem))
      have hstep := hkept.step hnow hleader
      cases i with
      | zero =>
        obtain rfl : better best leader = later := by simpa using hlater
        exact hstep
      | succ i =>
        have hrest := ih (earlier ++ [population]) (some (better best leader)) hstep hsign i later
          (by simpa using hlater)
        simpa using hrest

/-! ### The kept candidates never get worse -/

theorem unsigned_better {best : Option (Individual Float)} {leader : Individual Float}
    (hbest : ∀ kept ∈ best, Unsigned kept.fitness) (hleader : Unsigned leader.fitness) :
    Unsigned (better best leader).fitness :=
  better_induction (P := fun kept => Unsigned kept.fitness) hbest hleader

theorem unsigned_leader {population : Population Float} {populations : List (Population Float)}
    {leader : Individual Float} (hsign : AllUnsigned (population :: populations))
    (hleader : population.ranked.best? = some leader) : Unsigned leader.fitness :=
  hsign leader (mem_candidates_cons.mpr (.inl (Population.best?_ranked hleader).1))

theorem AllUnsigned.tail {population : Population Float} {populations : List (Population Float)}
    (hsign : AllUnsigned (population :: populations)) : AllUnsigned populations :=
  fun individual hmem => hsign individual (mem_candidates_cons.mpr (.inr hmem))

theorem rank_kept_le (populations : List (Population Float)) :
    ∀ best : Individual Float, Unsigned best.fitness → AllUnsigned populations →
      ∀ later ∈ kept (some best) populations, later.rank ≤ best.rank := by
  induction populations with
  | nil =>
    intro best hbest hsign later hlater
    cases hlater
  | cons population populations ih =>
    intro best hbest hsign later hlater
    rw [kept] at hlater
    split at hlater
    · cases hlater
    · rename_i leader hleader
      have hunsigned := unsigned_leader hsign hleader
      have hrank := rank_better_le hbest hunsigned
      rcases List.mem_cons.mp hlater with rfl | hrest
      · exact hrank
      · have hbetter : Unsigned (better (some best) leader).fitness :=
          unsigned_better (by simpa using hbest) hunsigned
        have hle := ih _ hbetter hsign.tail later hrest
        omega

theorem pairwise_kept (populations : List (Population Float)) :
    ∀ best : Option (Individual Float), (∀ kept ∈ best, Unsigned kept.fitness) →
      AllUnsigned populations →
        (kept best populations).Pairwise fun earlier later => later.rank ≤ earlier.rank := by
  induction populations with
  | nil =>
    intro best hbest hsign
    exact List.Pairwise.nil
  | cons population populations ih =>
    intro best hbest hsign
    rw [kept]
    split
    · exact List.Pairwise.nil
    · rename_i leader hleader
      have hunsigned := unsigned_better hbest (unsigned_leader hsign hleader)
      exact List.pairwise_cons.mpr
        ⟨rank_kept_le populations _ hunsigned hsign.tail,
          ih (some (better best leader)) (by simpa using hunsigned) hsign.tail⟩

/-! ### From the first generation on -/

theorem keptAfter_kept_none {populations : List (Population Float)}
    (hsign : AllUnsigned populations) {i : Nat} {later : Individual Float}
    (hlater : (kept none populations)[i]? = some later) :
    KeptAfter (populations.take (i + 1)) later :=
  keptAfter_kept populations [] none rfl hsign i later hlater

theorem pairwise_kept_none {populations : List (Population Float)}
    (hsign : AllUnsigned populations) :
    (kept none populations).Pairwise fun earlier later => later.rank ≤ earlier.rank :=
  pairwise_kept populations none nofun hsign

/-! ## When the best fitness is found -/

/-- Whether `value` is the first fitness of the given candidates in the total order. -/
def IsLeastFitness (value : Float) (individuals : List (Individual Float)) : Prop :=
  (∃ individual ∈ individuals, individual.fitness = value) ∧
    ∀ individual ∈ individuals, Ranked.totalLE value individual.fitness = true

/-- Whether the first of some populations has a fitness that is a number, or none of them has. -/
def Regular (populations : List (Population Float)) : Prop :=
  (∃ individual ∈ candidates (populations.take 1), individual.fitness.isNaN = false) ∨
    ∀ individual ∈ candidates populations, individual.fitness.isNaN = true

theorem hasNumber_eq_true {individual : Individual Float} :
    individual.hasNumber = true ↔ individual.fitness.isNaN = false := by
  simp [Individual.hasNumber]

/-- The kept candidate has the best fitness of all exactly if the generations are regular. -/
theorem KeptAfter.isLeastFitness_iff {populations : List (Population Float)}
    {best : Individual Float} (hkept : KeptAfter populations best)
    (hsign : AllUnsigned populations) :
    IsLeastFitness best.fitness (candidates populations) ↔ Regular populations := by
  have hle : ∀ individual : Individual Float,
      Ranked.totalLE best.fitness individual.fitness = true ↔ best.rank ≤ individual.rank :=
    fun individual => decide_eq_true_iff
  constructor
  · rintro ⟨-, hleast⟩
    by_cases hfirst : ∃ individual ∈ candidates (populations.take 1), individual.hasNumber = true
    · obtain ⟨individual, hmem, hnumber⟩ := hfirst
      exact .inl ⟨individual, hmem, hasNumber_eq_true.mp hnumber⟩
    · have hstuck := hkept.stuck fun individual hmem =>
        Bool.eq_false_iff.mpr fun hnumber => hfirst ⟨individual, hmem, hnumber⟩
      refine .inr ?_
      intro individual hmem
      have hrank := (hle individual).mp (hleast individual hmem)
      have hbest := mt (hasNumber_iff (hsign best hkept.mem)).mpr (by simp [hstuck])
      have hnone := mt (hasNumber_iff (hsign individual hmem)).mp (by omega)
      simpa [Individual.hasNumber] using hnone
  · rintro (⟨individual, hmem, hnumber⟩ | hnone)
    · have hleast := hkept.least ⟨individual, hmem, hasNumber_eq_true.mpr hnumber⟩
      exact ⟨⟨best, hkept.mem, rfl⟩, fun other hother => (hle other).mpr (hleast other hother)⟩
    · refine ⟨⟨best, hkept.mem, rfl⟩, ?_⟩
      intro other hother
      have hbest := (hsign best hkept.mem).totalKey_of_isNaN (hnone best hkept.mem)
      have hsame := (hsign other hother).totalKey_of_isNaN (hnone other hother)
      rw [hle, Individual.rank, Individual.rank, hbest]
      exact Int.le_of_eq hsame.symm

/-! ## Runs -/

section

variable {σ τ : Type} [WordSource σ]

theorem allUnsigned_evaluatedFrom (config : SearchConfig Float) (dataset : Dataset Float)
    (schedule : Schedule) (observe : τ → GenerationReport Float → τ) (left : Nat) :
    ∀ (generation : Nat) (state : State Float σ τ),
      AllUnsigned (evaluatedFrom config dataset schedule observe generation left state) := by
  induction left with
  | zero =>
    intro generation state individual hmem
    cases hmem
  | succ left ih =>
    intro generation state
    rw [evaluatedFrom]
    split
    · intro individual hmem
      cases hmem
    · rename_i population hevaluate
      have hnow := Population.forall_of_evaluate? (P := fun individual =>
        Unsigned individual.fitness)
        (Individual.unsigned_fitness_evaluate dataset config.threshold) hevaluate
      intro individual hmem
      rcases List.mem_append.mp hmem with hfirst | hrest
      · exact hnow individual hfirst
      · split at hrest
        · cases hrest
        · exact ih _ _ individual hrest

theorem fitness_of_conclude {config : SearchConfig Float} {best : Individual Float}
    {history : List (GenerationReport Float)} {result : SearchResult Float}
    (hconclude : conclude config (some best) history = .ok result) :
    result.stats.fitness = best.fitness := by
  unfold conclude at hconclude
  dsimp only at hconclude
  split at hconclude
  · cases hconclude
  · cases hconclude
    unfold Individual.fitness
    cases best.stats <;> rfl

/-- In a search that succeeds, the best fitness so far that is reported of a generation is the first
in the total order of all fitnesses up to there exactly if some fitness of the first generation is a
number, or none is a number up to there; the same holds of the result and all generations. In every
case what is reported never gets worse. -/
theorem run_bestSoFar (config : SearchConfig Float) (dataset : Dataset Float)
    (schedule : Schedule) (observe : τ → GenerationReport Float → τ) (observed : τ) (source : σ)
    {result : SearchResult Float}
    (hok : (run config dataset schedule observe observed source).outcome = .ok result) :
    let populations := evaluated config dataset schedule observe observed source
    populations.length = config.generations ∧ result.history.length = config.generations ∧
      (∀ (i : Nat) (report : GenerationReport Float), result.history[i]? = some report →
        (IsLeastFitness report.bestSoFar (candidates (populations.take (i + 1))) ↔
          Regular (populations.take (i + 1)))) ∧
      (IsLeastFitness result.stats.fitness (candidates populations) ↔ Regular populations) ∧
      (result.history.map GenerationReport.bestSoFar).Pairwise fun earlier later =>
        Ranked.totalLE later earlier = true := by
  intro populations
  cases hdataset : dataset.isEmpty with
  | true => simp [run, hdataset] at hok
  | false =>
    rw [run_eq config schedule observe observed source hdataset] at hok
    have hpopulations : populations = evaluatedFrom config dataset schedule observe 0
        config.generations (initial config observed source) := if_neg (by simp [hdataset])
    obtain ⟨hlength, hcount, hreports, hconclude⟩ := runFrom_eq_ok config dataset schedule observe
      config.generations 0 _ hok
    have hsign := allUnsigned_evaluatedFrom config dataset schedule observe config.generations 0
      (initial config observed source)
    rw [← hpopulations] at hlength hcount hreports hconclude hsign
    have htake : ∀ n : Nat, AllUnsigned (populations.take n) := by
      intro n individual hmem
      obtain ⟨population, hin, hfrom⟩ := List.mem_flatMap.mp hmem
      exact hsign individual (List.mem_flatMap.mpr ⟨population, List.mem_of_mem_take hin, hfrom⟩)
    have hnone : (initial (σ := σ) config observed source).best = none := rfl
    have hempty : (initial (σ := σ) config observed source).history = [] := rfl
    rw [hnone] at hcount hreports hconclude
    rw [hempty, List.map_nil, List.nil_append] at hreports
    refine ⟨hlength, ?_, ?_, ?_, ?_⟩
    · simpa [hcount] using congrArg List.length hreports
    · intro i report hreport
      have hvalue := congrArg (fun values => values[i]?) hreports
      rw [List.getElem?_map, List.getElem?_map, hreport, Option.map_some] at hvalue
      obtain ⟨later, hlater, hfitness⟩ := Option.map_eq_some_iff.mp hvalue.symm
      rw [← hfitness]
      exact (keptAfter_kept_none hsign hlater).isLeastFitness_iff (htake (i + 1))
    · cases hlast : (kept none populations).getLast? with
      | none => simp [hlast, conclude] at hconclude
      | some best =>
        rw [hlast, Option.some_or] at hconclude
        rw [fitness_of_conclude hconclude]
        rw [List.getLast?_eq_getElem?, hcount, ← hlength] at hlast
        have hkept := keptAfter_kept_none hsign hlast
        have hall : populations.take (populations.length - 1 + 1) = populations :=
          List.take_of_length_le (by omega)
        rw [hall] at hkept
        exact hkept.isLeastFitness_iff hsign
    · rw [hreports, List.pairwise_map]
      exact (pairwise_kept_none hsign).imp fun hrank => decide_eq_true_iff.mpr hrank

end

/-- The standard settings on a dataset of one query. -/
theorem run_bestSoFar_standard :
    let dataset : Dataset Float := Dataset.ofPairs [("[word=\"a\"]", 1.0)]
    let source := ScriptedWords.ofList [5]
    let populations := evaluated SearchConfig.standard dataset Schedule.plain
      (fun (_ : Unit) _ => ()) () source
    ∃ result, (run SearchConfig.standard dataset Schedule.plain (fun (_ : Unit) _ => ()) ()
        source).outcome = .ok result ∧
      (IsLeastFitness result.stats.fitness (candidates populations) ↔ Regular populations) := by
  intro dataset source populations
  have hdataset : dataset.isEmpty = false := by decide +kernel
  obtain ⟨result, hok⟩ := run_plain_ok SearchConfig.standard (fun (_ : Unit) _ => ()) () source
    hdataset (by decide) (by decide) (by decide)
  obtain ⟨-, -, -, hresult, -⟩ := run_bestSoFar SearchConfig.standard dataset Schedule.plain
    (fun (_ : Unit) _ => ()) () source hok
  exact ⟨result, hok, hresult⟩

end Search

end CorpusCost
