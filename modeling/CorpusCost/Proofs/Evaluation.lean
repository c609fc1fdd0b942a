import CorpusCost.Proofs.FloatSign
import CorpusCost.Proofs.Interleaving

/-!
# What an evaluation leaves

Whatever the workers' moves are, every candidate of an evaluated population has come out of an
evaluation of its own, so what holds of all such candidates holds of the population. For doubles
this is that the fitness has no minus sign.
-/

set_option autoImplicit false

namespace CorpusCost

variable {α : Type}

/-! ## Candidates of an evaluated population -/

/-- What holds of every candidate that comes out of an evaluation holds of all candidates of an
evaluated population. -/
theorem Population.forall_of_evaluate? [Scalar α] {P : Individual α → Prop} {dataset : Dataset α}
    {population evaluated : Population α} {config : SearchConfig α} {moves : List Move}
    (hevaluate : ∀ (individual : Individual α) (stack : Machine.Stack α),
      P (individual.evaluate dataset config.threshold stack).1)
    (hdone : population.evaluate? config dataset moves = some evaluated) :
    ∀ individual ∈ evaluated.individuals, P individual := by
  rw [evaluate?, Crew.join?_eq, Crew.bound_after, Crew.bound_ofPopulation] at hdone
  split at hdone
  · cases hdone
  · cases hdone
    intro individual hmem
    obtain ⟨original, -, rfl⟩ := List.mem_map.mp hmem
    exact hevaluate original []

/-! ## The sign of a fitness -/

namespace EvalStats

open Number

theorem unsigned_error_foldl (threshold : Float) (pairs : List (Float × Float))
    (tally : Tally Float) (htally : Unsigned tally.error) :
    Unsigned (pairs.foldl (Tally.add threshold) tally).error := by
  induction pairs generalizing tally with
  | nil => exact htally
  | cons pair pairs ih =>
    exact ih (tally.add threshold pair) (htally.add (noMinusOrZero_distance pair.1 pair.2))

/-- A mean error has no minus sign. -/
theorem unsigned_meanError (threshold : Float) (pairs : List (Float × Float)) :
    Unsigned (ofPredictions threshold pairs).meanError := by
  have herror := unsigned_error_foldl threshold pairs Tally.empty (unsigned_natCast 0)
  unfold ofPredictions ofTally
  dsimp only
  split
  · exact herror.div (unsigned_natCast _)
  · exact unsigned_natCast 0

theorem unsigned_infinity : Unsigned (Ranked.infinity : Float) :=
  (unsigned_ofScientific 10 true 1).div (unsigned_ofScientific 0 true 1)

theorem unsigned_fitness (threshold : Float) (pairs : List (Float × Float)) :
    Unsigned (ofPredictions threshold pairs).fitness := by
  unfold fitness
  split
  · exact unsigned_infinity
  · exact unsigned_meanError threshold pairs

end EvalStats

/-- The fitness of a candidate that comes out of an evaluation has no minus sign. -/
theorem Individual.unsigned_fitness_evaluate (dataset : Dataset Float) (threshold : Float)
    (individual : Individual Float) (stack : Machine.Stack Float) :
    Number.Unsigned (individual.evaluate dataset threshold stack).1.fitness := by
  unfold evaluate
  split
  · exact EvalStats.unsigned_infinity
  · exact EvalStats.unsigned_fitness threshold _

end CorpusCost
