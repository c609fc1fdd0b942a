import CorpusCost.Fit.Dataset
import CorpusCost.Proofs.CompilerCorrectness
import CorpusCost.Proofs.ConfusionCounts
import CorpusCost.Score

/-!
# Samples have a score under all weights

A sample is kept when its query has a cost program under the weights that are all one. Whether a
query has a program does not depend on the weights (`compile_eq_fill`), and a run clears the stack
before it starts. So every sample has the score that its text has, under any weights and on any
machine, and an evaluation leaves no sample out.
-/

set_option autoImplicit false

namespace CorpusCost

open Machine

/-! ## Scores -/

/-- A query with a cost has it as its score. -/
theorem Query.score_of_cost {query : Query} {weights : Weights Float} {value : Float}
    (hcost : query.outline.cost weights = some value) : query.score weights = .ok value := by
  obtain ⟨program, hcompile, hpush⟩ := compile_of_cost_eq_some hcost
  have hexecute : execute program [] = (.ok (), [value]) := (hpush []).executeFrom_eq 0
  simp [score, hcompile, Machine.value, run, hexecute, peek]

theorem Query.scoreText_of_cost {text : String} {query : Query} {weights : Weights Float}
    {value : Float} (hparse : parse text = .ok query)
    (hcost : query.outline.cost weights = some value) : scoreText text weights = .ok value := by
  have hread : Query.read text = .ok query := by
    unfold Query.read
    rw [hparse]
  unfold scoreText
  simp only [hread, score_of_cost hcost]

namespace Sample

variable {α : Type} [Scalar α]

/-- The stack that earlier runs have left does not matter: the score is the cost. -/
theorem score?_of_cost {sample : Sample α} {weights : Weights α} {value : α}
    (hcost : sample.query.outline.cost weights = some value) (stack : Stack α) :
    sample.score? weights stack = (some value, [value]) := by
  obtain ⟨program, hcompile, hpush⟩ := Query.compile_of_cost_eq_some hcost
  have hexecute : execute program [] = (.ok (), [value]) := (hpush []).executeFrom_eq 0
  simp [score?, hcompile, run, hexecute, peek]

/-- A sample that is kept holds the query of its text, and the query has a template. -/
theorem prepare?_eq_some {text : String} {seconds : α} {sample : Sample α}
    (hprepare : prepare? text seconds = some sample) :
    Query.parse sample.text = .ok sample.query ∧
      sample.query.outline.template?.isSome = true := by
  unfold prepare? at hprepare
  cases hparse : Query.parse text with
  | error error => simp [hparse] at hprepare
  | ok query =>
    simp only [hparse, query.compile_eq_fill] at hprepare
    cases htemplate : query.outline.template? with
    | none => simp [htemplate] at hprepare
    | some template =>
      obtain rfl : (⟨text, query, seconds⟩ : Sample α) = sample := by
        simpa [htemplate] using hprepare
      exact ⟨hparse, by rw [htemplate]; rfl⟩

/-- A sample with a template has a cost under all weights. -/
theorem exists_cost {sample : Sample α} (htemplate : sample.query.outline.template?.isSome = true)
    (weights : Weights α) : ∃ value, sample.query.outline.cost weights = some value := by
  rw [← Outline.isSome_cost _ weights] at htemplate
  exact Option.isSome_iff_exists.mp htemplate

end Sample

namespace Dataset

section

variable {α : Type} [Scalar α]

/-- Every sample of a dataset holds the query of its text, and the query has a template. -/
theorem prepared_of_mem {pairs : List (String × α)} {sample : Sample α}
    (hsample : sample ∈ (ofPairs pairs).samples) :
    Query.parse sample.text = .ok sample.query ∧
      sample.query.outline.template?.isSome = true := by
  obtain ⟨⟨text, seconds⟩, -, hprepare⟩ := List.mem_filterMap.mp hsample
  exact Sample.prepare?_eq_some hprepare

/-- No sample with a template is left out of the predictions. -/
theorem length_predictions (weights : Weights α) {samples : List (Sample α)}
    (htemplates : ∀ sample ∈ samples, sample.query.outline.template?.isSome = true)
    (stack : Stack α) : (predictions weights samples stack).1.length = samples.length := by
  induction samples generalizing stack with
  | nil => rfl
  | cons sample samples ih =>
    obtain ⟨value, hcost⟩ := Sample.exists_cost (htemplates sample (by simp)) weights
    have hrest := ih (fun other hother => htemplates other (by simp [hother])) [value]
    simp [predictions, Sample.score?_of_cost hcost, hrest]

end

/-- Every sample of a dataset has one score under given weights, on any machine and by its text. -/
theorem exists_score {pairs : List (String × Float)} {sample : Sample Float}
    (hsample : sample ∈ (ofPairs pairs).samples) (weights : Weights Float) :
    ∃ value, Query.scoreText sample.text weights = .ok value ∧
      ∀ stack, sample.score? weights stack = (some value, [value]) := by
  obtain ⟨hparse, htemplate⟩ := prepared_of_mem hsample
  obtain ⟨value, hcost⟩ := Sample.exists_cost htemplate weights
  exact ⟨value, Query.scoreText_of_cost hparse hcost, Sample.score?_of_cost hcost⟩

/-- Where every sample has a score, the predictions are the scores beside the seconds. -/
theorem predictions_eq_zip (weights : Weights Float) (samples : List (Sample Float))
    (hscores : ∀ sample ∈ samples, ∃ value, Query.scoreText sample.text weights = .ok value ∧
      ∀ stack, sample.score? weights stack = (some value, [value])) (stack : Stack Float) :
    ∃ scores : List Float,
      samples.map (fun sample => Query.scoreText sample.text weights) = scores.map .ok ∧
      (predictions weights samples stack).1 = scores.zip (samples.map Sample.seconds) := by
  induction samples generalizing stack with
  | nil => exact ⟨[], rfl, rfl⟩
  | cons sample samples ih =>
    obtain ⟨value, htext, hscore⟩ := hscores sample (by simp)
    obtain ⟨scores, htexts, hrest⟩ :=
      ih (fun other hother => hscores other (by simp [hother])) [value]
    refine ⟨value :: scores, ?_, ?_⟩
    · rw [List.map_cons, List.map_cons, htext, htexts]
    · simp [predictions, hscore stack, hrest]

end Dataset

/-! ## Evaluation -/

/-- An evaluation compares the seconds of every sample with the score of its text, in order, and
leaves no sample out, whatever the weights and whatever earlier runs have left on the stack. -/
theorem Dataset.evaluate_ofPairs (pairs : List (String × Float)) (weights : Weights Float)
    (threshold : Float) (stack : Stack Float) :
    let dataset := Dataset.ofPairs pairs
    ∃ scores : List Float,
      dataset.samples.map (fun sample => Query.scoreText sample.text weights) =
          scores.map .ok ∧
      (dataset.evaluate weights threshold stack).1 =
          EvalStats.ofPredictions threshold (scores.zip (dataset.samples.map Sample.seconds)) ∧
      (dataset.evaluate weights threshold stack).1.total = dataset.size := by
  intro dataset
  obtain ⟨scores, htexts, hpredictions⟩ := predictions_eq_zip weights dataset.samples
    (fun sample hsample => exists_score hsample weights) stack
  have hevaluate : (dataset.evaluate weights threshold stack).1 =
      EvalStats.ofPredictions threshold (scores.zip (dataset.samples.map Sample.seconds)) := by
    rw [← hpredictions]
    rfl
  have hlength : dataset.samples.length = scores.length := by
    simpa using congrArg List.length htexts
  refine ⟨scores, htexts, hevaluate, ?_⟩
  rw [hevaluate, EvalStats.total_ofPredictions, List.length_zip, List.length_map, hlength,
    Nat.min_self, Dataset.size, hlength]

end CorpusCost
