import CorpusCost.File.Json
import CorpusCost.Number.Scalar

/-!
# How good predictions are

Predicted values are compared with observed ones in two ways: by their mean distance, and by
whether both lie above a threshold. The second gives precision, recall and their weighted mean.
-/

set_option autoImplicit false

namespace CorpusCost

/-- How predictions compare with observations. -/
structure EvalStats (α : Type) where
  /-- Pairs with both values above the threshold. -/
  truePositives : Nat
  /-- Pairs with only the predicted value above the threshold. -/
  falsePositives : Nat
  /-- Pairs with only the observed value above the threshold. -/
  falseNegatives : Nat
  /-- Pairs with neither value above the threshold. -/
  trueNegatives : Nat
  /-- All pairs. -/
  total : Nat
  /-- The mean distance of predicted and observed values; zero where there is no pair. -/
  meanError : α
  deriving DecidableEq, Repr

namespace EvalStats

variable {α : Type} [Scalar α]

/-- What is counted while pairs are gone through. -/
structure Tally (α : Type) where
  /-- Pairs with both values above the threshold so far. -/
  truePositives : Nat
  /-- Pairs with only the predicted value above the threshold so far. -/
  falsePositives : Nat
  /-- Pairs with only the observed value above the threshold so far. -/
  falseNegatives : Nat
  /-- All pairs so far. -/
  total : Nat
  /-- The sum of the distances so far. -/
  error : α

/-- Nothing counted yet. -/
def Tally.empty : Tally α := ⟨0, 0, 0, 0, Scalar.zero⟩

/-- Counts one pair of a predicted and an observed value. -/
def Tally.add (threshold : α) (tally : Tally α) (pair : α × α) : Tally α :=
  let slow := decide (threshold < pair.1)
  let wasSlow := decide (threshold < pair.2)
  { truePositives := tally.truePositives + (slow && wasSlow).toNat
    falsePositives := tally.falsePositives + (slow && !wasSlow).toNat
    falseNegatives := tally.falseNegatives + (!slow && wasSlow).toNat
    total := tally.total + 1
    error := tally.error + Scalar.distance pair.1 pair.2 }

/-- What a count of all pairs says; pairs counted nowhere else have no value above the
threshold. -/
def ofTally (tally : Tally α) : EvalStats α where
  truePositives := tally.truePositives
  falsePositives := tally.falsePositives
  falseNegatives := tally.falseNegatives
  trueNegatives :=
    tally.total - tally.truePositives - tally.falsePositives - tally.falseNegatives
  total := tally.total
  meanError := if 0 < tally.total then tally.error / (tally.total : α) else Scalar.zero

/-- How pairs of a predicted and an observed value compare. -/
def ofPredictions (threshold : α) (pairs : List (α × α)) : EvalStats α :=
  ofTally (pairs.foldl (Tally.add threshold) Tally.empty)

/-- No pairs at all. -/
def empty : EvalStats α := ⟨0, 0, 0, 0, 0, Scalar.zero⟩

/-- The part that `count` is of `whole`; zero of nothing. -/
def ratio (count whole : Nat) : α := if whole = 0 then Scalar.zero else (count : α) / (whole : α)

/-- The part of the predicted positives that are positives. -/
def precision (stats : EvalStats α) : α :=
  ratio stats.truePositives (stats.truePositives + stats.falsePositives)

/-- The part of the positives that are predicted: the recall. -/
def sensitivity (stats : EvalStats α) : α :=
  ratio stats.truePositives (stats.truePositives + stats.falseNegatives)

/-- The weighted harmonic mean of precision and recall, recall counting `beta` times as much; zero
where both are. -/
def fBeta (stats : EvalStats α) (beta : α) : α :=
  if (beta * beta * stats.precision + stats.sensitivity) ≤ Scalar.zero ∧
      Scalar.zero ≤ (beta * beta * stats.precision + stats.sensitivity) then
    Scalar.zero
  else
    (Scalar.one + beta * beta) * stats.precision * stats.sensitivity /
      (beta * beta * stats.precision + stats.sensitivity)

/-- What a search makes small: the mean error, or infinity where there is no pair. -/
def fitness {α : Type} [Ranked α] (stats : EvalStats α) : α :=
  if stats.total = 0 then Ranked.infinity else stats.meanError

/-! ## Text -/

/-- One line for the user. -/
def text (stats : EvalStats Float) : String :=
  "MAE: " ++ Number.fixed 4 stats.meanError ++ ", precision: " ++ Number.fixed 4 stats.precision ++
    ", recall: " ++ Number.fixed 4 stats.sensitivity ++ " (TP: " ++ toString stats.truePositives ++
    ", FP: " ++ toString stats.falsePositives ++ ", FN: " ++ toString stats.falseNegatives ++
    ", TN: " ++ toString stats.trueNegatives ++ ", total: " ++ toString stats.total ++ ")"

/-- As an object. -/
def toJson (stats : EvalStats Float) : Json :=
  .object
    [⟨"tp", .natural stats.truePositives⟩, ⟨"fp", .natural stats.falsePositives⟩,
      ⟨"fn", .natural stats.falseNegatives⟩, ⟨"tn", .natural stats.trueNegatives⟩,
      ⟨"total", .natural stats.total⟩, ⟨"mae", .number stats.meanError⟩]

end EvalStats

end CorpusCost
