import Mathlib.Algebra.BigOperators.Group.List.Basic
import Mathlib.Algebra.Order.Group.Unbundled.Abs
import Mathlib.Algebra.Order.Ring.Rat
import CorpusCost.Fit.Stats

/-!
# Each pair counts once

A pair of a predicted and an observed value has one of four verdicts. Three of them are counted
while the pairs are gone through, and at every place the counts are those of the verdicts so far
(`Tally.Counts.add`). The fourth is what is left of all pairs, and since each pair has one verdict
this is exactly how often the fourth occurs. Nothing but the verdicts is counted, so the counts of a
list do not depend on its order, and those of two lists add up. This holds of every kind of number:
a value that is not a number lies above no threshold.

Over the rationals the distances can be added up in any order too, so the mean error is the mean of
the absolute errors.
-/

set_option autoImplicit false

namespace CorpusCost.EvalStats

/-- How a prediction turns out. -/
inductive Verdict where
  /-- Both values lie above the threshold. -/
  | truePositive
  /-- Only the predicted value lies above the threshold. -/
  | falsePositive
  /-- Only the observed value lies above the threshold. -/
  | falseNegative
  /-- Neither value lies above the threshold. -/
  | trueNegative
  deriving DecidableEq, Repr

namespace Verdict

variable {α : Type} [Scalar α]

/-- The verdict of a pair of a predicted and an observed value. -/
def ofPair (threshold : α) (pair : α × α) : Verdict :=
  if threshold < pair.1 then
    if threshold < pair.2 then .truePositive else .falsePositive
  else
    if threshold < pair.2 then .falseNegative else .trueNegative

theorem ofPair_eq_trueNegative {threshold : α} {pair : α × α} :
    ofPair threshold pair = .trueNegative ↔ ¬threshold < pair.1 ∧ ¬threshold < pair.2 := by
  unfold ofPair
  split <;> split <;> simp_all

/-- There is no fifth verdict. -/
theorem sum_count (verdicts : List Verdict) :
    verdicts.count .truePositive + verdicts.count .falsePositive +
      verdicts.count .falseNegative + verdicts.count .trueNegative = verdicts.length := by
  induction verdicts with
  | nil => rfl
  | cons verdict verdicts ih =>
    cases verdict <;> simp only [List.count_cons, List.length_cons, beq_iff_eq, reduceCtorEq,
      if_true, if_false] <;> omega

end Verdict

/-! ## Counts -/

section

variable {α : Type} [Scalar α]

omit [Scalar α] in
/-- How many pairs have a verdict. -/
def count (stats : EvalStats α) : Verdict → Nat
  | .truePositive => stats.truePositives
  | .falsePositive => stats.falsePositives
  | .falseNegative => stats.falseNegatives
  | .trueNegative => stats.trueNegatives

/-- Counts so far, by the verdicts so far. -/
structure Tally.Counts (tally : Tally α) (verdicts : List Verdict) : Prop where
  /-- The pairs with both values above the threshold. -/
  truePositives : tally.truePositives = verdicts.count .truePositive
  /-- The pairs with only the predicted value above the threshold. -/
  falsePositives : tally.falsePositives = verdicts.count .falsePositive
  /-- The pairs with only the observed value above the threshold. -/
  falseNegatives : tally.falseNegatives = verdicts.count .falseNegative
  /-- All pairs. -/
  total : tally.total = verdicts.length

theorem Tally.counts_empty : (Tally.empty : Tally α).Counts [] := ⟨rfl, rfl, rfl, rfl⟩

/-- One more pair counts as its verdict. -/
theorem Tally.Counts.add {tally : Tally α} {verdicts : List Verdict} (h : tally.Counts verdicts)
    (threshold : α) (pair : α × α) :
    (tally.add threshold pair).Counts (verdicts ++ [.ofPair threshold pair]) := by
  obtain ⟨htruePositives, hfalsePositives, hfalseNegatives, htotal⟩ := h
  by_cases hslow : threshold < pair.1 <;> by_cases hwasSlow : threshold < pair.2 <;>
    constructor <;>
    simp [Tally.add, Verdict.ofPair, List.count_append, hslow, hwasSlow, htruePositives,
      hfalsePositives, hfalseNegatives, htotal]

theorem Tally.Counts.foldl {tally : Tally α} {verdicts : List Verdict} (h : tally.Counts verdicts)
    (threshold : α) (pairs : List (α × α)) :
    (pairs.foldl (Tally.add threshold) tally).Counts
      (verdicts ++ pairs.map (Verdict.ofPair threshold)) := by
  induction pairs generalizing tally verdicts with
  | nil => simpa using h
  | cons pair pairs ih => simpa using ih (h.add threshold pair)

theorem counts_foldl (threshold : α) (pairs : List (α × α)) :
    (pairs.foldl (Tally.add threshold) Tally.empty).Counts
      (pairs.map (Verdict.ofPair threshold)) :=
  Tally.counts_empty.foldl threshold pairs

/-- Each pair is counted once. -/
theorem total_ofPredictions (threshold : α) (pairs : List (α × α)) :
    (ofPredictions threshold pairs).total = pairs.length :=
  (counts_foldl threshold pairs).total.trans (List.length_map _)

/-- What is counted is how often a verdict occurs. -/
theorem count_ofPredictions (threshold : α) (pairs : List (α × α)) (verdict : Verdict) :
    (ofPredictions threshold pairs).count verdict =
      (pairs.map (Verdict.ofPair threshold)).count verdict := by
  obtain ⟨htruePositives, hfalsePositives, hfalseNegatives, htotal⟩ := counts_foldl threshold pairs
  cases verdict with
  | truePositive => exact htruePositives
  | falsePositive => exact hfalsePositives
  | falseNegative => exact hfalseNegatives
  | trueNegative =>
    -- The last verdict is not counted: it is what the other three leave of all pairs.
    have hsum := Verdict.sum_count (pairs.map (Verdict.ofPair threshold))
    show Tally.total _ - Tally.truePositives _ - Tally.falsePositives _ -
      Tally.falseNegatives _ = _
    omega

/-- The four counts make up all pairs. -/
theorem sum_ofPredictions (threshold : α) (pairs : List (α × α)) :
    (ofPredictions threshold pairs).truePositives +
      (ofPredictions threshold pairs).falsePositives +
      (ofPredictions threshold pairs).falseNegatives +
      (ofPredictions threshold pairs).trueNegatives = (ofPredictions threshold pairs).total := by
  have hsum := Verdict.sum_count (pairs.map (Verdict.ofPair threshold))
  simp only [← count_ofPredictions threshold pairs] at hsum
  rw [List.length_map, ← total_ofPredictions threshold pairs] at hsum
  exact hsum

/-- The pairs counted while they are gone through are no more than all pairs. -/
theorem counted_le_total (threshold : α) (pairs : List (α × α)) :
    (ofPredictions threshold pairs).truePositives +
      (ofPredictions threshold pairs).falsePositives +
      (ofPredictions threshold pairs).falseNegatives ≤
        (ofPredictions threshold pairs).total := by
  rw [← sum_ofPredictions]
  exact Nat.le_add_right _ _

theorem trueNegatives_ofPredictions (threshold : α) (pairs : List (α × α)) :
    (ofPredictions threshold pairs).trueNegatives =
      pairs.countP fun pair => ¬threshold < pair.1 ∧ ¬threshold < pair.2 := by
  have hcount := count_ofPredictions threshold pairs .trueNegative
  rw [List.count, List.countP_map] at hcount
  refine hcount.trans (List.countP_congr fun pair _ => ?_)
  simp [Verdict.ofPair_eq_trueNegative]

theorem count_perm (threshold : α) {pairs others : List (α × α)} (h : pairs.Perm others) :
    (ofPredictions threshold pairs).count = (ofPredictions threshold others).count := by
  funext verdict
  rw [count_ofPredictions, count_ofPredictions]
  exact (h.map _).count_eq verdict

theorem count_append (threshold : α) (pairs others : List (α × α)) (verdict : Verdict) :
    (ofPredictions threshold (pairs ++ others)).count verdict =
      (ofPredictions threshold pairs).count verdict +
        (ofPredictions threshold others).count verdict := by
  simp only [count_ofPredictions, List.map_append, List.count_append]

end

/-! ## The mean error over the rationals -/

theorem distance_eq_abs (x y : Rat) : Scalar.distance x y = |x - y| := by
  have hzero : (Scalar.zero : Rat) = 0 := rfl
  unfold Scalar.distance
  rw [hzero]
  split
  · rename_i hneg
    rw [abs_of_neg hneg, zero_sub]
  · rename_i hnonneg
    rw [abs_of_nonneg (not_lt.mp hnonneg)]

theorem error_foldl (threshold : Rat) (pairs : List (Rat × Rat)) (tally : Tally Rat) :
    (pairs.foldl (Tally.add threshold) tally).error =
      tally.error + (pairs.map fun pair => |pair.1 - pair.2|).sum := by
  induction pairs generalizing tally with
  | nil => simp
  | cons pair pairs ih =>
    have hadd : (tally.add threshold pair).error = tally.error + |pair.1 - pair.2| := by
      rw [← distance_eq_abs]
      rfl
    rw [List.foldl_cons, ih, hadd, List.map_cons, List.sum_cons, add_assoc]

/-- The mean error is the mean of the absolute errors; there is no error where there is no pair. -/
theorem meanError_ofPredictions (threshold : Rat) (pairs : List (Rat × Rat)) :
    (ofPredictions threshold pairs).meanError =
      (pairs.map fun pair => |pair.1 - pair.2|).sum / pairs.length := by
  have herror := error_foldl threshold pairs Tally.empty
  have htotal := (counts_foldl threshold pairs).total
  rw [List.length_map] at htotal
  have hzero : (Scalar.zero : Rat) = 0 := rfl
  have hempty : (Tally.empty : Tally Rat).error = 0 := rfl
  rw [hempty, zero_add] at herror
  unfold ofPredictions ofTally
  dsimp only
  rw [htotal, herror, hzero]
  split
  · rfl
  · rename_i hnone
    obtain rfl : pairs = [] := List.eq_nil_of_length_eq_zero (by omega)
    simp

theorem meanError_perm (threshold : Rat) {pairs others : List (Rat × Rat)}
    (h : pairs.Perm others) :
    (ofPredictions threshold pairs).meanError = (ofPredictions threshold others).meanError := by
  rw [meanError_ofPredictions, meanError_ofPredictions, h.length_eq, (h.map _).sum_eq]

/-! ## Partition -/

/-- For every kind of number: the pairs counted while they are gone through are no more than all
pairs, so that the rest is never short; with the rest they make up all pairs, each pair counted once
as what it is; the rest are exactly the pairs with neither value above the threshold; the counts are
the same in every order, and those of two lists add up. Over the rationals the mean error is the
mean of the absolute errors of the list, and the same in every order. -/
theorem ofPredictions_partition :
    (∀ (α : Type) [Scalar α] (threshold : α) (pairs others : List (α × α)),
      let stats := ofPredictions threshold pairs
      stats.truePositives + stats.falsePositives + stats.falseNegatives ≤ stats.total ∧
        stats.truePositives + stats.falsePositives + stats.falseNegatives +
          stats.trueNegatives = stats.total ∧
        stats.total = pairs.length ∧
        (∀ verdict, stats.count verdict =
          (pairs.map (Verdict.ofPair threshold)).count verdict) ∧
        stats.trueNegatives =
          (pairs.countP fun pair => ¬threshold < pair.1 ∧ ¬threshold < pair.2) ∧
        (pairs.Perm others → stats.count = (ofPredictions threshold others).count ∧
          stats.total = (ofPredictions threshold others).total) ∧
        (∀ verdict, (ofPredictions threshold (pairs ++ others)).count verdict =
          stats.count verdict + (ofPredictions threshold others).count verdict) ∧
        (ofPredictions threshold (pairs ++ others)).total =
          stats.total + (ofPredictions threshold others).total) ∧
    ∀ (threshold : Rat) (pairs others : List (Rat × Rat)),
      (ofPredictions threshold pairs).meanError =
        (pairs.map fun pair => |pair.1 - pair.2|).sum / pairs.length ∧
      (pairs.Perm others →
        (ofPredictions threshold pairs).meanError =
          (ofPredictions threshold others).meanError) := by
  constructor
  · intro α _ threshold pairs others stats
    refine ⟨counted_le_total threshold pairs, sum_ofPredictions threshold pairs,
      total_ofPredictions threshold pairs, count_ofPredictions threshold pairs,
      trueNegatives_ofPredictions threshold pairs, ?_, count_append threshold pairs others, ?_⟩
    · intro hperm
      refine ⟨count_perm threshold hperm, ?_⟩
      rw [total_ofPredictions, total_ofPredictions, hperm.length_eq]
    · rw [total_ofPredictions, total_ofPredictions, total_ofPredictions, List.length_append]
  · intro threshold pairs others
    exact ⟨meanError_ofPredictions threshold pairs, meanError_perm threshold⟩

/-- Two queries that are slow and not predicted as slow, one of them without a predicted time, and
one that neither time is known of, in two orders. -/
theorem ofPredictions_partition_unknown :
    let unknown : Float := 0.0 / 0.0
    let pairs : List (Float × Float) := [(unknown, 2.0), (0.5, 3.0), (unknown, unknown)]
    pairs.Perm pairs.reverse ∧
      (ofPredictions 1.0 pairs).count .falseNegative = 2 ∧
      (ofPredictions 1.0 pairs).count .trueNegative = 1 ∧
      (ofPredictions 1.0 pairs).count = (ofPredictions 1.0 pairs.reverse).count ∧
      [((1 : Rat), (3 : Rat)), (2, 1)].Perm [(2, 1), (1, 3)] ∧
      (ofPredictions (1 : Rat) [(1, 3), (2, 1)]).meanError =
        (ofPredictions (1 : Rat) [(2, 1), (1, 3)]).meanError := by
  intro unknown pairs
  have hperm : pairs.Perm pairs.reverse := (List.reverse_perm pairs).symm
  have hswap : [((1 : Rat), (3 : Rat)), (2, 1)].Perm [(2, 1), (1, 3)] := List.Perm.swap _ _ _
  obtain ⟨-, -, -, -, -, hcounts, -⟩ := ofPredictions_partition.1 Float 1.0 pairs pairs.reverse
  exact ⟨hperm, by decide, by decide, (hcounts hperm).1, hswap,
    (ofPredictions_partition.2 1 _ _).2 hswap⟩

end CorpusCost.EvalStats
