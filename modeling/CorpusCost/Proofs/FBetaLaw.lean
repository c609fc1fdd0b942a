import Mathlib.Algebra.Order.Field.Rat
import Mathlib.Tactic.FieldSimp
import Mathlib.Tactic.Linarith
import Mathlib.Tactic.Positivity
import Mathlib.Tactic.Ring
import CorpusCost.Fit.Stats

/-!
# The weighted mean of precision and recall

Over the rationals precision and recall are both the share of the true positives in themselves and
some rest: the false positives, or the false negatives. Their weighted harmonic mean is again such a
share, and its rest is a weighted mean of the two (`fBeta_eq_share`). A share grows with what it is
of and falls with the rest, so everything about the mean follows from where its rest lies.
-/

set_option autoImplicit false

namespace CorpusCost.EvalStats

/-! ## Shares -/

/-- The share of a number in itself and a rest; zero of nothing. -/
def share (count rest : Rat) : Rat := count / (count + rest)

theorem share_zero_left (rest : Rat) : share 0 rest = 0 := zero_div _

theorem share_nonneg {count rest : Rat} (hcount : 0 ≤ count) (hrest : 0 ≤ rest) :
    0 ≤ share count rest :=
  div_nonneg hcount (add_nonneg hcount hrest)

theorem share_pos {count rest : Rat} (hcount : 0 < count) (hrest : 0 ≤ rest) :
    0 < share count rest :=
  div_pos hcount (add_pos_of_pos_of_nonneg hcount hrest)

theorem share_le_one {count rest : Rat} (hcount : 0 ≤ count) (hrest : 0 ≤ rest) :
    share count rest ≤ 1 :=
  div_le_one_of_le₀ (le_add_of_nonneg_right hrest) (add_nonneg hcount hrest)

theorem share_eq_zero_iff {count rest : Rat} (hcount : 0 ≤ count) (hrest : 0 ≤ rest) :
    share count rest = 0 ↔ count = 0 := by
  rw [share, div_eq_zero_iff]
  constructor
  · rintro (hzero | hzero)
    · exact hzero
    · linarith
  · exact .inl

/-- A share grows with what it is of and falls with the rest. -/
theorem share_le_share {count rest more less : Rat} (hcount : 0 ≤ count) (hless : 0 ≤ less)
    (hmore : count ≤ more) (hrest : less ≤ rest) : share count rest ≤ share more less := by
  rcases hcount.eq_or_lt with rfl | hpos
  · rw [share_zero_left]
    exact share_nonneg hmore hless
  · have hwhole : 0 < count + rest := by linarith
    have hmorePos : 0 < more := hpos.trans_le hmore
    have hother : 0 < more + less := by linarith
    rw [share, share, div_le_div_iff₀ hwhole hother]
    calc count * (more + less) = count * more + count * less := by ring
      _ ≤ count * more + more * rest := by gcongr
      _ = more * (count + rest) := by ring

/-! ## The mean of two rests -/

/-- The mean of two numbers, the first of which counts `weight` times. -/
def weightedMean (weight x y : Rat) : Rat := (weight * x + y) / (1 + weight)

theorem weightedMean_mono {weight x y z w : Rat} (hweight : 0 ≤ weight) (hx : x ≤ z)
    (hy : y ≤ w) : weightedMean weight x y ≤ weightedMean weight z w := by
  unfold weightedMean
  gcongr

theorem weightedMean_self {weight : Rat} (hweight : 0 ≤ weight) (x : Rat) :
    weightedMean weight x x = x := by
  have hsum : 1 + weight ≠ 0 := by linarith
  rw [weightedMean, div_eq_iff hsum]
  ring

theorem weightedMean_nonneg {weight x y : Rat} (hweight : 0 ≤ weight) (hx : 0 ≤ x)
    (hy : 0 ≤ y) : 0 ≤ weightedMean weight x y := by
  unfold weightedMean
  positivity

/-! ## Precision and recall -/

variable (stats : EvalStats Rat)

theorem ratio_eq_share (count rest : Nat) :
    (ratio count (count + rest) : Rat) = share count rest := by
  have hzero : (Scalar.zero : Rat) = 0 := rfl
  unfold ratio share
  rw [hzero]
  split
  · rename_i hnone
    obtain rfl : count = 0 := by omega
    simp
  · push_cast
    rfl

theorem precision_eq_share : stats.precision = share stats.truePositives stats.falsePositives :=
  ratio_eq_share _ _

theorem sensitivity_eq_share :
    stats.sensitivity = share stats.truePositives stats.falseNegatives :=
  ratio_eq_share _ _

/-- The weighted harmonic mean of two shares of one number is its share with the weighted mean of
their rests. -/
theorem harmonicMean_share {weight count x y : Rat} (hweight : 0 < weight) (hcount : 0 < count)
    (hx : 0 ≤ x) (hy : 0 ≤ y) :
    (1 + weight) * share count x * share count y / (weight * share count x + share count y) =
      share count (weightedMean weight y x) := by
  have hdenominator : weight * share count x + share count y =
      (1 + weight) * count * (count + weightedMean weight y x) / ((count + x) * (count + y)) := by
    unfold share weightedMean
    field_simp
    ring
  have hmean : 0 ≤ weightedMean weight y x := weightedMean_nonneg hweight.le hy hx
  rw [hdenominator]
  unfold share
  field_simp

/-- The mean of precision and recall is a share too. -/
theorem fBeta_eq_share {beta : Rat} (hbeta : 0 < beta) :
    stats.fBeta beta =
      share stats.truePositives
        (weightedMean (beta ^ 2) stats.falseNegatives stats.falsePositives) := by
  -- Whether the denominator is zero is asked by two comparisons.
  have hbranches : stats.fBeta beta =
      if beta * beta * stats.precision + stats.sensitivity ≤ 0 ∧
          0 ≤ beta * beta * stats.precision + stats.sensitivity then 0
      else (1 + beta * beta) * stats.precision * stats.sensitivity /
        (beta * beta * stats.precision + stats.sensitivity) := rfl
  rw [hbranches, ← pow_two, precision_eq_share, sensitivity_eq_share]
  rcases Nat.eq_zero_or_pos stats.truePositives with hnone | hsome
  · simp [hnone, share_zero_left]
  · have hcount : (0 : Rat) < stats.truePositives := by exact_mod_cast hsome
    have hprecision : 0 < share stats.truePositives stats.falsePositives :=
      share_pos hcount (Nat.cast_nonneg _)
    have hsensitivity : 0 < share stats.truePositives stats.falseNegatives :=
      share_pos hcount (Nat.cast_nonneg _)
    rw [if_neg (fun h => (not_le.mpr (by positivity)) h.1)]
    exact harmonicMean_share (by positivity) hcount (Nat.cast_nonneg _) (Nat.cast_nonneg _)

/-- A share whose rest is a weighted mean, as one quotient. -/
theorem share_weightedMean {weight : Rat} (hweight : 0 ≤ weight) (count x y : Rat) :
    share count (weightedMean weight x y) =
      (1 + weight) * count / ((1 + weight) * count + weight * x + y) := by
  have hsum : 1 + weight ≠ 0 := by positivity
  have hwhole : count + weightedMean weight x y =
      ((1 + weight) * count + weight * x + y) / (1 + weight) := by
    unfold weightedMean
    field_simp
    ring
  rw [share, hwhole, div_div_eq_mul_div, mul_comm count]

/-! ## The law -/

theorem rest_nonneg (beta : Rat) :
    0 ≤ weightedMean (beta ^ 2) stats.falseNegatives stats.falsePositives :=
  weightedMean_nonneg (by positivity) (Nat.cast_nonneg _) (Nat.cast_nonneg _)

theorem min_le_fBeta {beta : Rat} (hbeta : 0 < beta) :
    min stats.precision stats.sensitivity ≤ stats.fBeta beta := by
  have hcount : (0 : Rat) ≤ stats.truePositives := Nat.cast_nonneg _
  have hweight : 0 ≤ beta ^ 2 := by positivity
  have hrest := stats.rest_nonneg beta
  rw [fBeta_eq_share stats hbeta, precision_eq_share, sensitivity_eq_share]
  -- The rest of the mean is at most the greater of the two rests.
  rcases le_total (stats.falseNegatives : Rat) stats.falsePositives with hle | hle
  · refine (min_le_left _ _).trans (share_le_share hcount hrest le_rfl ?_)
    exact (weightedMean_mono hweight hle le_rfl).trans_eq (weightedMean_self hweight _)
  · refine (min_le_right _ _).trans (share_le_share hcount hrest le_rfl ?_)
    exact (weightedMean_mono hweight le_rfl hle).trans_eq (weightedMean_self hweight _)

theorem fBeta_le_max {beta : Rat} (hbeta : 0 < beta) :
    stats.fBeta beta ≤ max stats.precision stats.sensitivity := by
  have hcount : (0 : Rat) ≤ stats.truePositives := Nat.cast_nonneg _
  have hweight : 0 ≤ beta ^ 2 := by positivity
  rw [fBeta_eq_share stats hbeta, precision_eq_share, sensitivity_eq_share]
  -- The rest of the mean is at least the smaller of the two rests.
  rcases le_total (stats.falseNegatives : Rat) stats.falsePositives with hle | hle
  · refine (share_le_share hcount (Nat.cast_nonneg _) le_rfl ?_).trans (le_max_right _ _)
    exact (weightedMean_self hweight _).symm.trans_le (weightedMean_mono hweight le_rfl hle)
  · refine (share_le_share hcount (Nat.cast_nonneg _) le_rfl ?_).trans (le_max_left _ _)
    exact (weightedMean_self hweight _).symm.trans_le (weightedMean_mono hweight hle le_rfl)

/-- More true positives and fewer false ones of either kind never lower the mean. -/
theorem fBeta_mono {stats other : EvalStats Rat} {beta : Rat} (hbeta : 0 < beta)
    (htruePositives : stats.truePositives ≤ other.truePositives)
    (hfalsePositives : other.falsePositives ≤ stats.falsePositives)
    (hfalseNegatives : other.falseNegatives ≤ stats.falseNegatives) :
    stats.fBeta beta ≤ other.fBeta beta := by
  have hweight : 0 ≤ beta ^ 2 := by positivity
  rw [fBeta_eq_share stats hbeta, fBeta_eq_share other hbeta]
  refine share_le_share (Nat.cast_nonneg _) (other.rest_nonneg beta) ?_
    (weightedMean_mono hweight ?_ ?_)
  · exact_mod_cast htruePositives
  · exact_mod_cast hfalseNegatives
  · exact_mod_cast hfalsePositives

/-- Over the rationals, for all counts and every positive weight: the mean of precision and recall
is one quotient of the counts, where zero of nothing is zero; it lies between precision and recall,
so that it is neither negative nor above one, and it is zero exactly where there is no true
positive; it never falls when there are more true positives, and never rises when there are more
false positives or more false negatives. -/
theorem fBeta_law (stats : EvalStats Rat) {beta : Rat} (hbeta : 0 < beta) :
    stats.fBeta beta =
        (1 + beta ^ 2) * stats.truePositives /
          ((1 + beta ^ 2) * stats.truePositives + beta ^ 2 * stats.falseNegatives +
            stats.falsePositives) ∧
      min stats.precision stats.sensitivity ≤ stats.fBeta beta ∧
      stats.fBeta beta ≤ max stats.precision stats.sensitivity ∧
      0 ≤ stats.fBeta beta ∧ stats.fBeta beta ≤ 1 ∧
      (stats.fBeta beta = 0 ↔ stats.truePositives = 0) ∧
      (∀ more, stats.truePositives ≤ more →
        stats.fBeta beta ≤ { stats with truePositives := more }.fBeta beta) ∧
      (∀ more, stats.falsePositives ≤ more →
        { stats with falsePositives := more }.fBeta beta ≤ stats.fBeta beta) ∧
      (∀ more, stats.falseNegatives ≤ more →
        { stats with falseNegatives := more }.fBeta beta ≤ stats.fBeta beta) := by
  have hweight : 0 ≤ beta ^ 2 := by positivity
  have hcount : (0 : Rat) ≤ stats.truePositives := Nat.cast_nonneg _
  have hrest := stats.rest_nonneg beta
  have hshare := fBeta_eq_share stats hbeta
  refine ⟨hshare.trans (share_weightedMean hweight _ _ _), min_le_fBeta stats hbeta,
    fBeta_le_max stats hbeta, hshare ▸ share_nonneg hcount hrest,
    hshare ▸ share_le_one hcount hrest, ?_, ?_, ?_, ?_⟩
  · rw [hshare, share_eq_zero_iff hcount hrest, Nat.cast_eq_zero]
  · exact fun more hmore => fBeta_mono hbeta hmore le_rfl le_rfl
  · exact fun more hmore => fBeta_mono hbeta le_rfl hmore le_rfl
  · exact fun more hmore => fBeta_mono hbeta le_rfl le_rfl hmore

/-- All that is predicted as slow is slow, and so is as much again; recall counts twice. -/
theorem fBeta_law_recall :
    let stats : EvalStats Rat := ⟨1, 0, 1, 0, 2, 0⟩
    (0 : Rat) < 2 ∧ stats.fBeta 2 = 5 / 9 ∧ stats.falsePositives ≤ 3 ∧
      { stats with falsePositives := 3 }.fBeta 2 ≤ stats.fBeta 2 := by
  intro stats
  obtain ⟨hquotient, -, -, -, -, -, -, hfalsePositives, -⟩ :=
    fBeta_law stats (show (0 : Rat) < 2 by norm_num)
  refine ⟨by norm_num, ?_, by decide, hfalsePositives 3 (by decide)⟩
  rw [hquotient]
  norm_num [stats]

end CorpusCost.EvalStats
