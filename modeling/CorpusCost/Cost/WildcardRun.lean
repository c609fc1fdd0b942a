import CorpusCost.Number.Scalar

/-!
# Runs of wildcards

Signs for any character that stand in a row are scored together: the longer the run, the less
likely it dominates the cost of its expression.
-/

set_option autoImplicit false

namespace CorpusCost.WildcardRun

variable {α : Type} [Scalar α]

/-- The factors for runs of one, two, … signs. -/
def table : List α :=
  [1.0, 0.62, 0.39, 0.24, 0.15, 0.094, 0.058, 0.036, 0.022, 0.014, 0.0085, 0.0053]

/-- The factor for longer runs. -/
def longRun : α := 0.003

/-- The factor for a run of `length` signs; zero for none. -/
def probability (length : Nat) : α :=
  match length with
  | 0 => Scalar.zero
  | n + 1 => (table[n]?).getD longRun

end CorpusCost.WildcardRun
