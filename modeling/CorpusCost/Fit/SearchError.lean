import CorpusCost.Cost.Weights

/-!
# Failed searches

Why a search for weights has no result.
-/

set_option autoImplicit false

namespace CorpusCost

/-- Why a search for weights ends without a result. -/
inductive SearchError where
  /-- It was asked to stop. -/
  | cancelled
  /-- There is no sample to compare with. -/
  | emptyDataset
  /-- A setting has a value that makes no sense. -/
  | invalidConfig (reason : String)
  /-- The best genes are no weight vector. -/
  | weights (cause : CostError)
  deriving DecidableEq, Repr

end CorpusCost
