import CorpusCost.Cost.Slot
import CorpusCost.Number.Scalar

/-!
# Weight vectors

One value for each slot of the cost model. A list of values is a weight vector only if it has
exactly as many values as there are slots.
-/

set_option autoImplicit false

namespace CorpusCost

/-- Why a query has no cost program, or a list of values is no weight vector. -/
inductive CostError where
  /-- Nothing in the query costs anything. -/
  | emptyQuery
  /-- A list has `found` values where one for each of `expected` slots is needed. -/
  | wrongDimension (expected found : Nat)
  deriving DecidableEq, Repr

/-- One value for each slot. -/
structure Weights (α : Type) where
  /-- The values, in the order of the slots. -/
  values : Vector α Slot.count

namespace Weights

variable {α : Type}

/-- The same value for every slot. -/
def uniform (value : α) : Weights α := ⟨Vector.replicate Slot.count value⟩

/-- The weight vector with the given values. -/
def ofList (values : List α) : Except CostError (Weights α) :=
  if h : values.length = Slot.count then .ok ⟨⟨values.toArray, by simpa using h⟩⟩
  else .error (.wrongDimension Slot.count values.length)

/-- The values in the order of the slots. -/
def toList (weights : Weights α) : List α := weights.values.toList

/-- The value of a slot. -/
def get (weights : Weights α) (slot : Slot) : α := weights.values[slot.index]

/-- The weight vector with the value of one slot replaced. -/
def set (weights : Weights α) (slot : Slot) (value : α) : Weights α :=
  ⟨weights.values.set slot.index.val value slot.index.isLt⟩

/-- All ones. -/
def ones [Scalar α] : Weights α := uniform Scalar.one

/-- Each slot with its value. -/
def named (weights : Weights α) : List (Slot × α) :=
  Slot.all.map fun slot => (slot, weights.get slot)

@[simp] theorem length_toList (weights : Weights α) : weights.toList.length = Slot.count := by
  simp [toList]

@[simp] theorem get_uniform (value : α) (slot : Slot) : (uniform value).get slot = value := by
  simp [uniform, get]

theorem get_set (weights : Weights α) (slot other : Slot) (value : α) :
    (weights.set slot value).get other = if slot = other then value else weights.get other := by
  by_cases h : slot = other
  · subst h
    simp [get, set]
  · have hne : slot.index.val ≠ other.index.val :=
      fun e => h (Slot.index_injective (Fin.ext e))
    simp [get, set, h, Vector.getElem_set_ne _ _ hne]

theorem ofList_toList (weights : Weights α) : ofList weights.toList = .ok weights := by
  obtain ⟨⟨values, h⟩⟩ := weights
  simp [ofList, toList, h]

end Weights

end CorpusCost
