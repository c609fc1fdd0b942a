import CorpusCost.Number.Binary

/-!
# Numbers that costs are computed with

The operations that programs, statistics and effects need of a number. Every definition that
computes does so over any `Scalar`: doubles when a program runs, rationals where exact values are
wanted.
-/

set_option autoImplicit false

namespace CorpusCost

/-- A kind of number with the four operations, an order, and decimal constants. -/
class Scalar (α : Type) extends
    Add α, Sub α, Mul α, Div α, NatCast α, OfScientific α, LT α, LE α where
  /-- Whether one number is below another. -/
  decidableLT : DecidableLT α
  /-- Whether one number is not above another. -/
  decidableLE : DecidableLE α
  /-- Whether a value is a finite number. -/
  isFinite : α → Bool
  /-- The whole part of a number; zero for a number below zero and for what is not a number. -/
  wholePart : α → Nat

instance Scalar.instDecidableLT {α : Type} [Scalar α] : DecidableLT α := Scalar.decidableLT

instance Scalar.instDecidableLE {α : Type} [Scalar α] : DecidableLE α := Scalar.decidableLE

instance : Scalar Float where
  natCast := Float.ofNat
  decidableLT := inferInstance
  decidableLE := inferInstance
  isFinite := Number.isFinite
  wholePart x := x.toUInt64.toNat

instance : Scalar Rat where
  decidableLT := inferInstance
  decidableLE := inferInstance
  isFinite _ := true
  wholePart x := x.floor.toNat

/-- A kind of number with an infinity and a total order, by which results are ranked. -/
class Ranked (α : Type) extends Scalar α where
  /-- Above every number. -/
  infinity : α
  /-- Whether one value does not come after another in the total order. -/
  totalLE : α → α → Bool

instance : Ranked Float where
  infinity := 1.0 / 0.0
  totalLE x y := Number.totalKey x ≤ Number.totalKey y

namespace Scalar

variable {α : Type} [Scalar α]

/-- Zero. -/
def zero : α := ((0 : Nat) : α)

/-- One. -/
def one : α := ((1 : Nat) : α)

/-- The smaller of `x` and one; one where `x` is not a number. -/
def cap (x : α) : α := if x < one then x else one

/-- One minus `x`. -/
def complement (x : α) : α := one - x

/-- How far `x` and `y` are apart. -/
def distance (x y : α) : α := if x - y < zero then zero - (x - y) else x - y

end Scalar

end CorpusCost
