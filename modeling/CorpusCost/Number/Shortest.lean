import CorpusCost.Number.Binary
import CorpusCost.Number.Rounding

/-!
# Shortest decimals

The decimal with the fewest digits that reads back as a given double, and of those the nearest to
it. Everything is compared exactly. The reals that read back as `m * 2 ^ q` lie between the points
halfway to its neighbours; the ends belong to them exactly when `m` is even.
-/

set_option autoImplicit false

namespace CorpusCost.Number

/-- The value `digits * 10 ^ exponent`. -/
structure Decimal where
  /-- The digits, as a natural number. -/
  digits : Nat
  /-- The power of ten. -/
  exponent : Int
  deriving DecidableEq, Repr

/-- How `a * 10 ^ i` compares with `b * 2 ^ j`. -/
def compareScaled (a : Nat) (i : Int) (b : Nat) (j : Int) : Ordering :=
  compare ((a * Nat.pow 10 i.toNat) <<< (-j).toNat) ((b * Nat.pow 10 (-i).toNat) <<< j.toNat)

/-- Whether a decimal reads back as `x`. -/
def Binary.readsBack (x : Binary) (d : Decimal) : Bool :=
  let lower := if x.narrowBelow then 4 * x.m - 1 else 4 * x.m - 2
  let upper := 4 * x.m + 2
  let even := x.m % 2 == 0
  let belowOk :=
    match compareScaled d.digits d.exponent lower (x.q - 2) with
    | .gt => true
    | .eq => even
    | .lt => false
  let aboveOk :=
    match compareScaled d.digits d.exponent upper (x.q - 2) with
    | .lt => true
    | .eq => even
    | .gt => false
  belowOk && aboveOk

/-- The number of decimal digits of a natural number. -/
def digitCount (n : Nat) : Nat := (Nat.toDigits 10 n).length

/-- The least power of ten above `num / den`, for a positive quotient. -/
def magnitude (num den : Nat) : Int :=
  if den ≤ num then digitCount (num / den)
  else 1 - (digitCount ((den - 1) / num) : Int)

/-- The multiples of `10 ^ exponent` next to `x`, the nearer one first. -/
def Binary.neighbours (x : Binary) (exponent : Int) (tie : Tie) : List Decimal :=
  let (num, den) := x.quotient
  let num := num * Nat.pow 10 (-exponent).toNat
  let den := den * Nat.pow 10 exponent.toNat
  let floor := num / den
  if roundDiv num den tie = floor then [⟨floor, exponent⟩, ⟨floor + 1, exponent⟩]
  else [⟨floor + 1, exponent⟩, ⟨floor, exponent⟩]

/-- The same value without trailing zeros. At most `fuel` zeros are taken off. -/
def Decimal.stripped (fuel : Nat) (d : Decimal) : Decimal :=
  match fuel with
  | 0 => d
  | fuel + 1 =>
    if d.digits ≠ 0 ∧ d.digits % 10 = 0 then stripped fuel ⟨d.digits / 10, d.exponent + 1⟩ else d

/-- The exact value of `x` as a decimal. -/
def Binary.exact (x : Binary) : Decimal :=
  ⟨(x.m <<< x.q.toNat) * Nat.pow 5 (-x.q).toNat, -((-x.q).toNat : Int)⟩

/-- The decimal with the fewest digits that reads back as `x`, the nearest of those. Seventeen
digits are tried; failing that, it is the exact value. -/
def Binary.shortest (x : Binary) (tie : Tie) : Decimal :=
  if x.m = 0 then ⟨0, 0⟩
  else
    let (num, den) := x.quotient
    let top := magnitude num den
    let found := (List.range 17).findSome? fun n =>
      (x.neighbours (top - ((n + 1 : Nat) : Int)) tie).find? x.readsBack
    (found.getD x.exact).stripped 400

end CorpusCost.Number
