import CorpusCost.Number.Shortest

/-!
# Numbers as text

Doubles are written in two ways: with the fewest digits that read back, laid out as a record of
decisions says, or with a fixed number of decimal places, rounded from the exact value with ties to
the even neighbour.
-/

set_option autoImplicit false

namespace CorpusCost.Number

/-- How a shortest decimal is laid out. -/
structure Layout where
  /-- The powers of ten of the first digit that are written without an exponent; all when
  `none`. -/
  plain : Option (Int × Int)
  /-- Whether a whole number written without an exponent ends in `.0`. -/
  pointZero : Bool
  /-- Where a value goes that lies halfway between two equally short decimals. -/
  tie : Tie
  /-- The text of what is not a number. -/
  nan : String
  /-- The text of the positive infinity. -/
  positiveInfinity : String
  /-- The text of the negative infinity. -/
  negativeInfinity : String
  deriving Repr

/-- The decimal digits of `n`. -/
def digitsOf (n : Nat) : List Char := Nat.toDigits 10 n

/-- `count` zeros. -/
def zeros (count : Nat) : List Char := List.replicate count '0'

/-- A decimal without an exponent. -/
def Decimal.plain (d : Decimal) (pointZero : Bool) : List Char :=
  let digits := digitsOf d.digits
  if 0 ≤ d.exponent then
    digits ++ (if d.digits = 0 then [] else zeros d.exponent.toNat) ++
      if pointZero then ['.', '0'] else []
  else
    let places := (-d.exponent).toNat
    if places < digits.length then
      digits.take (digits.length - places) ++ '.' :: digits.drop (digits.length - places)
    else '0' :: '.' :: zeros (places - digits.length) ++ digits

/-- A decimal as its first digit, a point where more digits follow, and a signed exponent. -/
def Decimal.scientific (d : Decimal) (lead : Int) : List Char :=
  let digits := digitsOf d.digits
  digits.take 1 ++ (if 1 < digits.length then '.' :: digits.drop 1 else []) ++
    'e' :: (if lead < 0 then '-' else '+') :: digitsOf lead.natAbs

/-- The power of ten of the first digit. -/
def Decimal.lead (d : Decimal) : Int := d.exponent + ((digitsOf d.digits).length : Int) - 1

/-- A finite value without its sign. -/
def Layout.magnitude (layout : Layout) (value : Binary) : List Char :=
  let d := value.shortest layout.tie
  match layout.plain with
  | none => d.plain layout.pointZero
  | some (first, last) =>
    if first ≤ d.lead ∧ d.lead ≤ last then d.plain layout.pointZero else d.scientific d.lead

/-- A double with the fewest digits that read back. -/
def Layout.text (layout : Layout) (x : Float) : String :=
  let bits := x.toBits
  match classify bits with
  | .nan => layout.nan
  | .infinite => if isNegative bits then layout.negativeInfinity else layout.positiveInfinity
  | .finite value =>
    String.ofList <| (if isNegative bits then ['-'] else []) ++ layout.magnitude value

/-- A double with exactly `places` decimal places; there is at least one. -/
def fixed (places : Nat) (x : Float) : String :=
  let bits := x.toBits
  match classify bits with
  | .nan => "NaN"
  | .infinite => if isNegative bits then "-inf" else "inf"
  | .finite value =>
    let (num, den) := value.quotient
    let scale := Nat.pow 10 places
    let units := roundDiv (num * scale) den .toEven
    let fraction := digitsOf (units % scale)
    String.ofList <| (if isNegative bits then ['-'] else []) ++ digitsOf (units / scale) ++
      '.' :: zeros (places - fraction.length) ++ fraction

end CorpusCost.Number
