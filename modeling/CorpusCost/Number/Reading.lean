import CorpusCost.Number.Binary

/-!
# Numbers from text

The double nearest to a decimal, and the decimal forms that durations and command lines use.
-/

set_option autoImplicit false

namespace CorpusCost.Number

/-- The value of a row of decimal digits. -/
def digitsValue (digits : List Char) : Nat :=
  digits.foldl (fun n d => 10 * n + (d.toNat - '0'.toNat)) 0

/-- The double nearest to `digits * 10 ^ exponent`. Values far beyond the range of doubles are
decided by their magnitude alone. -/
def nearest (digits : Nat) (exponent : Int) : Float :=
  if digits = 0 then 0.0
  else
    let lead := exponent + ((Nat.toDigits 10 digits).length : Int)
    if 310 < lead then 1.0 / 0.0
    else if lead < -330 then 0.0
    else Float.ofScientific digits (decide (exponent < 0)) exponent.natAbs

/-- A decimal number in parts: the digits before and after its point, and its exponent. -/
structure Numeral where
  /-- Whether the number is below zero. -/
  negative : Bool
  /-- The digits before the point. -/
  whole : List Char
  /-- The digits after the point. -/
  fraction : List Char
  /-- The exponent. -/
  exponent : Int
  deriving DecidableEq, Repr

/-- The double nearest to a number. -/
def Numeral.value (n : Numeral) : Float :=
  let magnitude :=
    nearest (digitsValue (n.whole ++ n.fraction)) (n.exponent - (n.fraction.length : Int))
  if n.negative then -magnitude else magnitude

/-- A sign, if one is there: whether it is `-`, and what follows it. -/
def splitSign : List Char → Bool × List Char
  | '-' :: rest => (true, rest)
  | '+' :: rest => (false, rest)
  | cs => (false, cs)

/-- An exponent: a sign and at least one digit, and nothing else. -/
def exponent? (cs : List Char) : Option Int :=
  let (negative, digits) := splitSign cs
  if digits ≠ [] ∧ digits.all Char.isDigit then
    some (if negative then -(digitsValue digits : Int) else (digitsValue digits : Int))
  else none

/-- The words for infinities and for what is not a number, in lower case. -/
def special? (cs : List Char) : Option Float :=
  let word := String.ofList (cs.map Char.toLower)
  if word = "inf" ∨ word = "infinity" then some (1.0 / 0.0)
  else if word = "nan" then some (0.0 / 0.0)
  else none

/-- A number without its sign: digits with an optional point among or around them, and an optional
exponent. -/
def unsigned? (negative : Bool) (cs : List Char) : Option Numeral :=
  let whole := cs.takeWhile Char.isDigit
  let rest := cs.dropWhile Char.isDigit
  let (fraction, rest) :=
    match rest with
    | '.' :: rest => (rest.takeWhile Char.isDigit, rest.dropWhile Char.isDigit)
    | rest => ([], rest)
  if whole = [] ∧ fraction = [] then none
  else
    match rest with
    | [] => some ⟨negative, whole, fraction, 0⟩
    | c :: rest =>
      if c = 'e' ∨ c = 'E' then (exponent? rest).map fun exponent =>
        ⟨negative, whole, fraction, exponent⟩
      else none

/-- The double that a text stands for: an optional sign, then a decimal number or the word for an
infinity or for what is not a number, in any case. -/
def float? (text : String) : Option Float :=
  let (negative, cs) := splitSign text.toList
  match special? cs with
  | some x => some (if negative then -x else x)
  | none => (unsigned? negative cs).map Numeral.value

end CorpusCost.Number
