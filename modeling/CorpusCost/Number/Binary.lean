/-!
# Doubles as exact values

What the 64 bits of a double stand for: a sign and a natural number times a power of two, or no
finite number. Everything that is exact about a double (its digits, its place in the total order)
is computed from this.
-/

set_option autoImplicit false

namespace CorpusCost.Number

/-- The value `m * 2 ^ q` of a finite double without its sign. -/
structure Binary where
  /-- The significand. -/
  m : Nat
  /-- The exponent. -/
  q : Int
  /-- Whether the next smaller double is half as far away as the next greater one. -/
  narrowBelow : Bool
  deriving DecidableEq, Repr

/-- What a double is. -/
inductive Class where
  /-- Not a number. -/
  | nan
  /-- An infinity. -/
  | infinite
  /-- A finite number, up to its sign. -/
  | finite (value : Binary)
  deriving DecidableEq, Repr

/-- Whether the sign bit is set. -/
def isNegative (bits : UInt64) : Bool := decide (0x8000000000000000 ≤ bits)

/-- The class of the double with the given bits. -/
def classify (bits : UInt64) : Class :=
  let exponent : Nat := (bits >>> 52 &&& 0x7FF).toNat
  let fraction : Nat := (bits &&& 0xFFFFFFFFFFFFF).toNat
  if exponent = 0x7FF then if fraction = 0 then .infinite else .nan
  else if exponent = 0 then .finite ⟨fraction, -1074, false⟩
  else
    .finite
      ⟨0x10000000000000 + fraction, (exponent : Int) - 1075,
        decide (fraction = 0 ∧ 1 < exponent)⟩

/-- Whether a double is neither infinite nor not a number. -/
def isFinite (x : Float) : Bool :=
  match classify x.toBits with
  | .finite _ => true
  | _ => false

/-- The place of a double in the total order: infinities and zeros by their sign, and what is not a
number above the positive infinity. -/
def totalKey (x : Float) : Int :=
  let bits := x.toBits
  if isNegative bits then -1 - ((bits &&& 0x7FFFFFFFFFFFFFFF).toNat : Int) else (bits.toNat : Int)

/-- The value as a quotient of natural numbers. -/
def Binary.quotient (x : Binary) : Nat × Nat :=
  (x.m <<< x.q.toNat, 1 <<< (-x.q).toNat)

end CorpusCost.Number
