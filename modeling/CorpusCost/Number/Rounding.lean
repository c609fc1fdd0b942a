/-!
# Rounded quotients

The natural number nearest to a quotient, with a rule for quotients halfway between two.
-/

set_option autoImplicit false

namespace CorpusCost.Number

/-- Where a value goes that lies halfway between two neighbours. -/
inductive Tie where
  /-- To the even neighbour. -/
  | toEven
  /-- To the greater neighbour. -/
  | up
  deriving DecidableEq, Repr

/-- Whether the lower neighbour `floor` is given up for the next one, when what is left over `floor`
compares with one half as `left` says. -/
def Tie.goesUp (tie : Tie) (floor : Nat) (left : Ordering) : Bool :=
  match left with
  | .lt => false
  | .gt => true
  | .eq =>
    match tie with
    | .toEven => floor % 2 == 1
    | .up => true

/-- The natural number nearest to `num / den`. -/
def roundDiv (num den : Nat) (tie : Tie) : Nat :=
  let floor := num / den
  if tie.goesUp floor (compare (2 * (num % den)) den) then floor + 1 else floor

end CorpusCost.Number
