import CorpusCost.Machine.Run
import CorpusCost.Number.Notation
import CorpusCost.Text.Joined

/-!
# Listings of cost programs

One line for each instruction: its number with at least four digits, its name, and the constant it
pushes, written without an exponent.
-/

set_option autoImplicit false

namespace CorpusCost

/-- Constants in listings are written without an exponent and without `.0`. Of two equally short
decimals the greater is taken. -/
def plainLayout : Number.Layout where
  plain := none
  pointZero := false
  tie := .up
  nan := "NaN"
  positiveInfinity := "inf"
  negativeInfinity := "-inf"

namespace Machine

/-- The number of an instruction, with zeros in front to make at least four digits. -/
def numberText (pc : Nat) : String :=
  let digits := Text.natural pc
  String.ofList (List.replicate (4 - digits.length) '0' ++ digits)

/-- An instruction as listed. -/
def Instruction.text : Instruction Float → String
  | .push value => "PUSH " ++ plainLayout.text value
  | .add => "ADD"
  | .multiply => "MUL"
  | .negate => "NEG"
  | .clamp => "CLAMP1"

/-- The lines of a listing whose first instruction has the number `pc`, each ended. -/
def listingFrom (pc : Nat) : Program Float → String
  | [] => ""
  | instruction :: program =>
    numberText pc ++ " " ++ instruction.text ++ "\n" ++ listingFrom (pc + 1) program

/-- The listing of a program. -/
def listing (program : Program Float) : String := listingFrom 0 program

/-- What a run that ended without a value says. -/
def MachineError.message : MachineError Float → String
  | .stackUnderflow pc instruction required found =>
    "Stack underflow at " ++ numberText pc ++ ": `" ++ instruction.text ++ "` needs " ++
      toString required ++ " operand(s), found " ++ toString found
  | .emptyStack => "Empty stack"

end Machine

end CorpusCost
