/-!
# Instructions of the cost machine

A cost program is a list of instructions that push constants and combine the values on top of a
stack. Programs have no jumps.
-/

set_option autoImplicit false

namespace CorpusCost.Machine

/-- One step of a cost program. -/
inductive Instruction (α : Type) where
  /-- Pushes a constant. -/
  | push (value : α)
  /-- Replaces the two topmost values by their sum. -/
  | add
  /-- Replaces the two topmost values by their product. -/
  | multiply
  /-- Replaces the topmost value `x` by `1 - x`. -/
  | negate
  /-- Replaces the topmost value by one if it is greater. -/
  | clamp
  deriving DecidableEq, Repr

namespace Instruction

variable {α β : Type}

/-- The number of values an instruction takes from the stack. -/
def arity : Instruction α → Nat
  | .push _ => 0
  | .add => 2
  | .multiply => 2
  | .negate => 1
  | .clamp => 1

/-- The constant an instruction pushes, if it pushes one. -/
def constant? : Instruction α → Option α
  | .push value => some value
  | _ => none

/-- The instruction with its constant replaced. -/
def map (f : α → β) : Instruction α → Instruction β
  | .push value => .push (f value)
  | .add => .add
  | .multiply => .multiply
  | .negate => .negate
  | .clamp => .clamp

@[simp] theorem arity_map (f : α → β) (instruction : Instruction α) :
    (instruction.map f).arity = instruction.arity := by
  cases instruction <;> rfl

end Instruction

/-- A cost program. -/
abbrev Program (α : Type) := List (Instruction α)

end CorpusCost.Machine
