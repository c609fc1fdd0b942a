import CorpusCost.Machine.Instruction
import CorpusCost.Number.Scalar

/-!
# Running cost programs

A stack is a list with its topmost value first. Before an instruction takes effect its operands are
counted: one that finds too few values ends the run. Taking a value off an empty stack fails as
well, with an error of its own. `step_eq` says that the count leaves the second failure no room, so
that an instruction either has the effect that `step?` tells or takes nothing at all.
-/

set_option autoImplicit false

namespace CorpusCost.Machine

variable {α : Type}

/-- Why a run ends without a value. -/
inductive MachineError (α : Type) where
  /-- The instruction at `pc` needs more values than the stack held. -/
  | stackUnderflow (pc : Nat) (instruction : Instruction α) (required found : Nat)
  /-- There is no value on the stack. -/
  | emptyStack
  deriving DecidableEq, Repr

/-- A stack, its topmost value first. -/
abbrev Stack (α : Type) := List α

/-- The topmost value. -/
def peek (stack : Stack α) : Except (MachineError α) α :=
  match stack with
  | [] => .error .emptyStack
  | value :: _ => .ok value

/-- Takes the topmost value off. -/
def pop (stack : Stack α) : Except (MachineError α) α × Stack α :=
  match stack with
  | [] => (.error .emptyStack, [])
  | value :: rest => (.ok value, rest)

/-- Takes the two topmost values off; the lower one comes first. -/
def popTwo (stack : Stack α) : Except (MachineError α) (α × α) × Stack α :=
  match pop stack with
  | (.error error, rest) => (.error error, rest)
  | (.ok y, rest) =>
    match pop rest with
    | (.error error, rest) => (.error error, rest)
    | (.ok x, rest) => (.ok (x, y), rest)

/-- Puts in place of the topmost value what `f` makes of it. -/
def replaceOne (f : α → α) (stack : Stack α) : Except (MachineError α) Unit × Stack α :=
  match pop stack with
  | (.error error, rest) => (.error error, rest)
  | (.ok x, rest) => (.ok (), f x :: rest)

/-- Puts in place of the two topmost values what `f` makes of them. -/
def replaceTwo (f : α → α → α) (stack : Stack α) : Except (MachineError α) Unit × Stack α :=
  match popTwo stack with
  | (.error error, rest) => (.error error, rest)
  | (.ok (x, y), rest) => (.ok (), f x y :: rest)

variable [Scalar α]

/-- Lets an instruction take effect, whether or not the stack holds its operands. -/
def apply (instruction : Instruction α) (stack : Stack α) :
    Except (MachineError α) Unit × Stack α :=
  match instruction with
  | .push value => (.ok (), value :: stack)
  | .add => replaceTwo (· + ·) stack
  | .multiply => replaceTwo (· * ·) stack
  | .negate => replaceOne Scalar.complement stack
  | .clamp => replaceOne Scalar.cap stack

/-- Executes the instruction at `pc`, after a count of its operands. -/
def step (pc : Nat) (instruction : Instruction α) (stack : Stack α) :
    Except (MachineError α) Unit × Stack α :=
  if stack.length < instruction.arity then
    (.error (.stackUnderflow pc instruction instruction.arity stack.length), stack)
  else
    apply instruction stack

/-- Executes a program whose first instruction has the number `pc`: whether it got to its end, and
the stack it leaves. -/
def executeFrom (pc : Nat) : Program α → Stack α → Except (MachineError α) Unit × Stack α
  | [], stack => (.ok (), stack)
  | instruction :: program, stack =>
    match step pc instruction stack with
    | (.ok (), stack) => executeFrom (pc + 1) program stack
    | (.error error, stack) => (.error error, stack)

/-- Executes a program on a stack. -/
def execute (program : Program α) (stack : Stack α) : Except (MachineError α) Unit × Stack α :=
  executeFrom 0 program stack

/-- Executes a program after clearing the stack: the topmost value at its end, and the stack it
leaves. -/
def run (program : Program α) (_stack : Stack α) : Except (MachineError α) α × Stack α :=
  match execute program [] with
  | (.ok (), stack) => (peek stack, stack)
  | (.error error, stack) => (.error error, stack)

/-- The value that a program leaves. -/
def value (program : Program α) : Except (MachineError α) α := (run program []).1

/-! ## What an instruction makes of a stack -/

/-- The stack after one instruction; none if it finds too few values. -/
def step? (instruction : Instruction α) (stack : Stack α) : Option (Stack α) :=
  match instruction, stack with
  | .push value, rest => some (value :: rest)
  | .add, y :: x :: rest => some ((x + y) :: rest)
  | .multiply, y :: x :: rest => some ((x * y) :: rest)
  | .negate, x :: rest => some (Scalar.complement x :: rest)
  | .clamp, x :: rest => some (Scalar.cap x :: rest)
  | _, _ => none

/-- An instruction takes effect exactly when the stack holds as many values as it takes. -/
theorem isSome_step? (instruction : Instruction α) (stack : Stack α) :
    (step? instruction stack).isSome = decide (instruction.arity ≤ stack.length) := by
  cases instruction <;> rcases stack with _ | ⟨_, _ | _⟩ <;> simp [step?, Instruction.arity]

theorem step?_eq_none_iff {instruction : Instruction α} {stack : Stack α} :
    step? instruction stack = none ↔ stack.length < instruction.arity := by
  rw [← Option.not_isSome_iff_eq_none, isSome_step?, decide_eq_true_iff, Nat.not_le]

/-- An instruction that is let take effect has the effect that its operands give it. -/
theorem apply_of_step? {instruction : Instruction α} {stack next : Stack α}
    (hstep : step? instruction stack = some next) : apply instruction stack = (.ok (), next) := by
  unfold step? at hstep
  split at hstep
  case h_6 => cases hstep
  all_goals
    obtain rfl := Option.some.inj hstep
    rfl

/-- An instruction takes its operands and has its effect, or else it takes nothing. -/
theorem step_eq (pc : Nat) (instruction : Instruction α) (stack : Stack α) :
    step pc instruction stack =
      match step? instruction stack with
      | some next => (.ok (), next)
      | none =>
        (.error (.stackUnderflow pc instruction instruction.arity stack.length), stack) := by
  cases hstep : step? instruction stack with
  | some next =>
    have hsome := isSome_step? instruction stack
    rw [hstep, Option.isSome_some, eq_comm, decide_eq_true_iff] at hsome
    rw [step, if_neg (Nat.not_lt.mpr hsome), apply_of_step? hstep]
  | none => rw [step, if_pos (step?_eq_none_iff.mp hstep)]

theorem executeFrom_cons (pc : Nat) (instruction : Instruction α) (program : Program α)
    (stack : Stack α) :
    executeFrom pc (instruction :: program) stack =
      match step? instruction stack with
      | some next => executeFrom (pc + 1) program next
      | none =>
        (.error (.stackUnderflow pc instruction instruction.arity stack.length), stack) := by
  rw [executeFrom, step_eq]
  cases step? instruction stack <;> rfl

end CorpusCost.Machine
