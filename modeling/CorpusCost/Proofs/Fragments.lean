import CorpusCost.Proofs.Template
import CorpusCost.Proofs.Underflow

/-!
# Fragments of programs

What is known of a piece of a program by itself can be used wherever the piece stands
(`execute_compositional`). Two pieces one after the other are executed one after the other. A piece
that gets to its end leaves alone whatever lies below the values it works on. And how far a piece
gets, and how high a stack it leaves, can be told without any value: `survey` goes over the
opcodes with the height of the stack alone.
-/

set_option autoImplicit false

namespace CorpusCost

namespace Machine

variable {α : Type}

/-! ## Pieces one after the other -/

/-- The error of a piece of a program, told of a whole that has `count` instructions before it. -/
def MachineError.later (count : Nat) : MachineError α → MachineError α
  | .stackUnderflow pc instruction required found =>
    .stackUnderflow (pc + count) instruction required found
  | .emptyStack => .emptyStack

section

variable [Scalar α]

/-- Numbers of instructions occur in nothing but errors. -/
theorem executeFrom_add (count pc : Nat) (program : Program α) (stack : Stack α) :
    executeFrom (pc + count) program stack =
      ((executeFrom pc program stack).1.mapError (.later count),
        (executeFrom pc program stack).2) := by
  induction program generalizing pc stack with
  | nil => rfl
  | cons instruction program ih =>
    rw [executeFrom_cons, executeFrom_cons]
    cases step? instruction stack with
    | none => rfl
    | some next =>
      rw [Nat.add_right_comm]
      exact ih (pc + 1) next

theorem executeFrom_eq (count : Nat) (program : Program α) (stack : Stack α) :
    executeFrom count program stack =
      ((execute program stack).1.mapError (.later count), (execute program stack).2) := by
  have hfrom := executeFrom_add count 0 program stack
  rwa [Nat.zero_add] at hfrom

theorem execute_append (first second : Program α) (stack : Stack α) :
    execute (first ++ second) stack =
      match execute first stack with
      | (.ok (), middle) =>
        ((execute second middle).1.mapError (.later first.length), (execute second middle).2)
      | (.error error, left) => (.error error, left) := by
  have happend := executeFrom_append 0 first second stack
  simp only [Nat.zero_add, executeFrom_eq first.length] at happend
  exact happend

/-! ## What lies below -/

theorem step?_append {instruction : Instruction α} {stack next : Stack α}
    (hstep : step? instruction stack = some next) (below : Stack α) :
    step? instruction (stack ++ below) = some (next ++ below) := by
  rw [step?_eq_some_iff] at hstep ⊢
  cases hstep <;> constructor

theorem Runs.append_below {program : Program α} {stack after : Stack α}
    (hruns : Runs program stack after) (below : Stack α) :
    Runs program (stack ++ below) (after ++ below) := by
  induction program generalizing stack with
  | nil => exact congrArg (· ++ below) hruns
  | cons instruction program ih =>
    obtain ⟨next, hstep, hrest⟩ := hruns
    exact ⟨next ++ below, step?_append hstep below, ih hrest⟩

/-- A program that is executed to its end runs through. -/
theorem runs_of_executeFrom {program : Program α} {stack after : Stack α} {pc : Nat}
    (hexecute : executeFrom pc program stack = (.ok (), after)) : Runs program stack after := by
  induction program generalizing stack pc with
  | nil => exact congrArg Prod.snd hexecute
  | cons instruction program ih =>
    rw [executeFrom_cons] at hexecute
    cases hstep : step? instruction stack with
    | none =>
      rw [hstep] at hexecute
      cases hexecute
    | some next =>
      rw [hstep] at hexecute
      exact ⟨next, hstep, ih hexecute⟩

theorem execute_append_below {program : Program α} {stack after : Stack α}
    (hexecute : execute program stack = (.ok (), after)) (below : Stack α) :
    execute program (stack ++ below) = (.ok (), after ++ below) :=
  ((runs_of_executeFrom hexecute).append_below below).executeFrom_eq 0

end

/-! ## Heights -/

/-- An error without the constant that its instruction pushes. -/
def MachineError.withoutConstant : MachineError α → MachineError Unit
  | .stackUnderflow pc instruction required found =>
    .stackUnderflow pc (instruction.map fun _ => ()) required found
  | .emptyStack => .emptyStack

/-- The height of a stack after an instruction that met its operands: they are taken off, and one
value is put in their place. -/
def Instruction.heightAfter (instruction : Instruction α) (height : Nat) : Nat :=
  height - instruction.arity + 1

/-- Goes over opcodes, of which the first one has the number `pc`, with the height of a stack:
whether a program with these opcodes gets to its end, and the height it leaves. -/
def surveyFrom (pc : Nat) : List (Instruction Unit) → Nat → Except (MachineError Unit) Unit × Nat
  | [], height => (.ok (), height)
  | opcode :: opcodes, height =>
    if height < opcode.arity then
      (.error (.stackUnderflow pc opcode opcode.arity height), height)
    else surveyFrom (pc + 1) opcodes (opcode.heightAfter height)

/-- Goes over the opcodes of a program with the height of a stack. -/
def survey (opcodes : List (Instruction Unit)) (height : Nat) :
    Except (MachineError Unit) Unit × Nat :=
  surveyFrom 0 opcodes height

@[simp] theorem Instruction.heightAfter_map {β : Type} (f : α → β) (instruction : Instruction α)
    (height : Nat) : (instruction.map f).heightAfter height = instruction.heightAfter height := by
  rw [heightAfter, heightAfter, arity_map]

theorem length_of_step? [Scalar α] {instruction : Instruction α} {stack next : Stack α}
    (hstep : step? instruction stack = some next) :
    next.length = instruction.heightAfter stack.length := by
  rw [step?_eq_some_iff] at hstep
  cases hstep <;> rfl

/-- A run is what the survey of its opcodes says, whatever the values are. -/
theorem survey_executeFrom [Scalar α] (pc : Nat) (program : Program α) (stack : Stack α) :
    ((executeFrom pc program stack).1.mapError .withoutConstant,
        (executeFrom pc program stack).2.length) =
      surveyFrom pc (Program.opcodes program) stack.length := by
  induction program generalizing pc stack with
  | nil => rfl
  | cons instruction program ih =>
    have hopcodes : Program.opcodes (instruction :: program) =
        instruction.map (fun _ => ()) :: Program.opcodes program := rfl
    rw [executeFrom_cons, hopcodes, surveyFrom, Instruction.arity_map,
      Instruction.heightAfter_map]
    cases hstep : step? instruction stack with
    | none =>
      rw [if_pos (step?_eq_none_iff.mp hstep)]
      rfl
    | some next =>
      have hmet : ¬ stack.length < instruction.arity := by
        rw [← step?_eq_none_iff, hstep]
        nofun
      rw [if_neg hmet, ← length_of_step? hstep]
      exact ih (pc + 1) next

/-! ## Composition -/

/-- A piece of a program keeps its meaning wherever it stands. Executing two pieces as one program
is executing the second on what the first leaves, where an error of the second counts its
instruction from the beginning of the whole. A piece that gets to its end does the same with
anything else `below` on the stack, which it leaves as it is. Whether a piece gets to its end, the
place, opcode and operands of the instruction at which it fails, and the height of the stack it
leaves are told by its opcodes and the height of the stack it meets. -/
theorem execute_compositional [Scalar α] (first second : Program α) (stack below : Stack α) :
    (execute (first ++ second) stack =
      match execute first stack with
      | (.ok (), middle) =>
        ((execute second middle).1.mapError (.later first.length), (execute second middle).2)
      | (.error error, left) => (.error error, left)) ∧
    (∀ after, execute first stack = (.ok (), after) →
      execute first (stack ++ below) = (.ok (), after ++ below)) ∧
    ((execute first stack).1.mapError .withoutConstant, (execute first stack).2.length) =
      survey (Program.opcodes first) stack.length :=
  ⟨execute_append first second stack,
    fun _ hexecute => execute_append_below hexecute below,
    survey_executeFrom 0 first stack⟩

/-- A sum over a value from outside, then a product that finds too few values, with what is not a
number below. -/
theorem execute_compositional_underflow :
    execute [.push 1.5, .add] [2.5] = (.ok (), [(4.0 : Float)]) ∧
      execute [.push 1.5, .add] [2.5, 0.0 / 0.0] = (.ok (), [(4.0 : Float), 0.0 / 0.0]) ∧
      execute [.push 1.5, .add, .multiply] [(2.5 : Float)] =
        (.error (.stackUnderflow 2 .multiply 2 1), [4.0]) := by
  have hfirst : execute [.push 1.5, .add] [2.5] = (.ok (), [(4.0 : Float)]) := by decide
  obtain ⟨hwhole, hbelow, -⟩ := execute_compositional [.push 1.5, .add] [.multiply] [2.5]
    [(0.0 / 0.0 : Float)]
  refine ⟨hfirst, hbelow _ hfirst, ?_⟩
  rw [hfirst] at hwhole
  exact hwhole

end Machine

end CorpusCost
