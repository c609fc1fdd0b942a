import CorpusCost.Cost.Compile
import CorpusCost.Proofs.ReferenceCost

/-!
# What pieces of a program do to the stack

`Step` says what each instruction makes of the stack it meets. `Runs program stack after` says that
a piece of a program takes one stack to another and meets enough values at every instruction.
`Pushes program values` is the special case of a piece that touches nothing below what it pushes.
The last section runs the instructions with which a node is left.
-/

set_option autoImplicit false

namespace CorpusCost

namespace Machine

variable {α : Type} [Scalar α]

/-! ## One instruction -/

/-- An instruction, the stack it meets and the stack it leaves, where it meets enough values. -/
inductive Step : Instruction α → Stack α → Stack α → Prop where
  | push (value : α) (stack : Stack α) : Step (.push value) stack (value :: stack)
  | add (x y : α) (stack : Stack α) : Step .add (y :: x :: stack) ((x + y) :: stack)
  | multiply (x y : α) (stack : Stack α) : Step .multiply (y :: x :: stack) ((x * y) :: stack)
  | negate (x : α) (stack : Stack α) : Step .negate (x :: stack) (Scalar.complement x :: stack)
  | clamp (x : α) (stack : Stack α) : Step .clamp (x :: stack) (Scalar.cap x :: stack)

theorem step?_eq_some_iff {instruction : Instruction α} {stack next : Stack α} :
    step? instruction stack = some next ↔ Step instruction stack next := by
  constructor
  · intro hstep
    unfold step? at hstep
    split at hstep
    case h_6 => cases hstep
    all_goals
      obtain rfl := Option.some.inj hstep
      constructor
  · rintro ⟨⟩ <;> rfl

/-! ## Pieces of a program -/

/-- Whether a piece of a program takes `stack` to `after` without an underflow. -/
def Runs : Program α → Stack α → Stack α → Prop
  | [], stack, after => stack = after
  | instruction :: program, stack, after =>
    ∃ next, step? instruction stack = some next ∧ Runs program next after

theorem runs_nil (stack : Stack α) : Runs [] stack stack := rfl

theorem runs_single {instruction : Instruction α} {stack after : Stack α}
    (hstep : step? instruction stack = some after) : Runs [instruction] stack after :=
  ⟨after, hstep, rfl⟩

theorem Runs.append {first second : Program α} {stack middle after : Stack α}
    (hfirst : Runs first stack middle) (hsecond : Runs second middle after) :
    Runs (first ++ second) stack after := by
  induction first generalizing stack with
  | nil =>
    obtain rfl := hfirst
    exact hsecond
  | cons instruction first ih =>
    obtain ⟨next, hstep, hrest⟩ := hfirst
    exact ⟨next, hstep, ih hrest⟩

/-- A run of two pieces comes through a stack between them. -/
theorem Runs.exists_middle {first second : Program α} {stack after : Stack α}
    (hruns : Runs (first ++ second) stack after) :
    ∃ middle, Runs first stack middle ∧ Runs second middle after := by
  induction first generalizing stack with
  | nil => exact ⟨stack, runs_nil stack, hruns⟩
  | cons instruction first ih =>
    obtain ⟨next, hstep, hrest⟩ := hruns
    obtain ⟨middle, hfirst, hsecond⟩ := ih hrest
    exact ⟨middle, ⟨next, hstep, hfirst⟩, hsecond⟩

/-- A program that runs through is executed to its end. -/
theorem Runs.executeFrom_eq {program : Program α} {stack after : Stack α}
    (hruns : Runs program stack after) (pc : Nat) :
    executeFrom pc program stack = (.ok (), after) := by
  induction program generalizing stack pc with
  | nil =>
    obtain rfl := hruns
    rfl
  | cons instruction program ih =>
    obtain ⟨next, hstep, hrest⟩ := hruns
    rw [executeFrom_cons, hstep]
    exact ih hrest (pc + 1)

/-! ## Pushing values -/

/-- Whether a piece of a program puts `values` on top of any stack, the last one topmost. -/
def Pushes (program : Program α) (values : List α) : Prop :=
  ∀ stack : Stack α, Runs program stack (values.reverse ++ stack)

theorem pushes_nil : Pushes ([] : Program α) [] := by
  intro stack
  exact runs_nil stack

theorem pushes_single (value : α) : Pushes [.push value] [value] := by
  intro stack
  exact runs_single rfl

theorem Pushes.append {first second : Program α} {values others : List α}
    (hfirst : Pushes first values) (hsecond : Pushes second others) :
    Pushes (first ++ second) (values ++ others) := by
  intro stack
  rw [List.reverse_append, List.append_assoc]
  exact (hfirst stack).append (hsecond (values.reverse ++ stack))

/-- A piece that turns the pushed values into one makes a piece that pushes the one. -/
theorem Pushes.andThen {program finish : Program α} {values : List α} {value : α}
    (hpush : Pushes program values)
    (hfinish : ∀ stack, Runs finish (values.reverse ++ stack) (value :: stack)) :
    Pushes (program ++ finish) [value] := by
  intro stack
  exact (hpush stack).append (hfinish stack)

/-! ## Combining values -/

theorem step?_instruction (combine : Combine) (x y : α) (stack : Stack α) :
    step? combine.instruction (y :: x :: stack) = some (combine.apply x y :: stack) := by
  cases combine <;> rfl

/-- One combination less than there are values folds them from the right. -/
theorem runs_replicate_instruction (combine : Combine) (value : α) (values : List α)
    (stack : Stack α) :
    Runs (List.replicate values.length combine.instruction) ((value :: values).reverse ++ stack)
      (combine.fold value values :: stack) := by
  induction values generalizing value stack with
  | nil => exact runs_nil (value :: stack)
  | cons next values ih =>
    have hsplit : List.replicate (next :: values).length (combine.instruction (α := α)) =
        List.replicate values.length combine.instruction ++ [combine.instruction] := by
      rw [List.length_cons, List.replicate_succ']
    have hbelow : (value :: next :: values).reverse ++ stack =
        (next :: values).reverse ++ value :: stack := by
      simp
    rw [hsplit, hbelow]
    refine (ih next (value :: stack)).append (runs_single ?_)
    exact step?_instruction combine value (combine.fold next values) stack

theorem runs_scale (weights : Weights α) (slot : Slot) (value : α) (stack : Stack α) :
    Runs (weights.scale slot) (value :: stack) (value * weights.get slot :: stack) :=
  ⟨weights.get slot :: value :: stack, rfl, runs_single rfl⟩

/-- An optional piece that changes the topmost value. -/
theorem runs_ite {condition : Prop} [Decidable condition] {program : Program α} {value other : α}
    {stack : Stack α} (hruns : Runs program (value :: stack) (other :: stack)) :
    Runs (if condition then program else []) (value :: stack)
      ((if condition then other else value) :: stack) := by
  split
  · exact hruns
  · exact runs_nil (value :: stack)

/-! ## Leaving a node -/

/-- What is emitted when a node is left makes its cost of the values it has collected. -/
theorem runs_finish (weights : Weights α) (node : Node) (value : α) (values : List α)
    (stack : Stack α) :
    Runs (Frame.finish ⟨node.kind, (value :: values).length, 0, node.constant?.isSome⟩ weights node)
      ((value :: values).reverse ++ stack) (node.costOf weights value values :: stack) := by
  unfold Frame.finish Node.costOf
  simp only [List.length_cons, Nat.add_sub_cancel]
  refine Runs.append (Runs.append (Runs.append (Runs.append
    (runs_replicate_instruction node.kind.rule.combine value values stack)
    (runs_ite (runs_single rfl))) ?_) (runs_ite (runs_scale weights .smallAttribute _ stack)))
    (runs_ite ⟨_, rfl, runs_single rfl⟩)
  -- Scaling: a node with a constant of its own is left alone.
  cases node.constant? with
  | some slot => exact runs_nil _
  | none =>
    cases node.kind.rule.scale with
    | none => exact runs_nil _
    | some slot => exact runs_scale weights slot _ stack

end Machine

end CorpusCost
