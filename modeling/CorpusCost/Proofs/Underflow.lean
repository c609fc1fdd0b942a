import Mathlib.Data.List.Induction
import CorpusCost.Proofs.Execution

/-!
# The first shortage of values

A program gets to its end exactly when each of its instructions meets its operands. Otherwise the
run ends at the first instruction that does not, with that instruction's underflow, and leaves the
stack as it was met there (`execute_exact`).

The proof takes the last instruction off. What the instructions before it make of the stack is
what it meets, so a longer program adds one more place at which values can be short and leaves the
earlier places as they are (`hasOperands_append`, `Shortage.append`).
-/

set_option autoImplicit false

namespace CorpusCost

namespace Machine

variable {α : Type} [Scalar α]

/-! ## Places of a program -/

/-- Whether the instruction at `pc`, if there is one, meets its operands on the stack that the
instructions before it leave. -/
def HasOperands (program : Program α) (stack : Stack α) (pc : Nat) : Prop :=
  ∀ instruction, program[pc]? = some instruction →
    instruction.arity ≤ (execute (program.take pc) stack).2.length

/-- The first instruction that does not meet its operands: `pc` is its place and `met` the stack
it finds. -/
structure Shortage (program : Program α) (stack : Stack α) (pc : Nat)
    (instruction : Instruction α) (met : Stack α) : Prop where
  /-- The instruction stands at `pc`. -/
  place : program[pc]? = some instruction
  /-- The instructions before it run through and leave what it meets. -/
  reached : execute (program.take pc) stack = (.ok (), met)
  /-- It takes more values than it meets. -/
  short : met.length < instruction.arity
  /-- Every earlier instruction meets its operands. -/
  least : ∀ earlier < pc, HasOperands program stack earlier

/-- The shortage at `pc` is what an instruction without its operands amounts to. -/
theorem Shortage.not_hasOperands {program : Program α} {stack met : Stack α} {pc : Nat}
    {instruction : Instruction α} (hshort : Shortage program stack pc instruction met) :
    ¬ HasOperands program stack pc := by
  intro hoperands
  have harity := hoperands instruction hshort.place
  rw [hshort.reached] at harity
  exact Nat.not_le.mpr hshort.short harity

/-! ## One instruction more -/

theorem executeFrom_append (pc : Nat) (first second : Program α) (stack : Stack α) :
    executeFrom pc (first ++ second) stack =
      match executeFrom pc first stack with
      | (.ok (), middle) => executeFrom (pc + first.length) second middle
      | (.error error, left) => (.error error, left) := by
  induction first generalizing pc stack with
  | nil => rfl
  | cons instruction first ih =>
    rw [List.cons_append, executeFrom, executeFrom]
    obtain ⟨_ | _, middle⟩ := step pc instruction stack
    · rfl
    · have hlength : pc + (instruction :: first).length = pc + 1 + first.length := by
        rw [List.length_cons]
        omega
      rw [hlength]
      exact ih (pc + 1) middle

/-- The last instruction meets what the instructions before it leave. -/
theorem execute_append_of_ok {program : Program α} {stack met : Stack α}
    (hrun : execute program stack = (.ok (), met)) (last : Instruction α) :
    execute (program ++ [last]) stack = step program.length last met := by
  unfold execute at hrun ⊢
  rw [executeFrom_append, hrun]
  simp only [Nat.zero_add, executeFrom]
  obtain ⟨_ | _, left⟩ := step program.length last met <;> rfl

/-- A run that has ended early is not changed by an instruction more. -/
theorem execute_append_of_error {program : Program α} {stack left : Stack α}
    {error : MachineError α} (hrun : execute program stack = (.error error, left))
    (last : Instruction α) : execute (program ++ [last]) stack = (.error error, left) := by
  unfold execute at hrun ⊢
  rw [executeFrom_append, hrun]

theorem hasOperands_append {program : Program α} {pc : Nat} (hpc : pc < program.length)
    (last : Instruction α) (stack : Stack α) :
    HasOperands (program ++ [last]) stack pc ↔ HasOperands program stack pc := by
  unfold HasOperands
  rw [List.getElem?_append_left hpc, List.take_append_of_le_length (Nat.le_of_lt hpc)]

/-- The added instruction meets its operands if they are among what the program leaves. -/
theorem hasOperands_last {program : Program α} {stack met : Stack α}
    (hrun : execute program stack = (.ok (), met)) {last : Instruction α}
    (harity : last.arity ≤ met.length) : HasOperands (program ++ [last]) stack program.length := by
  intro instruction hplace
  rw [List.getElem?_concat_length] at hplace
  obtain rfl := Option.some.inj hplace
  rw [List.take_left, hrun]
  exact harity

/-- Beyond the end of a program nothing is short. -/
theorem hasOperands_of_length_le {program : Program α} {pc : Nat} (hpc : program.length ≤ pc)
    (stack : Stack α) : HasOperands program stack pc := by
  intro instruction hplace
  rw [List.getElem?_eq_none hpc] at hplace
  cases hplace

theorem Shortage.append {program : Program α} {stack met : Stack α} {pc : Nat}
    {instruction : Instruction α} (hshort : Shortage program stack pc instruction met)
    (last : Instruction α) : Shortage (program ++ [last]) stack pc instruction met := by
  have hpc : pc < program.length := List.getElem?_eq_some_iff.mp hshort.place |>.1
  refine ⟨?_, ?_, hshort.short, ?_⟩
  · rw [List.getElem?_append_left hpc]
    exact hshort.place
  · rw [List.take_append_of_le_length (Nat.le_of_lt hpc)]
    exact hshort.reached
  · intro earlier hearlier
    have hplace := Nat.lt_trans hearlier hpc
    exact (hasOperands_append hplace last stack).mpr (hshort.least earlier hearlier)

/-! ## The whole run -/

/-- A run gets to its end with operands everywhere, or ends at the first shortage. -/
theorem execute_cases (program : Program α) (stack : Stack α) :
    (∃ left, execute program stack = (.ok (), left) ∧ ∀ pc, HasOperands program stack pc) ∨
      ∃ pc instruction met, Shortage program stack pc instruction met ∧
        execute program stack =
          (.error (.stackUnderflow pc instruction instruction.arity met.length), met) := by
  induction program using List.reverseRecOn with
  | nil => exact .inl ⟨stack, rfl, fun pc => hasOperands_of_length_le (Nat.zero_le pc) stack⟩
  | append_singleton program last ih =>
    obtain ⟨met, hrun, hoperands⟩ | ⟨pc, instruction, met, hshort, hrun⟩ := ih
    · cases hstep : step? last met with
      | some next =>
        left
        have harity : last.arity ≤ met.length := by
          rw [← decide_eq_true_iff (p := last.arity ≤ met.length), ← isSome_step?, hstep]
          rfl
        refine ⟨next, ?_, fun pc => ?_⟩
        · rw [execute_append_of_ok hrun, step_eq, hstep]
        · rcases Nat.lt_trichotomy pc program.length with hpc | rfl | hpc
          · exact (hasOperands_append hpc last stack).mpr (hoperands pc)
          · exact hasOperands_last hrun harity
          · exact hasOperands_of_length_le (by simpa using Nat.succ_le_of_lt hpc) stack
      | none =>
        right
        refine ⟨program.length, last, met, ⟨?_, ?_, step?_eq_none_iff.mp hstep, ?_⟩, ?_⟩
        · exact List.getElem?_concat_length
        · rw [List.take_left]
          exact hrun
        · intro earlier hearlier
          exact (hasOperands_append hearlier last stack).mpr (hoperands earlier)
        · rw [execute_append_of_ok hrun, step_eq, hstep]
    · exact .inr ⟨pc, instruction, met, hshort.append last, execute_append_of_error hrun last⟩

/-- An instruction that takes effect leaves a value on the stack. -/
theorem Step.ne_nil {instruction : Instruction α} {stack next : Stack α}
    (hstep : Step instruction stack next) : next ≠ [] := by
  cases hstep <;> exact List.cons_ne_nil _ _

/-- A program that is not empty leaves a value, if it gets to its end. -/
theorem ne_nil_of_execute {program : Program α} {stack left : Stack α}
    (hrun : execute program stack = (.ok (), left)) (hprogram : program ≠ []) : left ≠ [] := by
  cases program using List.reverseRecOn with
  | nil => exact absurd rfl hprogram
  | append_singleton program last =>
    obtain ⟨met, hbefore, -⟩ | ⟨pc, instruction, met, -, hbefore⟩ := execute_cases program stack
    · rw [execute_append_of_ok hbefore, step_eq] at hrun
      cases hstep : step? last met with
      | none =>
        rw [hstep] at hrun
        cases hrun
      | some next =>
        rw [hstep] at hrun
        cases hrun
        exact (step?_eq_some_iff.mp hstep).ne_nil
    · rw [execute_append_of_error hbefore] at hrun
      cases hrun

/-- A run is exact about its failures and takes each instruction whole. It gets to its end exactly
when every instruction meets its operands. Otherwise it tells the first one that does not, with its
place, what it takes and what it met, and leaves the stack that was met there. The error of a value
taken off an empty stack never comes out of it; only the run of an empty program ends with that. -/
theorem execute_exact (program : Program α) (stack : Stack α) :
    ((execute program stack).1 = .ok () ↔ ∀ pc, HasOperands program stack pc) ∧
      ((execute program stack).1 = .ok () ∨
        ∃ pc instruction met, Shortage program stack pc instruction met ∧
          execute program stack =
            (.error (.stackUnderflow pc instruction instruction.arity met.length), met)) ∧
      (execute program stack).1 ≠ .error .emptyStack ∧
      ((run program stack).1 = .error .emptyStack ↔ program = []) := by
  have hempty : (run program stack).1 = .error .emptyStack ↔ program = [] := by
    constructor
    · intro hrun
      by_contra hprogram
      unfold run at hrun
      obtain ⟨left, hexecute, -⟩ | ⟨pc, instruction, met, -, hexecute⟩ := execute_cases program []
      · obtain ⟨value, rest, rfl⟩ :=
          List.exists_cons_of_ne_nil (ne_nil_of_execute hexecute hprogram)
        rw [hexecute] at hrun
        cases hrun
      · rw [hexecute] at hrun
        cases hrun
    · rintro rfl
      rfl
  obtain ⟨left, hexecute, hoperands⟩ | ⟨pc, instruction, met, hshort, hexecute⟩ :=
    execute_cases program stack
  · refine ⟨⟨fun _ => hoperands, fun _ => ?_⟩, .inl ?_, ?_, hempty⟩
    · rw [hexecute]
    · rw [hexecute]
    · rw [hexecute]
      nofun
  · refine ⟨⟨fun hok => ?_, fun hall => ?_⟩, .inr ⟨pc, instruction, met, hshort, hexecute⟩, ?_,
      hempty⟩
    · rw [hexecute] at hok
      cases hok
    · exact absurd (hall pc) hshort.not_hasOperands
    · rw [hexecute]
      nofun

end Machine

end CorpusCost
