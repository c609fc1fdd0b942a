import Mathlib.Data.List.Induction
import CorpusCost.Proofs.CappedComplements

/-!
# Runs without negative values

The complement is the one instruction that can make a negative value of values that are not. In the
program of a query it never does where no weight is negative: its value has just been capped, so it
is at most one.

What is known of the stack depends on the instruction before (`Bounded`). No value is negative, and
behind a cap or a complement the topmost one is at most one. Each instruction preserves this if a
complement stands behind a cap, and it holds at every place of a run.
-/

set_option autoImplicit false

namespace CorpusCost

open Machine

/-! ## One instruction -/

namespace Machine

/-- What holds of the stack behind an instruction, none at the beginning of a program. -/
structure Bounded (last : Option (Instruction Rat)) (stack : Stack Rat) : Prop where
  /-- No value is negative. -/
  nonneg : ∀ value ∈ stack, 0 ≤ value
  /-- Behind a cap or a complement the topmost value is at most one. -/
  le_one : last = some .clamp ∨ last = some .negate → ∀ value ∈ stack.head?, value ≤ 1

theorem bounded_nil : Bounded none [] where
  nonneg := nofun
  le_one := nofun

/-- An instruction preserves the bounds if it pushes no negative constant and a complement stands
behind a cap. -/
theorem Bounded.step {last : Option (Instruction Rat)} {instruction : Instruction Rat}
    {stack next : Stack Rat} (hstack : Bounded last stack)
    (hpush : ∀ value, instruction = .push value → 0 ≤ value)
    (hnegate : instruction = .negate → last = some .clamp)
    (hstep : Step instruction stack next) : Bounded (some instruction) next := by
  have hnonneg := hstack.nonneg
  cases hstep with
  | push value =>
    exact ⟨List.forall_mem_cons.mpr ⟨hpush value rfl, hnonneg⟩, by simp⟩
  | add x y rest =>
    obtain ⟨hy, hx, hrest⟩ : 0 ≤ y ∧ 0 ≤ x ∧ ∀ value ∈ rest, 0 ≤ value := by simpa using hnonneg
    exact ⟨List.forall_mem_cons.mpr ⟨add_nonneg hx hy, hrest⟩, by simp⟩
  | multiply x y rest =>
    obtain ⟨hy, hx, hrest⟩ : 0 ≤ y ∧ 0 ≤ x ∧ ∀ value ∈ rest, 0 ≤ value := by simpa using hnonneg
    exact ⟨List.forall_mem_cons.mpr ⟨mul_nonneg hx hy, hrest⟩, by simp⟩
  | negate x rest =>
    obtain ⟨hx, hrest⟩ := List.forall_mem_cons.mp hnonneg
    have hcapped : x ≤ 1 := hstack.le_one (.inl (hnegate rfl)) x rfl
    have hle : Scalar.complement x ≤ 1 := sub_le_self 1 hx
    exact ⟨List.forall_mem_cons.mpr ⟨sub_nonneg.mpr hcapped, hrest⟩, fun _ => by simpa using hle⟩
  | clamp x rest =>
    obtain ⟨hx, hrest⟩ := List.forall_mem_cons.mp hnonneg
    rw [Scalar.cap_eq_min]
    exact ⟨List.forall_mem_cons.mpr ⟨le_min hx zero_le_one, hrest⟩, fun _ => by simp⟩

/-! ## Runs of a program -/

/-- At every place of a run the stack keeps the bounds. The induction is on the instructions done,
the last one taken off, since the bounds there depend on the one before it. -/
theorem Capped.bounded_of_runs {program : Program Rat} (hcapped : Capped program)
    (hpush : ∀ value, .push value ∈ program → 0 ≤ value) {done rest : Program Rat}
    {stack : Stack Rat} (hprogram : program = done ++ rest) (hruns : Runs done [] stack) :
    Bounded done.getLast? stack := by
  induction done using List.reverseRecOn generalizing rest stack with
  | nil =>
    obtain rfl : [] = stack := hruns
    exact bounded_nil
  | append_singleton done instruction ih =>
    rw [List.append_assoc, List.singleton_append] at hprogram
    obtain ⟨middle, hdone, next, hstep, rfl⟩ := hruns.exists_middle
    rw [List.getLast?_concat]
    refine (ih hprogram hdone).step ?_ ?_ (step?_eq_some_iff.mp hstep)
    · rintro value rfl
      exact hpush value (by simp [hprogram])
    · rintro rfl
      obtain ⟨start, rfl⟩ := hcapped done rest hprogram
      exact List.getLast?_concat

end Machine

/-! ## Programs of queries -/

theorem Constant.value_nonneg {weights : Weights Rat} (hweights : weights.Nonnegative)
    (constant : Constant) : 0 ≤ constant.value weights := by
  cases constant with
  | slot slot => exact hweights slot
  | wildcardRun length =>
    exact mul_nonneg (hweights .wildcard) (WildcardRun.probability_nonneg length)

theorem Template.push_nonneg {weights : Weights Rat} (hweights : weights.Nonnegative)
    {template : Template} {value : Rat} (hmem : .push value ∈ fill weights template) :
    0 ≤ value := by
  obtain ⟨instruction, -, hvalue⟩ := List.mem_map.mp hmem
  cases instruction with
  | push constant =>
    obtain rfl : constant.value weights = value := Instruction.push.inj hvalue
    exact constant.value_nonneg hweights
  | _ => cases hvalue

/-- The program of a query runs through on an empty stack and leaves one value. -/
theorem Query.exists_runs {α : Type} [Scalar α] {query : Query} {weights : Weights α}
    {program : Program α} (hcompile : query.compile weights = .ok program) :
    ∃ score, Runs program [] [score] := by
  cases hcost : query.outline.cost weights with
  | none => simp [Query.compile_of_cost_eq_none hcost] at hcompile
  | some score =>
    obtain ⟨other, hother, hpush⟩ := Query.compile_of_cost_eq_some hcost
    obtain rfl : other = program := Except.ok.inj (hother.symm.trans hcompile)
    exact ⟨score, hpush []⟩

/-- Where no weight is negative, a query with a program has a score that is not negative. At every
place of the run, `done` being the instructions before it, no value on the stack is negative, and
what a complement leaves on top is between zero and one. -/
theorem Query.run_nonneg {query : Query} {weights : Weights Rat}
    (hweights : weights.Nonnegative) {program : Program Rat}
    (hcompile : query.compile weights = .ok program) :
    ∃ score, 0 ≤ score ∧ (∀ stack, run program stack = (.ok score, [score])) ∧
      (∀ done rest, program = done ++ rest → ∃ stack,
        execute done [] = (.ok (), stack) ∧
        executeFrom done.length rest stack = (.ok (), [score]) ∧
        ∀ value ∈ stack, 0 ≤ value) ∧
      ∀ done rest, program = done ++ .negate :: rest → ∃ result stack,
        execute (done ++ [.negate]) [] = (.ok (), result :: stack) ∧ 0 ≤ result ∧ result ≤ 1 := by
  have hcapped := Query.capped_of_compile hcompile
  obtain ⟨score, hruns⟩ := Query.exists_runs hcompile
  have hpush : ∀ value, .push value ∈ program → 0 ≤ value := by
    obtain ⟨template, -, rfl⟩ := Query.exists_template hcompile
    exact fun _ => Template.push_nonneg hweights
  have hbounded : ∀ {done rest : Program Rat} {stack}, program = done ++ rest →
      Runs done [] stack → Bounded done.getLast? stack :=
    hcapped.bounded_of_runs hpush
  refine ⟨score, ?_, ?_, ?_, ?_⟩
  · exact (hbounded (List.append_nil program).symm hruns).nonneg score List.mem_cons_self
  · intro stack
    have hexecute : execute program [] = (.ok (), [score]) := hruns.executeFrom_eq 0
    simp [run, hexecute, peek]
  · intro done rest hprogram
    rw [hprogram] at hruns
    obtain ⟨stack, hdone, hrest⟩ := hruns.exists_middle
    exact ⟨stack, hdone.executeFrom_eq 0, hrest.executeFrom_eq done.length,
      (hbounded hprogram hdone).nonneg⟩
  · intro done rest hprogram
    have hsplit : program = (done ++ [.negate]) ++ rest := by simp [hprogram]
    rw [hsplit] at hruns
    obtain ⟨stack, hdone, -⟩ := hruns.exists_middle
    obtain ⟨hnonneg, hle⟩ := hbounded hsplit hdone
    have hexecute : execute (done ++ [.negate]) [] = (.ok (), stack) := hdone.executeFrom_eq 0
    -- There is a value on top, since the complement has run.
    obtain ⟨middle, -, next, hstep, rfl⟩ := hdone.exists_middle
    cases step?_eq_some_iff.mp hstep with
    | negate x others =>
      exact ⟨Scalar.complement x, others, hexecute, hnonneg _ List.mem_cons_self,
        hle (.inr List.getLast?_concat) _ rfl⟩

/-- With all weights three the factors of `[tag!="N"]` come to 729, and the cap alone keeps the
complement from falling below zero. -/
theorem Query.run_nonneg_negated :
    let query := (Query.parse "[tag!=\"N\"]").toOption.get (by decide +kernel)
    let weights : Weights Rat := .uniform 3
    weights.Nonnegative ∧ ∃ program score, query.compile weights = .ok program ∧
      run program [] = (.ok score, [score]) ∧ 0 ≤ score ∧
      ∃ done rest result stack, program = done ++ .clamp :: .negate :: rest ∧
        execute done [] = (.ok (), [729]) ∧
        execute (done ++ [.clamp, .negate]) [] = (.ok (), result :: stack) ∧
        0 ≤ result ∧ result ≤ 1 := by
  intro query weights
  have hweights : weights.Nonnegative := by
    intro slot
    rw [Weights.get_uniform]
    decide +kernel
  have hcompile : query.compile weights = .ok
      ([.push 3, .push 3, .multiply, .push 3, .multiply, .push 3, .multiply, .push 3, .multiply,
        .push 3, .multiply] ++ .clamp :: .negate :: [.push 3, .multiply, .push 3, .multiply,
        .push 3, .multiply, .push 3, .multiply]) := by decide +kernel
  obtain ⟨score, hscore, hrun, -, hnegate⟩ := Query.run_nonneg hweights hcompile
  obtain ⟨result, stack, hresult⟩ := hnegate _ _ (List.append_cons _ _ _)
  exact ⟨hweights, _, score, hcompile, hrun [], hscore, _, _, result, stack, rfl,
    by decide +kernel, by simpa using hresult⟩

end CorpusCost
