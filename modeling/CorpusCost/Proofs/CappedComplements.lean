import CorpusCost.Proofs.Polarity

/-!
# Complements of capped values

One minus a value reads as a probability only for a value of at most one. In the program of a query
each complement stands directly behind a cap (`Query.capped_of_compile`): the two are emitted
together when a negated condition is left, and a piece of a program that begins with no complement
can be put behind another one without parting them.
-/

set_option autoImplicit false

namespace CorpusCost

open Machine

/-! ## Pieces of programs -/

namespace Machine

variable {α : Type}

/-- Whether each complement in a program stands directly behind a cap. -/
def Capped (program : Program α) : Prop :=
  ∀ before after, program = before ++ .negate :: after → ∃ start, before = start ++ [.clamp]

theorem capped_of_not_mem {program : Program α} (h : .negate ∉ program) : Capped program := by
  rintro before after rfl
  exact absurd (by simp) h

theorem capped_nil : Capped ([] : Program α) := capped_of_not_mem List.not_mem_nil

theorem capped_clamp_negate : Capped ([.clamp, .negate] : Program α) := by
  intro before after hsplit
  match before, hsplit with
  | [first], hsplit =>
    obtain ⟨rfl, -⟩ := List.cons.inj hsplit
    exact ⟨[], rfl⟩
  | _ :: _ :: _, hsplit => simp at hsplit

theorem Capped.append {program other : Program α} (hprogram : Capped program)
    (hother : Capped other) : Capped (program ++ other) := by
  intro before after hsplit
  rcases List.append_eq_append_iff.mp hsplit with ⟨more, rfl, hmore⟩ | ⟨more, hmore, hrest⟩
  · obtain ⟨start, rfl⟩ := hother more after hmore
    exact ⟨program ++ start, (List.append_assoc _ _ _).symm⟩
  · cases more with
    | nil =>
      -- The other piece begins with the complement, so nothing can stand before it.
      obtain ⟨start, hstart⟩ := hother [] after hrest.symm
      simp at hstart
    | cons first more =>
      obtain ⟨rfl, -⟩ := List.cons.inj hrest
      exact hprogram before more hmore

theorem capped_flatten {programs : List (Program α)} (h : ∀ program ∈ programs, Capped program) :
    Capped programs.flatten := by
  induction programs with
  | nil => exact capped_nil
  | cons program programs ih =>
    obtain ⟨hprogram, hprograms⟩ := List.forall_mem_cons.mp h
    exact hprogram.append (ih hprograms)

end Machine

theorem Machine.Capped.fill {α : Type} [Scalar α] (weights : Weights α) {template : Template}
    (htemplate : Capped template) : Capped (Template.fill weights template) := by
  intro before after hsplit
  obtain ⟨start, rest, rfl, rfl, hrest⟩ := List.map_eq_append_iff.mp hsplit
  obtain ⟨instruction, rest, rfl, hnegate, rfl⟩ := List.map_eq_cons_iff.mp hrest
  obtain rfl : instruction = .negate := by
    cases instruction <;> first | rfl | cases hnegate
  obtain ⟨start, rfl⟩ := htemplate start rest rfl
  exact ⟨Template.fill weights start, Template.fill_append weights start [.clamp]⟩

/-! ## Templates of nodes -/

theorem Combine.opcode_cases (combine : Combine) :
    combine.opcode = .add ∨ combine.opcode = .multiply := by
  cases combine
  · exact .inl rfl
  · exact .inr rfl

/-- What is emitted when a node is left: its values are combined, capped, scaled by one slot after
the other, and complemented. -/
theorem Node.finishing_eq (node : Node) (values : Nat) :
    node.finishing values =
      List.replicate (values - 1) node.kind.rule.combine.opcode ++
        (if node.kind.rule.clamp then [.clamp] else []) ++
        node.scaleSlots.flatMap Template.scale ++
        (if node.isNegation then [.clamp, .negate] else []) := by
  unfold finishing scaleSlots
  dsimp only
  cases node.constant? <;> cases node.kind.rule.scale <;> cases node.isOnSmallAttribute <;> simp

theorem Node.capped_finishing (node : Node) (values : Nat) : Capped (node.finishing values) := by
  have hcombine : Capped (List.replicate (values - 1) node.kind.rule.combine.opcode) := by
    refine capped_of_not_mem fun hmem => ?_
    have hsame := List.eq_of_mem_replicate hmem
    rcases node.kind.rule.combine.opcode_cases with hcombine | hcombine <;>
      rw [hcombine] at hsame <;> cases hsame
  have hscale : Capped (node.scaleSlots.flatMap Template.scale) := by
    refine capped_of_not_mem fun hmem => ?_
    obtain ⟨slot, -, hmem⟩ := List.mem_flatMap.mp hmem
    simp [Template.scale] at hmem
  rw [node.finishing_eq]
  refine ((hcombine.append ?_).append hscale).append ?_
  · split
    · exact capped_of_not_mem (by simp)
    · exact capped_nil
  · split
    · exact capped_clamp_negate
    · exact capped_nil

theorem Node.capped_template? (node : Node) {line : List Template}
    (hline : ∀ template ∈ line, Capped template) :
    ∀ template ∈ (node.template? line).toList, Capped template := by
  cases line with
  | nil => simp [template?]
  | cons first templates =>
    intro template htemplate
    obtain rfl : template = (first :: templates).flatten ++ node.finishing _ := by
      simpa [template?] using htemplate
    exact (capped_flatten hline).append (node.capped_finishing _)

theorem capped_push (constant : Constant) : Capped ([.push constant] : Template) :=
  capped_of_not_mem (by simp)

theorem Template.capped_ofRun (length : Nat) :
    ∀ template ∈ Template.ofRun length, Capped template := by
  cases length with
  | zero => simp [Template.ofRun]
  | succ length => simpa [Template.ofRun] using capped_push (.wildcardRun (length + 1))

/-! ## Templates of outlines -/

namespace Outline

mutual

/-- In the template of an outline each complement stands directly behind a cap. -/
theorem capped_template? : (outline : Outline) →
    ∀ template ∈ outline.template?.toList, Capped template
  | .node label children => by
    have hown : ∀ template ∈ label.ownTemplates, Capped template := by
      intro template htemplate
      obtain ⟨slot, -, rfl⟩ := List.mem_map.mp htemplate
      exact capped_push (.slot slot)
    rw [template?_node]
    refine label.capped_template? ?_
    rw [List.forall_mem_append]
    refine ⟨hown, ?_⟩
    split
    · exact capped_rowTemplates 0 children
    · exact capped_templates children

theorem capped_templates : (children : List Outline) →
    ∀ template ∈ templates children, Capped template
  | [] => by simp
  | child :: children => by
    rw [templates_cons, List.forall_mem_append]
    exact ⟨capped_template? child, capped_templates children⟩

theorem capped_rowTemplates (length : Nat) : (children : List Outline) →
    ∀ template ∈ rowTemplates length children, Capped template
  | [] => by
    rw [rowTemplates_nil]
    exact Template.capped_ofRun length
  | child :: children => by
    cases hchild : child.label.isWildcardSymbol with
    | true =>
      rw [rowTemplates_wildcard length children hchild]
      exact capped_rowTemplates (length + 1) children
    | false =>
      rw [rowTemplates_other length children hchild, List.forall_mem_append,
        List.forall_mem_append]
      exact ⟨⟨Template.capped_ofRun length, capped_template? child⟩,
        capped_rowTemplates 0 children⟩

end

end Outline

/-! ## Programs of queries -/

namespace Query

variable {α : Type} [Scalar α] {query : Query} {weights : Weights α} {program : Program α}

/-- A query that has a program has a template. -/
theorem exists_template (hcompile : query.compile weights = .ok program) :
    ∃ template, query.outline.template? = some template ∧
      program = Template.fill weights template := by
  rw [query.compile_eq_fill weights] at hcompile
  cases htemplate : query.outline.template? with
  | none => simp [htemplate] at hcompile
  | some template => exact ⟨template, rfl, by simpa [htemplate, eq_comm] using hcompile⟩

/-- In the program of a query each complement stands directly behind a cap. -/
theorem capped_of_compile (hcompile : query.compile weights = .ok program) : Capped program := by
  obtain ⟨template, htemplate, rfl⟩ := exists_template hcompile
  have hcapped : Capped template :=
    query.outline.capped_template? template (by simp [htemplate])
  exact hcapped.fill weights

end Query

end CorpusCost
