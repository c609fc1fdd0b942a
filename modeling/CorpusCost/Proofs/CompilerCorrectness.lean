import Mathlib.Data.List.Forall2
import CorpusCost.Proofs.Emission
import CorpusCost.Proofs.Execution

/-!
# Correctness of cost programs

The program of a query is its template, filled with the weights, and the reference cost is made by
the same recursion over the outline as the template. So the values that a node collects and the
templates it has in line belong together one by one: each template pushes the value beside it
(`carry_outline`). What a template puts in line the code that follows it takes off again, and the
template of a node pushes the cost of the node.
-/

set_option autoImplicit false

namespace CorpusCost

open Machine

variable {α : Type} [Scalar α]

/-! ## Templates that push values -/

/-- Whether each template, filled with the weights, pushes the value beside it. -/
def Carry (weights : Weights α) (templates : List Template) (values : List α) : Prop :=
  List.Forall₂ (fun template value => Pushes (Template.fill weights template) [value]) templates
    values

section

variable {weights : Weights α}

theorem carry_singleton {template : Template} {value : α}
    (hpush : Pushes (Template.fill weights template) [value]) :
    Carry weights [template] [value] := .cons hpush .nil

theorem Carry.append {templates others : List Template} {values more : List α}
    (hvalues : Carry weights templates values) (hmore : Carry weights others more) :
    Carry weights (templates ++ others) (values ++ more) :=
  List.rel_append hvalues hmore

/-- The templates in line push the values beside them, one after the other. -/
theorem Carry.pushes {templates : List Template} {values : List α}
    (hcarry : Carry weights templates values) :
    Pushes (Template.fill weights templates.flatten) values := by
  induction hcarry with
  | nil => exact pushes_nil
  | cons hpush _ ih =>
    rw [List.flatten_cons, Template.fill_append]
    exact hpush.append ih

end

variable (weights : Weights α)

theorem carry_ownTemplates (node : Node) :
    Carry weights node.ownTemplates (node.ownValues weights) := by
  unfold Node.ownTemplates Node.ownValues
  cases node.constant? with
  | none => exact .nil
  | some slot => exact carry_singleton (pushes_single (weights.get slot))

theorem carry_ofRun (length : Nat) :
    Carry weights (Template.ofRun length) (weights.runValue length) := by
  cases length with
  | zero => exact .nil
  | succ length => exact carry_singleton (pushes_single (weights.wildcardRun (length + 1)))

/-- The template that a node makes of those in line pushes the cost that it makes of the values. -/
theorem carry_node {weights : Weights α} (node : Node) {templates : List Template} {values : List α}
    (hcarry : Carry weights templates values) :
    Carry weights (node.template? templates).toList (node.cost? weights values).toList := by
  have hpush := hcarry.pushes
  cases hcarry with
  | nil => exact .nil
  | @cons template value templates values _ hrest =>
    have hlength : (template :: templates).length = (value :: values).length :=
      congrArg (· + 1) (List.Forall₂.length_eq hrest)
    refine carry_singleton ?_
    rw [Template.fill_append, hlength, ← Emitter.finish_eq_fill]
    exact hpush.andThen (runs_finish weights node value values)

/-! ## Templates of outlines -/

mutual

/-- The template of an outline pushes its reference cost, and there is one just when there is the
other. -/
theorem carry_outline : ∀ outline : Outline,
    Carry weights outline.template?.toList (outline.cost weights).toList
  | .node label children => by
    rw [Outline.template?_node, Outline.cost_node]
    refine carry_node label ((carry_ownTemplates weights label).append ?_)
    split
    · exact carry_rowTemplates 0 children
    · exact carry_templates children

theorem carry_templates : ∀ children : List Outline,
    Carry weights (Outline.templates children) (Outline.costs weights children)
  | [] => by
    rw [Outline.templates_nil, Outline.costs_nil]
    exact .nil
  | child :: children => by
    rw [Outline.templates_cons, Outline.costs_cons]
    exact (carry_outline child).append (carry_templates children)

theorem carry_rowTemplates (length : Nat) : ∀ children : List Outline,
    Carry weights (Outline.rowTemplates length children) (Outline.rowCosts weights length children)
  | [] => by
    rw [Outline.rowTemplates_nil, Outline.rowCosts_nil]
    exact carry_ofRun weights length
  | child :: children => by
    cases hchild : child.label.isWildcardSymbol with
    | true =>
      rw [Outline.rowTemplates_wildcard length children hchild,
        Outline.rowCosts_wildcard weights length children hchild]
      exact carry_rowTemplates (length + 1) children
    | false =>
      rw [Outline.rowTemplates_other length children hchild,
        Outline.rowCosts_other weights length children hchild]
      exact ((carry_ofRun weights length).append (carry_outline child)).append
        (carry_rowTemplates 0 children)

end

/-- Whether an outline has a cost does not depend on the weights: it has one just when it has a
template. -/
theorem Outline.isSome_cost (outline : Outline) (weights : Weights α) :
    (outline.cost weights).isSome = outline.template?.isSome := by
  have hlength := (carry_outline weights outline).length_eq
  cases hcost : outline.cost weights <;> cases htemplate : outline.template? <;>
    simp [hcost, htemplate] at hlength ⊢

/-! ## The cost of a query -/

theorem Query.compile_of_cost_eq_some {query : Query} {weights : Weights α} {value : α}
    (hcost : query.outline.cost weights = some value) :
    ∃ program, query.compile weights = .ok program ∧ Pushes program [value] := by
  have hcarry := carry_outline weights query.outline
  cases htemplate : query.outline.template? with
  | none =>
    rw [hcost, htemplate] at hcarry
    cases hcarry
  | some template =>
    rw [hcost, htemplate] at hcarry
    refine ⟨Template.fill weights template, by rw [query.compile_eq_fill weights, htemplate], ?_⟩
    simpa using hcarry.pushes

theorem Query.compile_of_cost_eq_none {query : Query} {weights : Weights α}
    (hcost : query.outline.cost weights = none) :
    query.compile weights = .error .emptyQuery := by
  have hsome := query.outline.isSome_cost weights
  have hnone : query.outline.template? = none := by simpa [hcost] using hsome
  rw [query.compile_eq_fill weights, hnone]

/-- A query with a reference cost has a program that puts just this cost on top of any stack,
without an underflow; a query without one has no program. -/
theorem Query.compile_correct (query : Query) (weights : Weights α) :
    match query.outline.cost weights with
    | some value => ∃ program, query.compile weights = .ok program ∧
        ∀ stack, execute program stack = (.ok (), value :: stack)
    | none => query.compile weights = .error .emptyQuery := by
  cases hcost : query.outline.cost weights with
  | none => exact compile_of_cost_eq_none hcost
  | some value =>
    obtain ⟨program, hcompile, hpush⟩ := compile_of_cost_eq_some hcost
    refine ⟨program, hcompile, ?_⟩
    intro stack
    exact (hpush stack).executeFrom_eq 0

end CorpusCost
