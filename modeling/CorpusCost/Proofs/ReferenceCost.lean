import CorpusCost.Cost.Rule
import CorpusCost.Cost.Weights
import CorpusCost.Cost.WildcardRun
import CorpusCost.Outline.Basic

/-!
# The reference cost

The cost of a query by recursion on its outline, with no program and no stack. A node collects the
weight of its own constant and then the costs of its parts, in order; parts that cost nothing are
passed over. From a collection that is not empty, its rule makes the cost of the node.

In an unbroken row each longest run of signs for any character costs one value, at the place of the
run.
-/

set_option autoImplicit false

namespace CorpusCost

variable {α : Type} [Scalar α]

/-- The sum or product of two values. -/
def Combine.apply : Combine → α → α → α
  | .add, x, y => x + y
  | .multiply, x, y => x * y

/-- The values `value, values…` combined from the right. -/
def Combine.fold (combine : Combine) (value : α) : List α → α
  | [] => value
  | next :: values => combine.apply value (fold combine next values)

/-- The value of a run of signs for any character, if there is a sign in it. -/
def Weights.runValue (weights : Weights α) : Nat → List α
  | 0 => []
  | length + 1 => [weights.get .wildcard * WildcardRun.probability (length + 1)]

namespace Node

/-- The weight of the constant that a node has of its own. -/
def ownValues (node : Node) (weights : Weights α) : List α :=
  node.constant?.toList.map weights.get

/-- What a node makes of the values it has collected: they are combined, capped and scaled by the
rule of its kind, and adjusted for a condition. -/
def costOf (node : Node) (weights : Weights α) (value : α) (values : List α) : α :=
  let rule := node.kind.rule
  let combined := rule.combine.fold value values
  let capped := if rule.clamp then Scalar.cap combined else combined
  let scaled :=
    match node.constant?, rule.scale with
    | none, some slot => capped * weights.get slot
    | _, _ => capped
  let narrowed :=
    if node.isOnSmallAttribute then scaled * weights.get .smallAttribute else scaled
  if node.isNegation then Scalar.complement (Scalar.cap narrowed) else narrowed

/-- The cost of a node that has collected `values`; none for an empty collection. -/
def cost? (node : Node) (weights : Weights α) : List α → Option α
  | [] => none
  | value :: values => some (node.costOf weights value values)

@[simp] theorem cost?_cons (node : Node) (weights : Weights α) (value : α) (values : List α) :
    node.cost? weights (value :: values) = some (node.costOf weights value values) := rfl

end Node

namespace Outline

mutual

/-- The reference cost of an outline. -/
def cost (weights : Weights α) : Outline → Option α
  | .node label children =>
    label.cost? weights <|
      label.ownValues weights ++
        if label.kind = .row then rowCosts weights 0 children else costs weights children

/-- The costs of those parts that have one. -/
def costs (weights : Weights α) : List Outline → List α
  | [] => []
  | child :: children => (cost weights child).toList ++ costs weights children

/-- The costs of the parts of an unbroken row, after a run of `length` signs for any character that
is not counted yet. -/
def rowCosts (weights : Weights α) (length : Nat) : List Outline → List α
  | [] => weights.runValue length
  | child :: children =>
    if child.label.isWildcardSymbol then rowCosts weights (length + 1) children
    else weights.runValue length ++ (cost weights child).toList ++ rowCosts weights 0 children

end

variable (weights : Weights α)

theorem cost_node (label : Node) (children : List Outline) :
    cost weights (.node label children) =
      label.cost? weights (label.ownValues weights ++
        if label.kind = .row then rowCosts weights 0 children else costs weights children) := by
  rw [cost]

@[simp] theorem costs_nil : costs weights [] = [] := by
  rw [costs]

@[simp] theorem costs_cons (child : Outline) (children : List Outline) :
    costs weights (child :: children) = (cost weights child).toList ++ costs weights children := by
  rw [costs]

@[simp] theorem rowCosts_nil (length : Nat) :
    rowCosts weights length [] = weights.runValue length := by
  rw [rowCosts]

theorem rowCosts_wildcard {child : Outline} (length : Nat) (children : List Outline)
    (hchild : child.label.isWildcardSymbol = true) :
    rowCosts weights length (child :: children) = rowCosts weights (length + 1) children := by
  rw [rowCosts, if_pos hchild]

theorem rowCosts_other {child : Outline} (length : Nat) (children : List Outline)
    (hchild : child.label.isWildcardSymbol = false) :
    rowCosts weights length (child :: children) =
      weights.runValue length ++ (cost weights child).toList ++ rowCosts weights 0 children := by
  rw [rowCosts, if_neg (by simp [hchild])]

end Outline

end CorpusCost
