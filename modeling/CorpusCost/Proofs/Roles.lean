import CorpusCost.Proofs.ReferenceCost
import CorpusCost.Proofs.Template

/-!
# What the cost rules see of a node

Of a node the cost rules look at its kind, the slot of its own constant, and whether it is a
condition on an attribute with few values or a condition that negates. Nodes that agree in this role
make the same template of the templates of their parts, and the same cost of the costs of their
parts, whatever else they say.
-/

set_option autoImplicit false

namespace CorpusCost

namespace Node

/-- What the cost rules see of a node. -/
structure Role where
  /-- The kind of the node. -/
  kind : Kind
  /-- The slot of the constant that the node has of its own. -/
  constant? : Option Slot
  /-- Whether it is a condition on an attribute with few values. -/
  isOnSmallAttribute : Bool
  /-- Whether it is a condition that negates. -/
  isNegation : Bool
  deriving DecidableEq, Repr

/-- The role of a node. -/
def role (node : Node) : Role where
  kind := node.kind
  constant? := node.constant?
  isOnSmallAttribute := node.isOnSmallAttribute
  isNegation := node.isNegation

section

variable {node other : Node}

theorem kind_eq_of_role (h : node.role = other.role) : node.kind = other.kind :=
  congrArg Role.kind h

theorem constant?_eq_of_role (h : node.role = other.role) : node.constant? = other.constant? :=
  congrArg Role.constant? h

theorem isOnSmallAttribute_eq_of_role (h : node.role = other.role) :
    node.isOnSmallAttribute = other.isOnSmallAttribute :=
  congrArg Role.isOnSmallAttribute h

theorem isNegation_eq_of_role (h : node.role = other.role) : node.isNegation = other.isNegation :=
  congrArg Role.isNegation h

/-! ## Templates and costs by role -/

theorem ownTemplates_eq_of_role (h : node.role = other.role) :
    node.ownTemplates = other.ownTemplates := by
  rw [ownTemplates, ownTemplates, constant?_eq_of_role h]

theorem template?_eq_of_role (h : node.role = other.role) (line : List Template) :
    node.template? line = other.template? line := by
  have hfinishing : node.finishing line.length = other.finishing line.length := by
    unfold finishing
    rw [kind_eq_of_role h, constant?_eq_of_role h, isOnSmallAttribute_eq_of_role h,
      isNegation_eq_of_role h]
  cases line with
  | nil => rfl
  | cons first parts => rw [template?, template?, hfinishing]

variable {α : Type} [Scalar α] (weights : Weights α)

omit [Scalar α] in
theorem ownValues_eq_of_role (h : node.role = other.role) :
    node.ownValues weights = other.ownValues weights := by
  rw [ownValues, ownValues, constant?_eq_of_role h]

theorem cost?_eq_of_role (h : node.role = other.role) (values : List α) :
    node.cost? weights values = other.cost? weights values := by
  cases values with
  | nil => rfl
  | cons value values =>
    rw [cost?_cons, cost?_cons]
    unfold costOf
    rw [kind_eq_of_role h, constant?_eq_of_role h, isOnSmallAttribute_eq_of_role h,
      isNegation_eq_of_role h]

end

end Node

/-! ## Outlines by role -/

namespace Outline

variable {label other : Node} {children others : List Outline}

/-- Nodes with the same role that are no rows have the same template if their parts have the same
templates. -/
theorem template?_node_congr (hrole : label.role = other.role) (hkind : label.kind ≠ .row)
    (hparts : templates children = templates others) :
    template? (.node label children) = template? (.node other others) := by
  rw [template?_node, template?_node, if_neg hkind, if_neg (Node.kind_eq_of_role hrole ▸ hkind),
    Node.ownTemplates_eq_of_role hrole, hparts, Node.template?_eq_of_role hrole]

theorem templates_cons_congr {part changed : Outline} (hpart : part.template? = changed.template?)
    (hparts : templates children = templates others) :
    templates (part :: children) = templates (changed :: others) := by
  rw [templates_cons, templates_cons, hpart, hparts]

theorem templates_pair_congr {first second first' second' : Outline}
    (hfirst : first.template? = first'.template?) (hsecond : second.template? = second'.template?) :
    templates [first, second] = templates [first', second'] :=
  templates_cons_congr hfirst (templates_cons_congr hsecond rfl)

/-- Nodes with the same role over one part each have the same template if their parts have. -/
theorem template?_over_congr {part changed : Outline} (hrole : label.role = other.role)
    (hkind : label.kind ≠ .row) (hpart : part.template? = changed.template?) :
    template? (.node label [part]) = template? (.node other [changed]) :=
  template?_node_congr hrole hkind (templates_cons_congr hpart rfl)

/-- Rows have the same template if their parts, with the runs among them, have the same. -/
theorem template?_row_congr {atoms more : List Regex.Atom}
    (hparts : rowTemplates 0 children = rowTemplates 0 others) :
    template? (.node (.row atoms) children) = template? (.node (.row more) others) := by
  have hkind : ∀ signs, (Node.row signs).kind = .row := fun _ => rfl
  have hrole : (Node.row atoms).role = (Node.row more).role := rfl
  rw [template?_node, template?_node, if_pos (hkind _), if_pos (hkind _),
    Node.ownTemplates_eq_of_role hrole, hparts, Node.template?_eq_of_role hrole]

end Outline

end CorpusCost
