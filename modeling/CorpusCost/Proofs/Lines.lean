import CorpusCost.Proofs.Roles

/-!
# The line of a node

A node has in line what each of its parts contributes, one part after the other; in an unbroken row
each longest run of signs for any character contributes at its place instead of its signs. Templates
and costs are lined up in this one way (`Outline.template?_line`, `Outline.cost_line`), so that what
holds of the line around a part, or of the line around a run, holds for both.
-/

set_option autoImplicit false

namespace CorpusCost.Outline

section

variable {β : Type} (ofRun : Nat → List β) (ofPart : Outline → List β)

/-- What the parts of an unbroken row contribute, after a run of `length` signs for any character
that is not counted yet. -/
def rowLine (length : Nat) : List Outline → List β
  | [] => ofRun length
  | child :: children =>
    if child.label.isWildcardSymbol then rowLine (length + 1) children
    else ofRun length ++ ofPart child ++ rowLine 0 children

/-- What the parts of a node contribute. -/
def line (label : Node) (children : List Outline) : List β :=
  if label.kind = .row then rowLine ofRun ofPart 0 children else children.flatMap ofPart

@[simp] theorem rowLine_nil (length : Nat) : rowLine ofRun ofPart length [] = ofRun length := rfl

theorem rowLine_wildcard {child : Outline} (length : Nat) (children : List Outline)
    (hchild : child.label.isWildcardSymbol = true) :
    rowLine ofRun ofPart length (child :: children) =
      rowLine ofRun ofPart (length + 1) children := by
  rw [rowLine, if_pos hchild]

theorem rowLine_other {child : Outline} (length : Nat) (children : List Outline)
    (hchild : child.label.isWildcardSymbol = false) :
    rowLine ofRun ofPart length (child :: children) =
      ofRun length ++ ofPart child ++ rowLine ofRun ofPart 0 children := by
  rw [rowLine, if_neg (by simp [hchild])]

/-- A part that is no sign for any character ends the run before it. -/
theorem rowLine_append (length : Nat) (before after : List Outline) {part : Outline}
    (hpart : part.label.isWildcardSymbol = false) :
    rowLine ofRun ofPart length (before ++ part :: after) =
      rowLine ofRun ofPart length before ++ ofPart part ++ rowLine ofRun ofPart 0 after := by
  induction before generalizing length with
  | nil => rw [List.nil_append, rowLine_other _ _ length after hpart, rowLine_nil]
  | cons child before ih =>
    rw [List.cons_append]
    cases hchild : child.label.isWildcardSymbol with
    | true => rw [rowLine_wildcard _ _ _ _ hchild, rowLine_wildcard _ _ _ _ hchild, ih]
    | false =>
      rw [rowLine_other _ _ _ _ hchild, rowLine_other _ _ _ _ hchild, ih]
      simp only [List.append_assoc]

/-- A part that is no sign for any character contributes at its place, whatever it is. -/
theorem line_append (label : Node) (before after : List Outline) {part : Outline}
    (hpart : part.label.isWildcardSymbol = false) :
    line ofRun ofPart label (before ++ part :: after) =
      line ofRun ofPart label before ++ ofPart part ++ line ofRun ofPart label after := by
  unfold line
  split
  · exact rowLine_append ofRun ofPart 0 before after hpart
  · rw [List.flatMap_append, List.flatMap_cons, List.append_assoc]

theorem line_row (atoms : List Regex.Atom) (children : List Outline) :
    line ofRun ofPart (.row atoms) children = rowLine ofRun ofPart 0 children :=
  if_pos rfl

/-- Nodes of one role have the same line. -/
theorem line_eq_of_role {label other : Node} (h : label.role = other.role)
    (children : List Outline) :
    line ofRun ofPart label children = line ofRun ofPart other children := by
  rw [line, line, Node.kind_eq_of_role h]

/-- Signs for any character at the head of a row belong to one run with those before and after. -/
theorem exists_rowLine_run (length : Nat) (row : List Outline) :
    ∃ run back, ∀ more,
      rowLine ofRun ofPart (length + more) row = ofRun (run + more) ++ back := by
  induction row generalizing length with
  | nil => exact ⟨length, [], fun more => (List.append_nil _).symm⟩
  | cons child row ih =>
    cases hchild : child.label.isWildcardSymbol with
    | true =>
      obtain ⟨run, back, hrow⟩ := ih (length + 1)
      refine ⟨run, back, fun more => ?_⟩
      rw [rowLine_wildcard _ _ _ _ hchild, Nat.add_right_comm, hrow more]
    | false =>
      refine ⟨length, ofPart child ++ rowLine ofRun ofPart 0 row, fun more => ?_⟩
      rw [rowLine_other _ _ _ _ hchild, List.append_assoc]

/-- One more sign for any character beside another makes one run of a row longer by one, and leaves
all else as it is. -/
theorem exists_rowLine_longer (length : Nat) (before after : List Outline) (sign : Outline)
    (hsign : sign.label.isWildcardSymbol = true) :
    ∃ front run back,
      rowLine ofRun ofPart length (before ++ sign :: after) = front ++ ofRun (run + 1) ++ back ∧
      rowLine ofRun ofPart length (before ++ sign :: sign :: after) =
        front ++ ofRun (run + 2) ++ back := by
  induction before generalizing length with
  | nil =>
    obtain ⟨run, back, hrow⟩ := exists_rowLine_run ofRun ofPart length after
    refine ⟨[], run, back, ?_, ?_⟩
    · rw [List.nil_append, List.nil_append, rowLine_wildcard _ _ _ _ hsign, hrow 1]
    · rw [List.nil_append, List.nil_append, rowLine_wildcard _ _ _ _ hsign,
        rowLine_wildcard _ _ _ _ hsign]
      exact hrow 2
  | cons child before ih =>
    rw [List.cons_append, List.cons_append]
    cases hchild : child.label.isWildcardSymbol with
    | true =>
      rw [rowLine_wildcard _ _ _ _ hchild, rowLine_wildcard _ _ _ _ hchild]
      exact ih (length + 1)
    | false =>
      obtain ⟨front, run, back, hrow, hlonger⟩ := ih 0
      refine ⟨ofRun length ++ ofPart child ++ front, run, back, ?_, ?_⟩
      · rw [rowLine_other _ _ _ _ hchild, hrow]
        simp only [List.append_assoc]
      · rw [rowLine_other _ _ _ _ hchild, hlonger]
        simp only [List.append_assoc]

end

/-! ## Templates and costs in line -/

/-- The templates that a node has of its parts. -/
def lineTemplates : Node → List Outline → List Template :=
  line Template.ofRun fun part => part.template?.toList

theorem rowTemplates_eq (length : Nat) (children : List Outline) :
    rowTemplates length children =
      rowLine Template.ofRun (fun part => part.template?.toList) length children := by
  induction children generalizing length with
  | nil => exact rowTemplates_nil length
  | cons child children ih =>
    cases hchild : child.label.isWildcardSymbol with
    | true => rw [rowTemplates_wildcard _ _ hchild, rowLine_wildcard _ _ _ _ hchild, ih]
    | false => rw [rowTemplates_other _ _ hchild, rowLine_other _ _ _ _ hchild, ih]

theorem templates_eq (children : List Outline) :
    templates children = children.flatMap fun part => part.template?.toList := by
  induction children with
  | nil => exact templates_nil
  | cons child children ih => rw [templates_cons, ih, List.flatMap_cons]

theorem template?_line (label : Node) (children : List Outline) :
    template? (.node label children) =
      label.template? (label.ownTemplates ++ lineTemplates label children) := by
  rw [template?_node, rowTemplates_eq, templates_eq, lineTemplates, line]

/-- The template of a node around one of its parts is that of any node of the same role. -/
theorem template?_around {label other : Node} (hrole : label.role = other.role) {part : Outline}
    (hpart : part.label.isWildcardSymbol = false) (before after : List Outline) :
    template? (.node label (before ++ part :: after)) =
      other.template? (other.ownTemplates ++
        (lineTemplates other before ++ part.template?.toList ++ lineTemplates other after)) := by
  rw [template?_line, lineTemplates, line_append _ _ _ _ _ hpart, line_eq_of_role _ _ hrole,
    line_eq_of_role _ _ hrole, Node.ownTemplates_eq_of_role hrole, Node.template?_eq_of_role hrole]

variable {α : Type} [Scalar α] (weights : Weights α)

/-- The costs that a node has of its parts. -/
def lineCosts : Node → List Outline → List α :=
  line weights.runValue fun part => (part.cost weights).toList

theorem rowCosts_eq (length : Nat) (children : List Outline) :
    rowCosts weights length children =
      rowLine weights.runValue (fun part => (part.cost weights).toList) length children := by
  induction children generalizing length with
  | nil => exact rowCosts_nil weights length
  | cons child children ih =>
    cases hchild : child.label.isWildcardSymbol with
    | true => rw [rowCosts_wildcard _ _ _ hchild, rowLine_wildcard _ _ _ _ hchild, ih]
    | false => rw [rowCosts_other _ _ _ hchild, rowLine_other _ _ _ _ hchild, ih]

theorem costs_eq (children : List Outline) :
    costs weights children = children.flatMap fun part => (part.cost weights).toList := by
  induction children with
  | nil => exact costs_nil weights
  | cons child children ih => rw [costs_cons, ih, List.flatMap_cons]

theorem cost_line (label : Node) (children : List Outline) :
    cost weights (.node label children) =
      label.cost? weights (label.ownValues weights ++ lineCosts weights label children) := by
  rw [cost_node, rowCosts_eq, costs_eq, lineCosts, line]

/-- The cost of a node around one of its parts is that of any node of the same role. -/
theorem cost_around {label other : Node} (hrole : label.role = other.role) {part : Outline}
    (hpart : part.label.isWildcardSymbol = false) (before after : List Outline) :
    cost weights (.node label (before ++ part :: after)) =
      other.cost? weights (other.ownValues weights ++
        (lineCosts weights other before ++ (part.cost weights).toList ++
          lineCosts weights other after)) := by
  rw [cost_line, lineCosts, line_append _ _ _ _ _ hpart, line_eq_of_role _ _ hrole,
    line_eq_of_role _ _ hrole, Node.ownValues_eq_of_role weights hrole,
    Node.cost?_eq_of_role weights hrole]

end CorpusCost.Outline
