import CorpusCost.Cost.Compile

/-!
# Programs before the weights are known

A template is a program whose constants only say what is pushed: the value of a slot, or the value
of a run of signs for any character. Weights fill a template, which gives a program.

The template of a query is made by recursion on its outline, with no walk and no weights. A node
lines up the template of its own constant and those of its parts; parts without a template are
passed over, and a node with nothing in line has none. Each template in line leaves one value, and
what follows the line makes one value of all of them. In an unbroken row each longest run of signs
for any character has one template, at the place of the run.
-/

set_option autoImplicit false

namespace CorpusCost

open Machine

/-- What a program pushes, before the weights are known. -/
inductive Constant where
  /-- The value of a slot. -/
  | slot (slot : Slot)
  /-- The value of a run of `length` signs for any character. -/
  | wildcardRun (length : Nat)
  deriving DecidableEq, Repr

/-- A program before the weights are known. -/
abbrev Template := Program Constant

section

variable {α : Type}

namespace Constant

/-- The value that weights give to a constant. -/
def value [Scalar α] (weights : Weights α) : Constant → α
  | .slot place => weights.get place
  | .wildcardRun length => weights.wildcardRun length

/-- The slot that a constant reads. -/
def source : Constant → Slot
  | .slot place => place
  | .wildcardRun _ => .wildcard

/-- A constant depends on no other slot than the one it reads. -/
theorem value_congr [Scalar α] {weights others : Weights α} {constant : Constant}
    (h : weights.get constant.source = others.get constant.source) :
    constant.value weights = constant.value others := by
  cases constant with
  | slot place => exact h
  | wildcardRun length => exact congrArg (· * WildcardRun.probability length) h

end Constant

namespace Template

/-- The slots that a template reads. -/
def slots (template : Template) : List Slot :=
  (template.filterMap Instruction.constant?).map Constant.source

variable [Scalar α]

/-- The program that weights make of a template. -/
def fill (weights : Weights α) (template : Template) : Program α :=
  template.map (Instruction.map (Constant.value weights))

variable (weights : Weights α)

@[simp] theorem fill_nil : fill weights [] = [] := rfl

@[simp] theorem fill_append (template other : Template) :
    fill weights (template ++ other) = fill weights template ++ fill weights other :=
  List.map_append

variable {weights}

/-- Weights that agree on the slots of a template fill it alike. -/
theorem fill_congr {others : Weights α} {template : Template}
    (h : ∀ slot ∈ template.slots, weights.get slot = others.get slot) :
    fill weights template = fill others template := by
  refine List.map_congr_left fun instruction hmem => ?_
  cases instruction with
  | push constant =>
    have hslot : constant.source ∈ template.slots :=
      List.mem_map_of_mem (List.mem_filterMap.mpr ⟨.push constant, hmem, rfl⟩)
    exact congrArg Instruction.push (Constant.value_congr (h _ hslot))
  | add => rfl
  | multiply => rfl
  | negate => rfl
  | clamp => rfl

end Template

/-- The instructions of a program without the constants they push. -/
def Machine.Program.opcodes (program : Program α) : List (Instruction Unit) :=
  program.map (Instruction.map fun _ => ())

/-- Filling a template changes no instruction but for its constant. -/
theorem Template.opcodes_fill [Scalar α] (weights : Weights α) (template : Template) :
    Program.opcodes (fill weights template) = Program.opcodes template := by
  unfold Program.opcodes fill
  rw [List.map_map]
  refine List.map_congr_left fun instruction _ => ?_
  cases instruction <;> rfl

end

/-! ## Templates of nodes -/

/-- Combines two values. -/
def Combine.opcode : Combine → Instruction Constant
  | .add => .add
  | .multiply => .multiply

/-- Multiplies by the value of a slot. -/
def Template.scale (slot : Slot) : Template := [.push (.slot slot), .multiply]

/-- Pushes the value of a run of signs for any character, if there is a sign in it. -/
def Template.ofRun : Nat → List Template
  | 0 => []
  | length + 1 => [[.push (.wildcardRun (length + 1))]]

namespace Node

/-- Pushes the constant that a node has of its own. -/
def ownTemplates (node : Node) : List Template :=
  node.constant?.toList.map fun slot => [.push (.slot slot)]

/-- Makes one value of the values that a node has in line: combines, caps and scales them, and
adjusts the result for conditions. -/
def finishing (node : Node) (values : Nat) : Template :=
  let rule := node.kind.rule
  List.replicate (values - 1) rule.combine.opcode ++
    (if rule.clamp then [.clamp] else []) ++
    (match node.constant?, rule.scale with
      | none, some slot => Template.scale slot
      | _, _ => []) ++
    (if node.isOnSmallAttribute then Template.scale .smallAttribute else []) ++
    (if node.isNegation then [.clamp, .negate] else [])

/-- The template of a node with the given ones in line; none for an empty line. -/
def template? (node : Node) : List Template → Option Template
  | [] => none
  | first :: parts => some ((first :: parts).flatten ++ node.finishing (first :: parts).length)

end Node

/-! ## Templates of outlines -/

namespace Outline

mutual

/-- The template of an outline. -/
def template? : Outline → Option Template
  | .node label children =>
    label.template? <|
      label.ownTemplates ++
        if label.kind = .row then rowTemplates 0 children else templates children

/-- The templates of those parts that have one. -/
def templates : List Outline → List Template
  | [] => []
  | child :: children => (template? child).toList ++ templates children

/-- The templates of the parts of an unbroken row, after a run of `length` signs for any character
that has none yet. -/
def rowTemplates (length : Nat) : List Outline → List Template
  | [] => Template.ofRun length
  | child :: children =>
    if child.label.isWildcardSymbol then rowTemplates (length + 1) children
    else Template.ofRun length ++ (template? child).toList ++ rowTemplates 0 children

end

theorem template?_node (label : Node) (children : List Outline) :
    template? (.node label children) =
      label.template? (label.ownTemplates ++
        if label.kind = .row then rowTemplates 0 children else templates children) := by
  rw [template?]

@[simp] theorem templates_nil : templates [] = [] := by
  rw [templates]

@[simp] theorem templates_cons (child : Outline) (children : List Outline) :
    templates (child :: children) = (template? child).toList ++ templates children := by
  rw [templates]

@[simp] theorem rowTemplates_nil (length : Nat) :
    rowTemplates length [] = Template.ofRun length := by
  rw [rowTemplates]

theorem rowTemplates_wildcard {child : Outline} (length : Nat) (children : List Outline)
    (hchild : child.label.isWildcardSymbol = true) :
    rowTemplates length (child :: children) = rowTemplates (length + 1) children := by
  rw [rowTemplates, if_pos hchild]

theorem rowTemplates_other {child : Outline} (length : Nat) (children : List Outline)
    (hchild : child.label.isWildcardSymbol = false) :
    rowTemplates length (child :: children) =
      Template.ofRun length ++ (template? child).toList ++ rowTemplates 0 children := by
  rw [rowTemplates, if_neg (by simp [hchild])]

end Outline

end CorpusCost
