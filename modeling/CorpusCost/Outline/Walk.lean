import CorpusCost.Outline.Basic

/-!
# Walks over an outline

Two ways of going over all nodes of an outline. A walk enters each node, goes over its parts and
leaves it. A numbered walk gives each node its number in the order of entering and stops at it
after its parts, with the whole path that leads to it.
-/

set_option autoImplicit false

namespace CorpusCost

/-- What a walk does at a node. -/
inductive Turn where
  /-- It comes to the node. -/
  | enter
  /-- It is done with the node and all its parts. -/
  | leave
  deriving DecidableEq, Repr

/-- A step of a walk. -/
structure Visit where
  /-- Whether the node is entered or left. -/
  turn : Turn
  /-- The node it is a part of; none at the root. -/
  parent : Option Node
  /-- The node. -/
  node : Node

/-- A node with its number. -/
structure PathEntry where
  /-- The number of the node. -/
  id : Nat
  /-- The node. -/
  node : Node

/-- A node with all nodes it lies in, the root first. -/
abbrev Path := List PathEntry

namespace Outline

/-! ## Entering and leaving -/

mutual

/-- The steps of a walk over the part of `parent`. -/
def visitsUnder (parent : Option Node) : Outline → List Visit
  | .node label children =>
    ⟨.enter, parent, label⟩ :: visitsOfParts label children ++ [⟨.leave, parent, label⟩]

/-- The steps of a walk over the parts of `parent`, one after the other. -/
def visitsOfParts (parent : Node) : List Outline → List Visit
  | [] => []
  | child :: children => visitsUnder (some parent) child ++ visitsOfParts parent children

end

/-- The steps of a walk. -/
def visits (outline : Outline) : List Visit := visitsUnder none outline

mutual

/-- The parts of an outline in the order of entering, each with the node it is a part of. -/
def preorderUnder (parent : Option Node) : Outline → List (Option Node × Outline)
  | .node label children => (parent, .node label children) :: preorderOfParts label children

/-- The parts of `parent` with all that lie in them, in the order of entering. -/
def preorderOfParts (parent : Node) : List Outline → List (Option Node × Outline)
  | [] => []
  | child :: children => preorderUnder (some parent) child ++ preorderOfParts parent children

end

/-- All parts of an outline in the order of entering, each with the node it is a part of. -/
def preorder (outline : Outline) : List (Option Node × Outline) := preorderUnder none outline

mutual

/-- The number of nodes. -/
def size : Outline → Nat
  | .node _ children => 1 + sizeOfParts children

/-- The number of nodes in all parts. -/
def sizeOfParts : List Outline → Nat
  | [] => 0
  | child :: children => size child + sizeOfParts children

end

mutual

/-- The greatest number of nodes on a path. -/
def height : Outline → Nat
  | .node _ children => 1 + heightOfParts children

/-- The greatest height of a part. -/
def heightOfParts : List Outline → Nat
  | [] => 0
  | child :: children => max (height child) (heightOfParts children)

end

/-! ## Numbered walks -/

mutual

/-- The paths at which a numbered walk stops in an outline that lies under `ancestors` and whose
root has the number `id`, and the number after the last one it gives. -/
def pathsUnder (ancestors : Path) (id : Nat) : Outline → List Path × Nat
  | .node label children =>
    let path := ancestors ++ [⟨id, label⟩]
    let (paths, next) := pathsOfParts path (id + 1) children
    (paths ++ [path], next)

/-- The paths at which a numbered walk stops in the parts under `ancestors`, numbered from
`id`. -/
def pathsOfParts (ancestors : Path) (id : Nat) : List Outline → List Path × Nat
  | [] => ([], id)
  | child :: children =>
    let (paths, next) := pathsUnder ancestors id child
    let (others, last) := pathsOfParts ancestors next children
    (paths ++ others, last)

end

/-- The paths at which a numbered walk stops. -/
def paths (outline : Outline) : List Path := (pathsUnder [] 0 outline).1

end Outline

end CorpusCost
