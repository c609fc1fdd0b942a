import CorpusCost.Number.Notation
import CorpusCost.Outline.Effect

/-!
# Listings of an outline

One line for each node in the order of entering: its number, an indent by its depth, its kind, its
text, and its effect where it has one.
-/

set_option autoImplicit false

namespace CorpusCost

/-- The digits of `n`, with zeros in front to make at least four. -/
def fourDigits (n : Nat) : List Char :=
  let digits := Text.natural n
  List.replicate (4 - digits.length) '0' ++ digits

/-- The end of a line of a listing: the effect with three decimal places, unless it is zero. -/
def effectSuffix (effect : Float) : List Char :=
  if effect == 0.0 then []
  else " (effect: ".toList ++ (Number.fixed 3 effect).toList ++ [')']

/-- The line of a node without its line end. -/
def Node.line (node : Node) (id depth : Nat) (effects : Nat → Float) : List Char :=
  fourDigits id ++ ' ' :: List.replicate (2 * depth) ' ' ++ node.kind.name.toList ++
    ' ' :: node.written ++ effectSuffix (effects id)

namespace Outline

mutual

/-- The lines of an outline whose root has the number `id` and lies `depth` nodes deep, and the
number after the last one. -/
def linesFrom (effects : Nat → Float) (id depth : Nat) : Outline → List (List Char) × Nat
  | .node label children =>
    let (lines, next) := linesOfParts effects (id + 1) (depth + 1) children
    (label.line id depth effects :: lines, next)

/-- The lines of outlines that lie `depth` nodes deep, numbered from `id`. -/
def linesOfParts (effects : Nat → Float) (id depth : Nat) :
    List Outline → List (List Char) × Nat
  | [] => ([], id)
  | child :: children =>
    let (lines, next) := linesFrom effects id depth child
    let (others, last) := linesOfParts effects next depth children
    (lines ++ others, last)

end

/-- The lines of an outline. -/
def lines (outline : Outline) (effects : Nat → Float) : List (List Char) :=
  (linesFrom effects 0 0 outline).1

end Outline

/-- The listing of a query with the effects of its nodes, each line ended. -/
def Query.dump (query : Query) (effects : Nat → Float) : String :=
  String.ofList ((query.outline.lines effects).flatMap (· ++ ['\n']))

end CorpusCost
