import CorpusCost.Cost.Slot
import CorpusCost.Outline.Node

/-!
# Cost rules

How each kind of node turns the values of its parts into one value, and which slots it reads.
`Node.constant?` refines the constant of a kind by what the node itself says.
-/

set_option autoImplicit false

namespace CorpusCost

/-- How the values of the parts of a node become one. -/
inductive Combine where
  /-- They are added. -/
  | add
  /-- They are multiplied. -/
  | multiply
  deriving DecidableEq, Repr

/-- The cost rule of a kind of node. -/
structure Rule where
  /-- How the values of the parts become one. -/
  combine : Combine
  /-- The slot that scales the value, unless the node has a constant of its own. -/
  scale : Option Slot
  /-- The slot of the node's own constant. -/
  constant : Option Slot
  /-- Whether the value is capped at one before it is scaled. -/
  clamp : Bool
  deriving DecidableEq, Repr

namespace Rule

/-- The values are added. -/
def add : Rule := ⟨.add, none, none, false⟩

/-- The values are multiplied. -/
def multiply : Rule := ⟨.multiply, none, none, false⟩

/-- The node has a constant of its own. -/
def ofConstant (slot : Slot) : Rule := { multiply with constant := some slot }

/-- The value is scaled. -/
def scaled (rule : Rule) (slot : Slot) : Rule := { rule with scale := some slot }

/-- The value is capped. -/
def clamped (rule : Rule) : Rule := { rule with clamp := true }

end Rule

/-- The cost rule of a kind of node. -/
def Kind.rule : Kind → Rule
  | .query => .multiply
  | .sequence => .add
  | .chain => .multiply
  | .element => Rule.multiply.scaled .element
  | .atom => Rule.multiply.scaled .atom
  | .position => .multiply
  | .labelled => Rule.multiply.scaled .labelled
  | .token => .multiply
  | .pairing => Rule.multiply.scaled .pairing
  | .union => .add
  | .meet => .multiply
  | .repetition => .ofConstant .repetition
  | .opening => Rule.multiply.scaled .opening
  | .closing => Rule.multiply.scaled .closing
  | .struct => .ofConstant .struct
  | .disjunction => Rule.add.scaled .disjunction
  | .conjunction => Rule.multiply.scaled .conjunction
  | .condition => Rule.multiply.scaled .condition
  | .block => .multiply
  | .scope => Rule.multiply.scaled .scope
  | .scopeNumber => .ofConstant .scopeNumber
  | .aligned => Rule.multiply.scaled .aligned
  | .globals => .multiply
  | .globalCondition => .ofConstant .globalCondition
  | .regex => Rule.add.scaled .regex
  | .branch => Rule.multiply.scaled .branch
  | .group => Rule.add.clamped.scaled .group
  | .row => Rule.multiply.scaled .row
  | .look => .ofConstant .look
  | .charClass => Rule.add.scaled .charClass
  | .member => Rule.multiply.scaled .member
  | .symbol => .multiply
  | .range => Rule.multiply.scaled .range
  | .rangeBounds => .ofConstant .rangeBounds
  | .namedClass => .ofConstant .namedClass
  | .anchor => .ofConstant .anchor
  | .repeater => .ofConstant .repeater
  | .wildcard => .ofConstant .wildcard
  | .questionMark => .ofConstant .questionMark
  | .quotedLiteral => Rule.multiply.scaled .quotedLiteral
  | .literal => Rule.multiply.scaled .literal
  | .letter => .ofConstant .letter

/-- The slots that no rule names: what a node says itself selects them. -/
def Slot.selectedByNode : List Slot :=
  [.symbol, .propertyClass, .anyToken, .boundedRepetition, .smallAttribute]

namespace Node

/-- The slot of the constant that a node has of its own. -/
def constant? : Node → Option Slot
  | .token (.conditions none) => some .anyToken
  | .token .mu => some .pairing
  | .repetition r => if r.isUnbounded then some .repetition else some .boundedRepetition
  | .condition (.test (.position _)) => some .condition
  | .condition (.test (.positionRange _ _)) => some .condition
  | .condition (.test (.similarity _ (.numbers _ _))) => some .condition
  | .symbol (.literal _ propertyClass) =>
    if propertyClass then some .propertyClass else some .symbol
  | .member (.escaped _) => some .member
  | .member (.span _ _) => some .member
  | node => node.kind.rule.constant

/-- Whether a node is a condition on an attribute with few values. -/
def isOnSmallAttribute : Node → Bool
  | .condition c => c.attribute?.any isSmallAttribute
  | _ => false

/-- Whether a node is a condition that negates. -/
def isNegation : Node → Bool
  | .condition c => c.isNegation
  | _ => false

/-- Whether a node is the symbol for any character. -/
def isWildcardSymbol : Node → Bool
  | .symbol .any => true
  | _ => false

end Node

end CorpusCost
