import CorpusCost.Outline.Node

/-!
# Outlines

The outline of a query is its tree of nodes, with the parts of each node below it in the order in
which the text has them. Every traversal goes over an outline, so the order of parts is fixed here
alone.
-/

set_option autoImplicit false

namespace CorpusCost

/-- A node with the outlines of its parts. -/
inductive Outline where
  /-- The node `label` over `children`. -/
  | node (label : Node) (children : List Outline)

namespace Outline

/-- The node at the root. -/
def label : Outline → Node
  | .node label _ => label

/-- The outlines of the parts, in the order of the text. -/
def children : Outline → List Outline
  | .node _ children => children

@[simp] theorem label_node (label : Node) (children : List Outline) :
    (node label children).label = label := rfl

@[simp] theorem children_node (label : Node) (children : List Outline) :
    (node label children).children = children := rfl

/-- The kind of the root. -/
def kind (outline : Outline) : Kind := outline.label.kind

/-- A node without parts. -/
def leaf (label : Node) : Outline := .node label []

/-- Whether the root has no parts. -/
def isLeaf (outline : Outline) : Bool := outline.children.isEmpty

end Outline

/-! ## Regular expressions -/

namespace Regex

/-- The outline of a symbol. -/
def Symbol.outline (symbol : Symbol) : Outline :=
  .node (.symbol symbol) <|
    match symbol with
    | .literal _ _ => []
    | .anchor sign => [.leaf (.anchor sign)]
    | .repeater sign => [.leaf (.repeater sign)]
    | .any => [.leaf .wildcard]
    | .questionMark => [.leaf .questionMark]

/-- The outline of a member of a class. -/
def Member.outline (member : Member) : Outline :=
  .node (.member member) <|
    match member with
    | .symbol sign => [sign.outline]
    | .escaped _ => []
    | .span _ _ => []

/-- The outline of an atom. -/
def Atom.outline : Atom → Outline
  | .bounds range => .node (.range range) [.leaf (.rangeBounds range)]
  | .symbol sign => sign.outline
  | .charClass members => .node (.charClass members) (members.members.map Member.outline)
  | .namedClass name => .leaf (.namedClass name)

mutual

/-- The outline of a piece. -/
def Piece.outline : Piece → Outline
  | .look text => .leaf (.look text)
  | .group branches => .node (.group branches) (Branch.outlines branches)
  | .row atoms => .node (.row atoms) (atoms.map Atom.outline)

/-- The outlines of the pieces of a branch. -/
def Piece.outlines : List Piece → List Outline
  | [] => []
  | piece :: pieces => Piece.outline piece :: Piece.outlines pieces

/-- The outlines of branches. -/
def Branch.outlines : List (List Piece) → List Outline
  | [] => []
  | branch :: branches => .node (.branch branch) (Piece.outlines branch) :: Branch.outlines branches

end

end Regex

/-- The outline of an expression. -/
def Regex.outline (regex : Regex) : Outline :=
  .node (.regex regex) (Regex.Branch.outlines regex.branches)

/-! ## Conditions -/

/-- The outlines of the arguments of a look-up. -/
def SimilarityArgs.outlines : SimilarityArgs → List Outline
  | .numbers _ _ => []
  | .patterns first second third => [first.outline, second.outline, third.outline]

/-- The outline of a literal text with its quotes. -/
def literalOutline (value : String) : Outline :=
  .node (.quotedLiteral value)
    [.node (.literal value) (value.toList.map fun letter => .leaf (.letter letter))]

/-- The outlines of the parts of a test. -/
def Test.outlines : Test → List Outline
  | .exactly _ _ value => [literalOutline value]
  | .matching _ _ _ regex => [regex.outline]
  | .positionRange _ _ => []
  | .position _ => []
  | .similarity _ args => args.outlines

mutual

/-- The outline of a condition. -/
def Condition.outline : Condition → Outline
  | .test test => .node (.condition (.test test)) test.outlines
  | .not inner => .node (.condition (.not inner)) [Condition.outline inner]
  | .bracketed bracket alternatives =>
    .node (.condition (.bracketed bracket alternatives))
      [.node (.disjunction alternatives) (Conjunction.outlines alternatives)]

/-- The outlines of conditions. -/
def Condition.outlines : List Condition → List Outline
  | [] => []
  | condition :: conditions => Condition.outline condition :: Condition.outlines conditions

/-- The outlines of alternatives. -/
def Conjunction.outlines : List (List Condition) → List Outline
  | [] => []
  | conditions :: alternatives =>
    .node (.conjunction conditions) (Condition.outlines conditions) ::
      Conjunction.outlines alternatives

end

/-- The outline of alternatives of conditions. -/
def Disjunction.outline (alternatives : Disjunction) : Outline :=
  .node (.disjunction alternatives) (Conjunction.outlines alternatives)

/-! ## Tokens -/

mutual

/-- The outline of a position. -/
def Position.outline : Position → Outline
  | ⟨none, token⟩ => .node (.position ⟨none, token⟩) [Token.outline token]
  | ⟨some label, token⟩ =>
    .node (.position ⟨some label, token⟩) [.node (.labelled label token) [Token.outline token]]

/-- The outline of a token. -/
def Token.outline : Token → Outline
  | .conditions none => .leaf (.token (.conditions none))
  | .conditions (some alternatives) =>
    .node (.token (.conditions (some alternatives))) [Disjunction.outline alternatives]
  | .word regex => .node (.token (.word regex)) [regex.outline]
  | .anchored number regex => .node (.token (.anchored number regex)) [regex.outline]
  | .mu => .leaf (.token .mu)
  | .pairing pairing => .node (.token (.pairing pairing)) [Pairing.outline pairing]

/-- The outline of a pairing. -/
def Pairing.outline : Pairing → Outline
  | .union left right =>
    .node (.pairing (.union left right))
      [.node (.union left right) [Position.outline left, Position.outline right]]
  | .meet left right window =>
    .node (.pairing (.meet left right window))
      [.node (.meet left right window) [Position.outline left, Position.outline right]]

end

/-! ## Chains -/

/-- The outline of a structure. -/
def Structure.outline (struct : Structure) : Outline :=
  .node (.struct struct) (struct.conditions.map Disjunction.outline).toList

mutual

/-- The outline of a sequence. -/
def Sequence.outline : Sequence → Outline
  | ⟨chains⟩ => .node (.sequence ⟨chains⟩) (Chain.outlines chains)

/-- The outlines of chains. -/
def Chain.outlines : List Chain → List Outline
  | [] => []
  | chain :: chains => Chain.outline chain :: Chain.outlines chains

/-- The outline of a chain. -/
def Chain.outline : Chain → Outline
  | ⟨negated, elements⟩ => .node (.chain ⟨negated, elements⟩) (Element.outlines elements)

/-- The outlines of elements. -/
def Element.outlines : List Element → List Outline
  | [] => []
  | element :: elements => Element.outline element :: Element.outlines elements

/-- The outline of an element. -/
def Element.outline : Element → Outline
  | .atom atom repetition =>
    .node (.element (.atom atom repetition)) <|
      Atom.outline atom :: (repetition.map fun r => Outline.leaf (.repetition r)).toList
  | .opening struct selfClosing =>
    .node (.element (.opening struct selfClosing))
      [.node (.opening struct selfClosing) [struct.outline]]
  | .closing struct => .node (.element (.closing struct)) [.node (.closing struct) [struct.outline]]

/-- The outline of an atom. -/
def Atom.outline : Atom → Outline
  | .position position => .node (.atom (.position position)) [position.outline]
  | .group sequence blocks =>
    .node (.atom (.group sequence blocks)) (Sequence.outline sequence :: Block.outlines blocks)

/-- The outlines of blocks. -/
def Block.outlines : List Block → List Outline
  | [] => []
  | block :: blocks => Block.outline block :: Block.outlines blocks

/-- The outline of a block. -/
def Block.outline : Block → Outline
  | ⟨negated, keyword, scope⟩ => .node (.block ⟨negated, keyword, scope⟩) [Scope.outline scope]

/-- The outline of a scope. -/
def Scope.outline : Scope → Outline
  | .sequence sequence => .node (.scope (.sequence sequence)) [Sequence.outline sequence]
  | .number number => .node (.scope (.number number)) [.leaf (.scopeNumber number)]
  | .aligned negated corpus sequence =>
    .node (.scope (.aligned negated corpus sequence))
      [.node (.aligned corpus sequence) [Sequence.outline sequence]]

end

/-- The outline of all conditions across tokens. -/
def GlobalCondition.outline (conditions : List GlobalCondition) : Outline :=
  .node (.globals conditions) (conditions.map fun c => .leaf (.globalCondition c))

/-- The outline of a query. -/
def Query.outline (query : Query) : Outline :=
  .node (.query query) <|
    (query.sequence.map Sequence.outline).toList ++
    (query.globals.map GlobalCondition.outline).toList ++
    Block.outlines query.blocks

end CorpusCost
