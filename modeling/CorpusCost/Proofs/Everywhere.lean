import CorpusCost.Outline.Basic

/-!
# Properties of every node of an outline

`Outline.Everywhere P` says that `P` holds of every node of an outline together with the outlines of
its parts. In the outline of a query the outlines below a node are those of its parts
(`Query.isWhole_outline`), so that what holds of every node over its parts holds everywhere: the
outlines of queries are traversed once, here.
-/

set_option autoImplicit false

namespace CorpusCost

namespace Outline

mutual

/-- Whether `P` holds of every node with the outlines of its parts. -/
def Everywhere (P : Node → List Outline → Prop) : Outline → Prop
  | .node label children => P label children ∧ EverywhereIn P children

/-- Whether `P` holds of every node in all parts. -/
def EverywhereIn (P : Node → List Outline → Prop) : List Outline → Prop
  | [] => True
  | child :: children => Everywhere P child ∧ EverywhereIn P children

end

variable {P : Node → List Outline → Prop}

theorem everywhere_node (label : Node) (children : List Outline) :
    Everywhere P (.node label children) ↔ P label children ∧ EverywhereIn P children := by
  rw [Everywhere]

@[simp] theorem everywhereIn_nil : EverywhereIn P [] := by
  rw [EverywhereIn]
  trivial

@[simp] theorem everywhereIn_cons (child : Outline) (children : List Outline) :
    EverywhereIn P (child :: children) ↔ Everywhere P child ∧ EverywhereIn P children := by
  rw [EverywhereIn]

theorem everywhereIn_iff (children : List Outline) :
    EverywhereIn P children ↔ ∀ child ∈ children, Everywhere P child := by
  induction children with
  | nil => simp
  | cons child children ih => simp [ih]

theorem everywhere_leaf (label : Node) : Everywhere P (leaf label) ↔ P label [] := by
  rw [leaf, everywhere_node]
  exact and_iff_left everywhereIn_nil

theorem Everywhere.imp {Q : Node → List Outline → Prop}
    (h : ∀ label children, P label children → Q label children) (outline : Outline) :
    Everywhere P outline → Everywhere Q outline := by
  refine outline.rec (motive_1 := fun outline => Everywhere P outline → Everywhere Q outline)
    (motive_2 := fun outlines => EverywhereIn P outlines → EverywhereIn Q outlines) ?_ ?_ ?_
  · intro label children ih houtline
    rw [everywhere_node] at houtline ⊢
    exact ⟨h label children houtline.1, ih houtline.2⟩
  · exact id
  · intro child children ih ihs houtlines
    rw [everywhereIn_cons] at houtlines ⊢
    exact ⟨ih houtlines.1, ihs houtlines.2⟩

/-- The property of nodes that says `Q` of every unbroken row and nothing of other nodes. -/
def OnRows (Q : List Regex.Atom → List Outline → Prop) : Node → List Outline → Prop
  | .row atoms, children => Q atoms children
  | _, _ => True

end Outline

open Outline

/-! ## Parts of nodes -/

/-- The outlines of the parts of a node, in the order of the text. -/
def Node.parts : Node → List Outline
  | .query q =>
    (q.sequence.map Sequence.outline).toList ++ (q.globals.map GlobalCondition.outline).toList ++
      Block.outlines q.blocks
  | .sequence s => Chain.outlines s.chains
  | .chain c => Element.outlines c.elements
  | .element (.atom a r) => a.outline :: (r.map fun r => Outline.leaf (.repetition r)).toList
  | .element (.opening s selfClosing) => [.node (.opening s selfClosing) [s.outline]]
  | .element (.closing s) => [.node (.closing s) [s.outline]]
  | .atom (.position p) => [p.outline]
  | .atom (.group s blocks) => s.outline :: Block.outlines blocks
  | .position ⟨none, t⟩ => [t.outline]
  | .position ⟨some n, t⟩ => [.node (.labelled n t) [t.outline]]
  | .labelled _ t => [t.outline]
  | .token (.conditions alternatives) => (alternatives.map Disjunction.outline).toList
  | .token (.word r) => [r.outline]
  | .token (.anchored _ r) => [r.outline]
  | .token .mu => []
  | .token (.pairing p) => [p.outline]
  | .pairing (.union left right) => [.node (.union left right) [left.outline, right.outline]]
  | .pairing (.meet left right window) =>
    [.node (.meet left right window) [left.outline, right.outline]]
  | .union left right => [left.outline, right.outline]
  | .meet left right _ => [left.outline, right.outline]
  | .opening s _ => [s.outline]
  | .closing s => [s.outline]
  | .struct s => (s.conditions.map Disjunction.outline).toList
  | .disjunction alternatives => Conjunction.outlines alternatives
  | .conjunction conditions => Condition.outlines conditions
  | .condition (.test t) => t.outlines
  | .condition (.not inner) => [inner.outline]
  | .condition (.bracketed _ alternatives) => [Disjunction.outline alternatives]
  | .block b => [b.scope.outline]
  | .scope (.sequence s) => [s.outline]
  | .scope (.number n) => [.leaf (.scopeNumber n)]
  | .scope (.aligned _ corpus s) => [.node (.aligned corpus s) [s.outline]]
  | .aligned _ s => [s.outline]
  | .globals conditions => conditions.map fun c => .leaf (.globalCondition c)
  | .regex r => Regex.Branch.outlines r.branches
  | .branch b => Regex.Piece.outlines b
  | .group branches => Regex.Branch.outlines branches
  | .row atoms => atoms.map Regex.Atom.outline
  | .charClass c => c.members.map Regex.Member.outline
  | .member (.symbol s) => [s.outline]
  | .symbol (.anchor sign) => [.leaf (.anchor sign)]
  | .symbol (.repeater sign) => [.leaf (.repeater sign)]
  | .symbol .any => [.leaf .wildcard]
  | .symbol .questionMark => [.leaf .questionMark]
  | .range b => [.leaf (.rangeBounds b)]
  | .quotedLiteral value => [.node (.literal value) (value.toList.map fun c => .leaf (.letter c))]
  | .literal value => value.toList.map fun c => .leaf (.letter c)
  | .repetition _ | .scopeNumber _ | .globalCondition _ | .look _ | .member (.escaped _)
  | .member (.span _ _) | .symbol (.literal _ _) | .rangeBounds _ | .namedClass _ | .anchor _
  | .repeater _ | .wildcard | .questionMark | .letter _ => []

namespace Outline

/-- Whether the outlines below every node are those of its parts. -/
def IsWhole (outline : Outline) : Prop :=
  outline.Everywhere fun label children => children = label.parts

/-- Whether that holds of several outlines. -/
def AreWhole (outlines : List Outline) : Prop :=
  EverywhereIn (fun label children => children = label.parts) outlines

theorem isWhole_node (label : Node) (children : List Outline) :
    IsWhole (.node label children) ↔ children = label.parts ∧ AreWhole children :=
  everywhere_node label children

theorem isWhole_leaf (label : Node) : IsWhole (leaf label) ↔ [] = label.parts :=
  everywhere_leaf label

@[simp] theorem areWhole_nil : AreWhole [] := everywhereIn_nil

@[simp] theorem areWhole_cons (child : Outline) (children : List Outline) :
    AreWhole (child :: children) ↔ IsWhole child ∧ AreWhole children :=
  everywhereIn_cons child children

theorem areWhole_iff (children : List Outline) :
    AreWhole children ↔ ∀ child ∈ children, IsWhole child :=
  everywhereIn_iff children

end Outline

namespace Regex

theorem Symbol.isWhole_outline (symbol : Symbol) : symbol.outline.IsWhole := by
  cases symbol <;> simp [Symbol.outline, isWhole_node, isWhole_leaf, Node.parts]

theorem Member.isWhole_outline (member : Member) : member.outline.IsWhole := by
  cases member <;>
    simp [Member.outline, isWhole_node, Symbol.isWhole_outline, Node.parts]

theorem Atom.isWhole_outline (atom : Atom) : atom.outline.IsWhole := by
  cases atom with
  | bounds range => simp [Atom.outline, isWhole_node, isWhole_leaf, Node.parts]
  | symbol sign => exact Symbol.isWhole_outline sign
  | charClass members =>
    simp [Atom.outline, isWhole_node, areWhole_iff, Member.isWhole_outline, Node.parts]
  | namedClass name => simp [Atom.outline, isWhole_leaf, Node.parts]

mutual

theorem Piece.isWhole_outline : ∀ piece : Piece, piece.outline.IsWhole
  | .look source => by simp [Piece.outline, isWhole_leaf, Node.parts]
  | .group branches => by
    simp [Piece.outline, isWhole_node, Branch.areWhole_outlines branches, Node.parts]
  | .row atoms => by
    simp [Piece.outline, isWhole_node, areWhole_iff, Atom.isWhole_outline, Node.parts]

theorem Piece.areWhole_outlines : ∀ pieces : List Piece, AreWhole (Piece.outlines pieces)
  | [] => by simp [Piece.outlines]
  | piece :: pieces => by
    simp [Piece.outlines, Piece.isWhole_outline piece, Piece.areWhole_outlines pieces]

theorem Branch.areWhole_outlines :
    ∀ branches : List (List Piece), AreWhole (Branch.outlines branches)
  | [] => by simp [Branch.outlines]
  | branch :: branches => by
    simp [Branch.outlines, isWhole_node, Piece.areWhole_outlines branch,
      Branch.areWhole_outlines branches, Node.parts]

end

end Regex

theorem Regex.isWhole_outline (regex : Regex) : regex.outline.IsWhole := by
  simp [Regex.outline, isWhole_node, Regex.Branch.areWhole_outlines, Node.parts]

theorem isWhole_literalOutline (value : String) : (literalOutline value).IsWhole := by
  simp [literalOutline, isWhole_node, isWhole_leaf, areWhole_iff, Node.parts]

theorem Test.areWhole_outlines (test : Test) : AreWhole test.outlines := by
  cases test with
  | exactly attr negated value => simp [Test.outlines, isWhole_literalOutline]
  | matching attr negated comparison regex => simp [Test.outlines, Regex.isWhole_outline]
  | positionRange first last => simp [Test.outlines]
  | position number => simp [Test.outlines]
  | similarity keyword args =>
    cases args <;> simp [Test.outlines, SimilarityArgs.outlines, Regex.isWhole_outline]

mutual

theorem Condition.isWhole_outline : ∀ condition : Condition, condition.outline.IsWhole
  | .test test => by
    simp [Condition.outline, isWhole_node, test.areWhole_outlines, Node.parts]
  | .not inner => by
    simp [Condition.outline, isWhole_node, Condition.isWhole_outline inner, Node.parts]
  | .bracketed bracket alternatives => by
    simp [Condition.outline, isWhole_node, Conjunction.areWhole_outlines alternatives,
      Node.parts, Disjunction.outline]

theorem Condition.areWhole_outlines :
    ∀ conditions : List Condition, AreWhole (Condition.outlines conditions)
  | [] => by simp [Condition.outlines]
  | condition :: conditions => by
    simp [Condition.outlines, Condition.isWhole_outline condition,
      Condition.areWhole_outlines conditions]

theorem Conjunction.areWhole_outlines :
    ∀ alternatives : List (List Condition), AreWhole (Conjunction.outlines alternatives)
  | [] => by simp [Conjunction.outlines]
  | conditions :: alternatives => by
    simp [Conjunction.outlines, isWhole_node, Condition.areWhole_outlines conditions,
      Conjunction.areWhole_outlines alternatives, Node.parts]

end

theorem Disjunction.isWhole_outline (alternatives : Disjunction) :
    (Disjunction.outline alternatives).IsWhole := by
  simp [Disjunction.outline, isWhole_node, Conjunction.areWhole_outlines, Node.parts]

mutual

theorem Position.isWhole_outline : ∀ position : Position, position.outline.IsWhole
  | ⟨none, token⟩ => by
    simp [Position.outline, isWhole_node, Token.isWhole_outline token, Node.parts]
  | ⟨some label, token⟩ => by
    simp [Position.outline, isWhole_node, Token.isWhole_outline token, Node.parts]

theorem Token.isWhole_outline : ∀ token : Token, token.outline.IsWhole
  | .conditions none => by simp [Token.outline, isWhole_leaf, Node.parts]
  | .conditions (some alternatives) => by
    simp [Token.outline, isWhole_node, Disjunction.isWhole_outline, Node.parts]
  | .word regex => by
    simp [Token.outline, isWhole_node, Regex.isWhole_outline, Node.parts]
  | .anchored number regex => by
    simp [Token.outline, isWhole_node, Regex.isWhole_outline, Node.parts]
  | .mu => by simp [Token.outline, isWhole_leaf, Node.parts]
  | .pairing pairing => by
    simp [Token.outline, isWhole_node, Pairing.isWhole_outline pairing, Node.parts]

theorem Pairing.isWhole_outline : ∀ pairing : Pairing, pairing.outline.IsWhole
  | .union left right => by
    simp [Pairing.outline, isWhole_node, Position.isWhole_outline left,
      Position.isWhole_outline right, Node.parts]
  | .meet left right window => by
    simp [Pairing.outline, isWhole_node, Position.isWhole_outline left,
      Position.isWhole_outline right, Node.parts]

end

theorem Structure.isWhole_outline (struct : Structure) : struct.outline.IsWhole := by
  rcases struct with ⟨name, _ | alternatives⟩ <;>
    simp [Structure.outline, isWhole_node, Disjunction.isWhole_outline, Node.parts]

mutual

theorem Sequence.isWhole_outline : ∀ sequence : Sequence, sequence.outline.IsWhole
  | ⟨chains⟩ => by
    simp [Sequence.outline, isWhole_node, Chain.areWhole_outlines chains, Node.parts]

theorem Chain.areWhole_outlines : ∀ chains : List Chain, AreWhole (Chain.outlines chains)
  | [] => by simp [Chain.outlines]
  | chain :: chains => by
    simp [Chain.outlines, Chain.isWhole_outline chain, Chain.areWhole_outlines chains]

theorem Chain.isWhole_outline : ∀ chain : Chain, chain.outline.IsWhole
  | ⟨negated, elements⟩ => by
    simp [Chain.outline, isWhole_node, Element.areWhole_outlines elements, Node.parts]

theorem Element.areWhole_outlines :
    ∀ elements : List Element, AreWhole (Element.outlines elements)
  | [] => by simp [Element.outlines]
  | element :: elements => by
    simp [Element.outlines, Element.isWhole_outline element,
      Element.areWhole_outlines elements]

theorem Element.isWhole_outline : ∀ element : Element, element.outline.IsWhole
  | .atom atom none => by
    simp [Element.outline, isWhole_node, Atom.isWhole_outline atom, Node.parts]
  | .atom atom (some repetition) => by
    simp [Element.outline, isWhole_node, isWhole_leaf, Atom.isWhole_outline atom,
      Node.parts]
  | .opening struct selfClosing => by
    simp [Element.outline, isWhole_node, struct.isWhole_outline, Node.parts]
  | .closing struct => by
    simp [Element.outline, isWhole_node, struct.isWhole_outline, Node.parts]

theorem Atom.isWhole_outline : ∀ atom : Atom, atom.outline.IsWhole
  | .position position => by
    simp [Atom.outline, isWhole_node, position.isWhole_outline, Node.parts]
  | .group sequence blocks => by
    simp [Atom.outline, isWhole_node, Sequence.isWhole_outline sequence,
      Block.areWhole_outlines blocks, Node.parts]

theorem Block.areWhole_outlines : ∀ blocks : List Block, AreWhole (Block.outlines blocks)
  | [] => by simp [Block.outlines]
  | block :: blocks => by
    simp [Block.outlines, Block.isWhole_outline block, Block.areWhole_outlines blocks]

theorem Block.isWhole_outline : ∀ block : Block, block.outline.IsWhole
  | ⟨negated, keyword, scope⟩ => by
    simp [Block.outline, isWhole_node, Scope.isWhole_outline scope, Node.parts]

theorem Scope.isWhole_outline : ∀ scope : Scope, scope.outline.IsWhole
  | .sequence sequence => by
    simp [Scope.outline, isWhole_node, Sequence.isWhole_outline sequence, Node.parts]
  | .number number => by simp [Scope.outline, isWhole_node, isWhole_leaf, Node.parts]
  | .aligned negated corpus sequence => by
    simp [Scope.outline, isWhole_node, Sequence.isWhole_outline sequence, Node.parts]

end

theorem GlobalCondition.isWhole_outline (conditions : List GlobalCondition) :
    (GlobalCondition.outline conditions).IsWhole := by
  simp [GlobalCondition.outline, isWhole_node, isWhole_leaf, areWhole_iff, Node.parts]

/-- In the outline of a query the outlines below every node are those of its parts. -/
theorem Query.isWhole_outline (query : Query) : query.outline.IsWhole := by
  obtain ⟨sequence, globals, blocks⟩ := query
  have hblocks := Block.areWhole_outlines blocks
  cases sequence <;> cases globals <;>
    simp [Query.outline, isWhole_node, hblocks, Sequence.isWhole_outline,
      GlobalCondition.isWhole_outline, Node.parts]

end CorpusCost
