import CorpusCost.Proofs.Emission
import CorpusCost.Proofs.Roles
import CorpusCost.Query.Reading

/-!
# What costs do not depend on

The skeleton of a query is the query with everything put to a fixed value that costs are indifferent
to: names, but for whether an attribute has few values; numbers and windows, but for whether a
repetition has an upper end; marks of negation, but for those of conditions; the words that begin a
block or a look-up; the signs of comparisons; the texts of look-arounds, classes, escapes and
symbols, but for whether a symbol is a property class; the letters of literal texts, but for their
number. A query has the template of its skeleton (`Query.template?_skeleton`), so that queries with
the same skeleton have the same program.
-/

set_option autoImplicit false

namespace CorpusCost

open Machine Outline

/-! ## Skeletons -/

namespace Regex

/-- The skeleton of a symbol. -/
def Symbol.skeleton : Symbol → Symbol
  | .literal _ propertyClass => .literal "" propertyClass
  | .anchor _ => .anchor '^'
  | .repeater _ => .repeater '*'
  | .any => .any
  | .questionMark => .questionMark

/-- The skeleton of a member of a class. -/
def Member.skeleton : Member → Member
  | .symbol sign => .symbol sign.skeleton
  | .escaped _ => .escaped ""
  | .span _ _ => .span 'a' 'a'

/-- The skeleton of an atom. -/
def Atom.skeleton : Atom → Atom
  | .bounds _ => .bounds ⟨0, none⟩
  | .symbol sign => .symbol sign.skeleton
  | .charClass members => .charClass ⟨false, members.members.map Member.skeleton⟩
  | .namedClass _ => .namedClass ""

mutual

/-- The skeleton of a piece. -/
def Piece.skeleton : Piece → Piece
  | .look _ => .look ""
  | .group branches => .group (Branch.skeletons branches)
  | .row atoms => .row (atoms.map Atom.skeleton)

/-- The skeleton of a branch. -/
def Branch.skeleton : List Piece → List Piece
  | [] => []
  | piece :: pieces => Piece.skeleton piece :: Branch.skeleton pieces

/-- The skeletons of branches. -/
def Branch.skeletons : List (List Piece) → List (List Piece)
  | [] => []
  | branch :: branches => Branch.skeleton branch :: Branch.skeletons branches

end

end Regex

/-- The skeleton of an expression. -/
def Regex.skeleton (regex : Regex) : Regex := ⟨Branch.skeletons regex.branches⟩

/-- The skeleton of the name of an attribute: whether it has few values is kept. -/
def skeletonAttribute (attr : String) : String := if isSmallAttribute attr then "tag" else "word"

/-- The skeleton of a literal text: the number of its letters is kept. -/
def skeletonLiteral (value : String) : String := String.ofList (value.toList.map fun _ => 'a')

/-- The skeleton of the arguments of a look-up. -/
def SimilarityArgs.skeleton : SimilarityArgs → SimilarityArgs
  | .numbers _ _ => .numbers 0 0
  | .patterns first second third => .patterns first.skeleton second.skeleton third.skeleton

/-- The skeleton of a test: whether it is negated is kept. -/
def Test.skeleton : Test → Test
  | .exactly attr negated value => .exactly (skeletonAttribute attr) negated (skeletonLiteral value)
  | .matching attr negated _ regex =>
    .matching (skeletonAttribute attr) negated .equal regex.skeleton
  | .positionRange _ _ => .positionRange 0 0
  | .position _ => .position 0
  | .similarity _ args => .similarity .ws args.skeleton

/-- The skeleton of what a bracketed list is the argument of. -/
def Bracket.skeleton : Bracket → Bracket
  | .group => .group
  | .swap _ => .swap 0
  | .ccoll _ _ => .ccoll 0 0

mutual

/-- The skeleton of a condition. -/
def Condition.skeleton : Condition → Condition
  | .test test => .test test.skeleton
  | .not inner => .not (Condition.skeleton inner)
  | .bracketed bracket alternatives =>
    .bracketed bracket.skeleton (Disjunction.skeleton alternatives)

/-- The skeleton of conditions that hold together. -/
def Conjunction.skeleton : List Condition → List Condition
  | [] => []
  | condition :: conditions => Condition.skeleton condition :: Conjunction.skeleton conditions

/-- The skeleton of alternatives. -/
def Disjunction.skeleton : List (List Condition) → List (List Condition)
  | [] => []
  | conditions :: alternatives =>
    Conjunction.skeleton conditions :: Disjunction.skeleton alternatives

end

mutual

/-- The skeleton of a position: whether it has a label is kept. -/
def Position.skeleton : Position → Position
  | ⟨label, token⟩ => ⟨label.map fun _ => 0, Token.skeleton token⟩

/-- The skeleton of a token. -/
def Token.skeleton : Token → Token
  | .conditions alternatives => .conditions (alternatives.map Disjunction.skeleton)
  | .word regex => .word regex.skeleton
  | .anchored _ regex => .anchored none regex.skeleton
  | .mu => .mu
  | .pairing pairing => .pairing (Pairing.skeleton pairing)

/-- The skeleton of a pairing. -/
def Pairing.skeleton : Pairing → Pairing
  | .union left right => .union (Position.skeleton left) (Position.skeleton right)
  | .meet left right _ => .meet (Position.skeleton left) (Position.skeleton right) none

end

/-- The skeleton of a repetition: whether it has an upper end is kept. -/
def Repetition.skeleton (repetition : Repetition) : Repetition :=
  if repetition.isUnbounded then .zeroOrMore else .zeroOrOne

/-- The skeleton of a structure. -/
def Structure.skeleton (struct : Structure) : Structure :=
  ⟨"", struct.conditions.map Disjunction.skeleton⟩

mutual

/-- The skeleton of a sequence. -/
def Sequence.skeleton : Sequence → Sequence
  | ⟨chains⟩ => ⟨Chain.skeletons chains⟩

/-- The skeletons of chains. -/
def Chain.skeletons : List Chain → List Chain
  | [] => []
  | chain :: chains => Chain.skeleton chain :: Chain.skeletons chains

/-- The skeleton of a chain. -/
def Chain.skeleton : Chain → Chain
  | ⟨_, elements⟩ => ⟨false, Element.skeletons elements⟩

/-- The skeletons of elements. -/
def Element.skeletons : List Element → List Element
  | [] => []
  | element :: elements => Element.skeleton element :: Element.skeletons elements

/-- The skeleton of an element. -/
def Element.skeleton : Element → Element
  | .atom atom repetition => .atom (Atom.skeleton atom) (repetition.map Repetition.skeleton)
  | .opening struct _ => .opening struct.skeleton false
  | .closing struct => .closing struct.skeleton

/-- The skeleton of an atom. -/
def Atom.skeleton : Atom → Atom
  | .position position => .position position.skeleton
  | .group sequence blocks => .group (Sequence.skeleton sequence) (Block.skeletons blocks)

/-- The skeletons of blocks. -/
def Block.skeletons : List Block → List Block
  | [] => []
  | block :: blocks => Block.skeleton block :: Block.skeletons blocks

/-- The skeleton of a block. -/
def Block.skeleton : Block → Block
  | ⟨_, _, scope⟩ => ⟨false, .within, Scope.skeleton scope⟩

/-- The skeleton of a scope. -/
def Scope.skeleton : Scope → Scope
  | .sequence sequence => .sequence (Sequence.skeleton sequence)
  | .number _ => .number 0
  | .aligned _ _ sequence => .aligned false "" (Sequence.skeleton sequence)

end

/-- The skeleton of a condition across tokens. -/
def GlobalCondition.skeleton : GlobalCondition → GlobalCondition
  | .agreement _ _ _ _ _ => .agreement 0 "" false 0 ""
  | .frequency _ _ _ _ _ => .frequency 0 "" false .equal 0

/-- The skeleton of a query: what its costs depend on. -/
def Query.skeleton (query : Query) : Query where
  sequence := query.sequence.map Sequence.skeleton
  globals := query.globals.map (List.map GlobalCondition.skeleton)
  blocks := Block.skeletons query.blocks

/-! ## Expressions -/

namespace Regex

theorem Symbol.template?_skeleton (symbol : Symbol) :
    symbol.skeleton.outline.template? = symbol.outline.template? := by
  cases symbol with
  | literal text propertyClass => exact template?_node_congr rfl nofun rfl
  | anchor sign => exact template?_node_congr rfl nofun rfl
  | repeater sign => exact template?_node_congr rfl nofun rfl
  | any => rfl
  | questionMark => rfl

theorem Member.template?_skeleton (member : Member) :
    member.skeleton.outline.template? = member.outline.template? := by
  cases member with
  | symbol sign =>
    exact template?_over_congr rfl nofun sign.template?_skeleton
  | escaped text => exact template?_node_congr rfl nofun rfl
  | span first last => exact template?_node_congr rfl nofun rfl

theorem Member.templates_skeleton (members : List Member) :
    templates ((members.map Member.skeleton).map Member.outline) =
      templates (members.map Member.outline) := by
  induction members with
  | nil => rfl
  | cons member members ih =>
    exact templates_cons_congr member.template?_skeleton ih

theorem Atom.template?_skeleton (atom : Atom) :
    atom.skeleton.outline.template? = atom.outline.template? := by
  cases atom with
  | bounds range =>
    have hbounds : template? (.leaf (.rangeBounds ⟨0, none⟩)) =
        template? (.leaf (.rangeBounds range)) := template?_node_congr rfl nofun rfl
    exact template?_over_congr rfl nofun hbounds
  | symbol sign => exact sign.template?_skeleton
  | charClass members =>
    exact template?_node_congr rfl nofun (Member.templates_skeleton members.members)
  | namedClass name => exact template?_node_congr rfl nofun rfl

theorem Atom.isWildcardSymbol_skeleton (atom : Atom) :
    atom.skeleton.outline.label.isWildcardSymbol = atom.outline.label.isWildcardSymbol := by
  cases atom with
  | symbol sign => cases sign <;> rfl
  | _ => rfl

/-- The runs of signs for any character are those of the skeleton. -/
theorem Atom.rowTemplates_skeleton (length : Nat) (atoms : List Atom) :
    rowTemplates length ((atoms.map Atom.skeleton).map Atom.outline) =
      rowTemplates length (atoms.map Atom.outline) := by
  induction atoms generalizing length with
  | nil => rfl
  | cons atom atoms ih =>
    have hsign := atom.isWildcardSymbol_skeleton
    rw [List.map_cons, List.map_cons, List.map_cons]
    cases hatom : atom.outline.label.isWildcardSymbol with
    | true =>
      rw [rowTemplates_wildcard _ _ (hsign.trans hatom), rowTemplates_wildcard _ _ hatom, ih]
    | false =>
      rw [rowTemplates_other _ _ (hsign.trans hatom), rowTemplates_other _ _ hatom, ih,
        atom.template?_skeleton]

mutual

theorem Piece.template?_skeleton : ∀ piece : Piece,
    piece.skeleton.outline.template? = piece.outline.template?
  | .look text => template?_node_congr rfl nofun rfl
  | .group branches => by
    rw [Piece.skeleton, Piece.outline, Piece.outline]
    exact template?_node_congr rfl nofun (Branch.templates_skeletons branches)
  | .row atoms => by
    rw [Piece.skeleton, Piece.outline, Piece.outline]
    exact template?_row_congr (Atom.rowTemplates_skeleton 0 atoms)

theorem Branch.templates_skeleton : ∀ pieces : List Piece,
    templates (Piece.outlines (Branch.skeleton pieces)) = templates (Piece.outlines pieces)
  | [] => by rw [Branch.skeleton]
  | piece :: pieces => by
    rw [Branch.skeleton, Piece.outlines, Piece.outlines]
    exact templates_cons_congr (Piece.template?_skeleton piece) (Branch.templates_skeleton pieces)

theorem Branch.templates_skeletons : ∀ branches : List (List Piece),
    templates (Branch.outlines (Branch.skeletons branches)) = templates (Branch.outlines branches)
  | [] => by rw [Branch.skeletons]
  | branch :: branches => by
    have hbranch : template? (.node (.branch (Branch.skeleton branch))
          (Piece.outlines (Branch.skeleton branch))) =
        template? (.node (.branch branch) (Piece.outlines branch)) :=
      template?_node_congr rfl nofun (Branch.templates_skeleton branch)
    rw [Branch.skeletons, Branch.outlines, Branch.outlines]
    exact templates_cons_congr hbranch (Branch.templates_skeletons branches)

end

end Regex

theorem Regex.template?_skeleton (regex : Regex) :
    regex.skeleton.outline.template? = regex.outline.template? :=
  template?_node_congr rfl nofun (Branch.templates_skeletons regex.branches)

/-! ## Conditions -/

theorem isSmallAttribute_skeletonAttribute (attr : String) :
    isSmallAttribute (skeletonAttribute attr) = isSmallAttribute attr := by
  unfold skeletonAttribute
  cases hattr : isSmallAttribute attr with
  | true => simp [isSmallAttribute, smallAttributes]
  | false => simp [isSmallAttribute, smallAttributes]

/-- The letters of a literal text count, whatever they are. -/
theorem templates_letters (letters : List Char) :
    templates ((letters.map fun _ => 'a').map fun letter => .leaf (.letter letter)) =
      templates (letters.map fun letter => .leaf (.letter letter)) := by
  induction letters with
  | nil => rfl
  | cons letter letters ih =>
    have hletter : template? (.leaf (.letter 'a')) = template? (.leaf (.letter letter)) :=
      template?_node_congr rfl nofun rfl
    exact templates_cons_congr hletter ih

theorem template?_skeletonLiteral (value : String) :
    (literalOutline (skeletonLiteral value)).template? = (literalOutline value).template? := by
  have hliteral : template? (.node (.literal (skeletonLiteral value))
        ((skeletonLiteral value).toList.map fun letter => .leaf (.letter letter))) =
      template? (.node (.literal value)
        (value.toList.map fun letter => .leaf (.letter letter))) := by
    refine template?_node_congr rfl nofun ?_
    rw [skeletonLiteral, String.toList_ofList, templates_letters]
  exact template?_over_congr rfl nofun hliteral

theorem SimilarityArgs.templates_skeleton (args : SimilarityArgs) :
    templates args.skeleton.outlines = templates args.outlines := by
  cases args with
  | numbers first second => rfl
  | patterns first second third =>
    simp only [skeleton, outlines, templates_cons, Regex.template?_skeleton]

theorem Test.templates_skeleton (test : Test) :
    templates test.skeleton.outlines = templates test.outlines := by
  cases test with
  | exactly attr negated value =>
    simp only [skeleton, outlines, templates_cons, template?_skeletonLiteral]
  | matching attr negated comparison regex =>
    simp only [skeleton, outlines, templates_cons, Regex.template?_skeleton]
  | positionRange first last => rfl
  | position number => rfl
  | similarity keyword args => exact args.templates_skeleton

/-- What the cost rules see of a test is what they see of its skeleton. -/
theorem Test.role_skeleton (test : Test) :
    (Node.condition (.test test.skeleton)).role = (Node.condition (.test test)).role := by
  cases test with
  | exactly attr negated value =>
    have hattr := isSmallAttribute_skeletonAttribute attr
    simp [Node.role, skeleton, Node.kind, Node.constant?, Node.isOnSmallAttribute,
      Condition.attribute?, hattr, Node.isNegation, Condition.isNegation]
  | matching attr negated comparison regex =>
    have hattr := isSmallAttribute_skeletonAttribute attr
    simp [Node.role, skeleton, Node.kind, Node.constant?, Node.isOnSmallAttribute,
      Condition.attribute?, hattr, Node.isNegation, Condition.isNegation]
  | positionRange first last => rfl
  | position number => rfl
  | similarity keyword args => cases args <;> rfl

mutual

theorem Condition.template?_skeleton : ∀ condition : Condition,
    condition.skeleton.outline.template? = condition.outline.template?
  | .test test => by
    rw [Condition.skeleton, Condition.outline, Condition.outline]
    exact template?_node_congr test.role_skeleton nofun test.templates_skeleton
  | .not inner => by
    rw [Condition.skeleton, Condition.outline, Condition.outline]
    exact template?_over_congr rfl nofun (Condition.template?_skeleton inner)
  | .bracketed bracket alternatives => by
    have hparts : template? (.node (.disjunction (Disjunction.skeleton alternatives))
          (Conjunction.outlines (Disjunction.skeleton alternatives))) =
        template? (.node (.disjunction alternatives) (Conjunction.outlines alternatives)) :=
      template?_node_congr rfl nofun (Disjunction.templates_skeleton alternatives)
    rw [Condition.skeleton, Condition.outline, Condition.outline]
    exact template?_over_congr rfl nofun hparts

theorem Conjunction.templates_skeleton : ∀ conditions : List Condition,
    templates (Condition.outlines (Conjunction.skeleton conditions)) =
      templates (Condition.outlines conditions)
  | [] => by rw [Conjunction.skeleton]
  | condition :: conditions => by
    rw [Conjunction.skeleton, Condition.outlines, Condition.outlines]
    exact templates_cons_congr (Condition.template?_skeleton condition)
      (Conjunction.templates_skeleton conditions)

theorem Disjunction.templates_skeleton : ∀ alternatives : List (List Condition),
    templates (Conjunction.outlines (Disjunction.skeleton alternatives)) =
      templates (Conjunction.outlines alternatives)
  | [] => by rw [Disjunction.skeleton]
  | conditions :: alternatives => by
    have hconditions : template? (.node (.conjunction (Conjunction.skeleton conditions))
          (Condition.outlines (Conjunction.skeleton conditions))) =
        template? (.node (.conjunction conditions) (Condition.outlines conditions)) :=
      template?_node_congr rfl nofun (Conjunction.templates_skeleton conditions)
    rw [Disjunction.skeleton, Conjunction.outlines, Conjunction.outlines]
    exact templates_cons_congr hconditions (Disjunction.templates_skeleton alternatives)

end

theorem Disjunction.template?_skeleton (alternatives : Disjunction) :
    (Disjunction.outline (Disjunction.skeleton alternatives)).template? =
      (Disjunction.outline alternatives).template? :=
  template?_node_congr rfl nofun (Disjunction.templates_skeleton alternatives)

/-! ## Tokens -/

mutual

theorem Position.template?_skeleton : ∀ position : Position,
    position.skeleton.outline.template? = position.outline.template?
  | ⟨none, token⟩ => by
    rw [Position.skeleton, Option.map_none, Position.outline, Position.outline]
    exact template?_over_congr rfl nofun (Token.template?_skeleton token)
  | ⟨some label, token⟩ => by
    have htoken : template? (.node (.labelled 0 token.skeleton) [token.skeleton.outline]) =
        template? (.node (.labelled label token) [token.outline]) := by
      exact template?_over_congr rfl nofun (Token.template?_skeleton token)
    rw [Position.skeleton, Option.map_some, Position.outline, Position.outline]
    exact template?_over_congr rfl nofun htoken

theorem Token.template?_skeleton : ∀ token : Token,
    token.skeleton.outline.template? = token.outline.template?
  | .conditions none => by rw [Token.skeleton, Option.map_none]
  | .conditions (some alternatives) => by
    rw [Token.skeleton, Option.map_some, Token.outline, Token.outline]
    exact template?_over_congr rfl nofun (Disjunction.template?_skeleton alternatives)
  | .word regex => by
    rw [Token.skeleton, Token.outline, Token.outline]
    exact template?_over_congr rfl nofun (Regex.template?_skeleton regex)
  | .anchored number regex => by
    rw [Token.skeleton, Token.outline, Token.outline]
    exact template?_over_congr rfl nofun (Regex.template?_skeleton regex)
  | .mu => by rw [Token.skeleton]
  | .pairing pairing => by
    rw [Token.skeleton, Token.outline, Token.outline]
    exact template?_over_congr rfl nofun (Pairing.template?_skeleton pairing)

theorem Pairing.template?_skeleton : ∀ pairing : Pairing,
    pairing.skeleton.outline.template? = pairing.outline.template?
  | .union left right => by
    have hparts : template? (.node (.union left.skeleton right.skeleton)
          [left.skeleton.outline, right.skeleton.outline]) =
        template? (.node (.union left right) [left.outline, right.outline]) := by
      exact template?_node_congr rfl nofun (templates_pair_congr
        (Position.template?_skeleton left) (Position.template?_skeleton right))
    rw [Pairing.skeleton, Pairing.outline, Pairing.outline]
    exact template?_over_congr rfl nofun hparts
  | .meet left right window => by
    have hparts : template? (.node (.meet left.skeleton right.skeleton none)
          [left.skeleton.outline, right.skeleton.outline]) =
        template? (.node (.meet left right window) [left.outline, right.outline]) := by
      exact template?_node_congr rfl nofun (templates_pair_congr
        (Position.template?_skeleton left) (Position.template?_skeleton right))
    rw [Pairing.skeleton, Pairing.outline, Pairing.outline]
    exact template?_over_congr rfl nofun hparts

end

/-! ## Sequences -/

theorem Repetition.template?_skeleton (repetition : Repetition) :
    template? (.leaf (.repetition repetition.skeleton)) =
      template? (.leaf (.repetition repetition)) := by
  have hends : repetition.skeleton.isUnbounded = repetition.isUnbounded := by
    unfold Repetition.skeleton
    cases repetition.isUnbounded <;> rfl
  have hrole : (Node.repetition repetition.skeleton).role = (Node.repetition repetition).role := by
    have hconstant : (Node.repetition repetition.skeleton).constant? =
        (Node.repetition repetition).constant? := by
      rw [Node.constant?, Node.constant?, hends]
    rw [Node.role, hconstant]
    rfl
  exact template?_node_congr hrole nofun rfl

theorem Structure.template?_skeleton (struct : Structure) :
    struct.skeleton.outline.template? = struct.outline.template? := by
  obtain ⟨name, conditions⟩ := struct
  cases conditions with
  | none => exact template?_node_congr rfl nofun rfl
  | some alternatives =>
    exact template?_over_congr rfl nofun (Disjunction.template?_skeleton alternatives)

mutual

theorem Sequence.template?_skeleton : ∀ sequence : Sequence,
    sequence.skeleton.outline.template? = sequence.outline.template?
  | ⟨chains⟩ => by
    rw [Sequence.skeleton, Sequence.outline, Sequence.outline]
    exact template?_node_congr rfl nofun (Chain.templates_skeletons chains)

theorem Chain.templates_skeletons : ∀ chains : List Chain,
    templates (Chain.outlines (Chain.skeletons chains)) = templates (Chain.outlines chains)
  | [] => by rw [Chain.skeletons]
  | chain :: chains => by
    rw [Chain.skeletons, Chain.outlines, Chain.outlines]
    exact templates_cons_congr (Chain.template?_skeleton chain) (Chain.templates_skeletons chains)

theorem Chain.template?_skeleton : ∀ chain : Chain,
    chain.skeleton.outline.template? = chain.outline.template?
  | ⟨negated, elements⟩ => by
    rw [Chain.skeleton, Chain.outline, Chain.outline]
    exact template?_node_congr rfl nofun (Element.templates_skeletons elements)

theorem Element.templates_skeletons : ∀ elements : List Element,
    templates (Element.outlines (Element.skeletons elements)) =
      templates (Element.outlines elements)
  | [] => by rw [Element.skeletons]
  | element :: elements => by
    rw [Element.skeletons, Element.outlines, Element.outlines]
    exact templates_cons_congr (Element.template?_skeleton element)
      (Element.templates_skeletons elements)

theorem Element.template?_skeleton : ∀ element : Element,
    element.skeleton.outline.template? = element.outline.template?
  | .atom atom none => by
    rw [Element.skeleton, Element.outline, Element.outline]
    exact template?_over_congr rfl nofun (Atom.template?_skeleton atom)
  | .atom atom (some repetition) => by
    rw [Element.skeleton, Element.outline, Element.outline]
    exact template?_node_congr rfl nofun (templates_pair_congr
      (Atom.template?_skeleton atom) (Repetition.template?_skeleton repetition))
  | .opening struct selfClosing => by
    have hparts : template? (.node (.opening struct.skeleton false) [struct.skeleton.outline]) =
        template? (.node (.opening struct selfClosing) [struct.outline]) := by
      exact template?_over_congr rfl nofun (Structure.template?_skeleton struct)
    rw [Element.skeleton, Element.outline, Element.outline]
    exact template?_over_congr rfl nofun hparts
  | .closing struct => by
    have hparts : template? (.node (.closing struct.skeleton) [struct.skeleton.outline]) =
        template? (.node (.closing struct) [struct.outline]) := by
      exact template?_over_congr rfl nofun (Structure.template?_skeleton struct)
    rw [Element.skeleton, Element.outline, Element.outline]
    exact template?_over_congr rfl nofun hparts

theorem Atom.template?_skeleton : ∀ atom : Atom,
    atom.skeleton.outline.template? = atom.outline.template?
  | .position position => by
    rw [Atom.skeleton, Atom.outline, Atom.outline]
    exact template?_over_congr rfl nofun (Position.template?_skeleton position)
  | .group sequence blocks => by
    rw [Atom.skeleton, Atom.outline, Atom.outline]
    refine template?_node_congr rfl nofun (templates_cons_congr ?_ ?_)
    · exact Sequence.template?_skeleton sequence
    · exact Block.templates_skeletons blocks

theorem Block.templates_skeletons : ∀ blocks : List Block,
    templates (Block.outlines (Block.skeletons blocks)) = templates (Block.outlines blocks)
  | [] => by rw [Block.skeletons]
  | block :: blocks => by
    rw [Block.skeletons, Block.outlines, Block.outlines]
    exact templates_cons_congr (Block.template?_skeleton block) (Block.templates_skeletons blocks)

theorem Block.template?_skeleton : ∀ block : Block,
    block.skeleton.outline.template? = block.outline.template?
  | ⟨negated, keyword, scope⟩ => by
    rw [Block.skeleton, Block.outline, Block.outline]
    exact template?_over_congr rfl nofun (Scope.template?_skeleton scope)

theorem Scope.template?_skeleton : ∀ scope : Scope,
    scope.skeleton.outline.template? = scope.outline.template?
  | .sequence sequence => by
    rw [Scope.skeleton, Scope.outline, Scope.outline]
    exact template?_over_congr rfl nofun (Sequence.template?_skeleton sequence)
  | .number number => by
    have hnumber : template? (.leaf (.scopeNumber 0)) = template? (.leaf (.scopeNumber number)) :=
      template?_node_congr rfl nofun rfl
    rw [Scope.skeleton, Scope.outline, Scope.outline]
    exact template?_over_congr rfl nofun hnumber
  | .aligned negated corpus sequence => by
    have hparts : template? (.node (.aligned "" sequence.skeleton) [sequence.skeleton.outline]) =
        template? (.node (.aligned corpus sequence) [sequence.outline]) := by
      exact template?_over_congr rfl nofun (Sequence.template?_skeleton sequence)
    rw [Scope.skeleton, Scope.outline, Scope.outline]
    exact template?_over_congr rfl nofun hparts

end

/-! ## Queries -/

theorem GlobalCondition.templates_skeleton (conditions : List GlobalCondition) :
    templates ((conditions.map GlobalCondition.skeleton).map fun c => .leaf (.globalCondition c)) =
      templates (conditions.map fun c => .leaf (.globalCondition c)) := by
  induction conditions with
  | nil => rfl
  | cons condition conditions ih =>
    have hcondition : template? (.leaf (.globalCondition condition.skeleton)) =
        template? (.leaf (.globalCondition condition)) := template?_node_congr rfl nofun rfl
    exact templates_cons_congr hcondition ih

theorem GlobalCondition.template?_skeleton (conditions : List GlobalCondition) :
    (GlobalCondition.outline (conditions.map GlobalCondition.skeleton)).template? =
      (GlobalCondition.outline conditions).template? :=
  template?_node_congr rfl nofun (GlobalCondition.templates_skeleton conditions)

/-- The parts of a query have the templates of their skeletons. -/
theorem Query.templates_skeleton (query : Query) :
    templates query.skeleton.outline.children = templates query.outline.children := by
  obtain ⟨sequence, globals, blocks⟩ := query
  have hblocks := Block.templates_skeletons blocks
  have hglobals : templates
        (((globals.map (List.map GlobalCondition.skeleton)).map GlobalCondition.outline).toList ++
          Block.outlines (Block.skeletons blocks)) =
      templates ((globals.map GlobalCondition.outline).toList ++ Block.outlines blocks) := by
    cases globals with
    | none => exact hblocks
    | some conditions =>
      exact templates_cons_congr (GlobalCondition.template?_skeleton conditions) hblocks
  cases sequence with
  | none => exact hglobals
  | some sequence => exact templates_cons_congr sequence.template?_skeleton hglobals

/-- A query has the template of its skeleton. -/
theorem Query.template?_skeleton (query : Query) :
    query.skeleton.outline.template? = query.outline.template? :=
  template?_node_congr rfl nofun query.templates_skeleton

/-- Queries with the same skeleton have the same program, or none of them has a program: whatever
the skeleton leaves out, no cost depends on. -/
theorem Query.compile_eq_of_skeleton_eq {α : Type} [Scalar α] {query other : Query}
    (h : query.skeleton = other.skeleton) (weights : Weights α) :
    query.compile weights = other.compile weights := by
  have htemplate : query.outline.template? = other.outline.template? := by
    rw [← query.template?_skeleton, h, other.template?_skeleton]
  rw [query.compile_eq_fill, other.compile_eq_fill, htemplate]

/-- Two queries that have no name, number, keyword, comparison or word in common have one program
under the weights that are all one. -/
theorem Query.compile_eq_renamed :
    let query := (Query.parse "1:[word=\"a[bc]+\" & tag!==\"NN\"] <s/> & 1.word=2.lemma within 3"
      ).toOption.get (by decide +kernel)
    let other := (Query.parse "7:[lc>=\"z[^xy]*\" & pos!==\"VB\"] <p> & 8.a!=9.b !containing 12"
      ).toOption.get (by decide +kernel)
    query ≠ other ∧ query.skeleton = other.skeleton ∧
      query.compile (Weights.ones : Weights Rat) = other.compile Weights.ones := by
  intro query other
  have hskeleton : query.skeleton = other.skeleton := by decide +kernel
  exact ⟨by decide +kernel, hskeleton, Query.compile_eq_of_skeleton_eq hskeleton Weights.ones⟩

end CorpusCost
