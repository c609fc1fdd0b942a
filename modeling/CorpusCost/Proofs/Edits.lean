import CorpusCost.Proofs.Depth
import CorpusCost.Proofs.Roles

/-!
# Queries that differ at one node

`Node.Edited Change` is the closure of a change of one node under all that a node can stand in: the
second node differs from the first in that one node below it is changed, all else being equal. Its
index is the number of negated conditions that the changed node lies under.

The outlines of the two nodes differ at the same place (`Node.Edited.outline`). On the way to it the
nodes have the same roles, so that an edit reaches the cost of a node only through the one part that
it lies in.
-/

set_option autoImplicit false

namespace CorpusCost

open Outline

/-! ## Edits of nodes -/

/-- The second node is the first with one node in it, or the whole of it, changed, under the given
number of negated conditions. -/
inductive Node.Edited (Change : Node → Node → Prop) : Nat → Node → Node → Prop where
  | here {node other} (h : Change node other) : Edited Change 0 node other
  -- queries
  | querySequence {n s s' globals blocks} (h : Edited Change n (.sequence s) (.sequence s')) :
    Edited Change n (.query ⟨some s, globals, blocks⟩) (.query ⟨some s', globals, blocks⟩)
  | queryGlobals {n s g g' blocks} (h : Edited Change n (.globals g) (.globals g')) :
    Edited Change n (.query ⟨s, some g, blocks⟩) (.query ⟨s, some g', blocks⟩)
  | queryBlock {n s globals before b b' after} (h : Edited Change n (.block b) (.block b')) :
    Edited Change n (.query ⟨s, globals, before ++ b :: after⟩)
      (.query ⟨s, globals, before ++ b' :: after⟩)
  -- sequences
  | sequence {n before c c' after} (h : Edited Change n (.chain c) (.chain c')) :
    Edited Change n (.sequence ⟨before ++ c :: after⟩) (.sequence ⟨before ++ c' :: after⟩)
  | chain {n negated before e e' after} (h : Edited Change n (.element e) (.element e')) :
    Edited Change n (.chain ⟨negated, before ++ e :: after⟩)
      (.chain ⟨negated, before ++ e' :: after⟩)
  | elementAtom {n a a' repetition} (h : Edited Change n (.atom a) (.atom a')) :
    Edited Change n (.element (.atom a repetition)) (.element (.atom a' repetition))
  | elementOpening {n s s' selfClosing}
      (h : Edited Change n (.opening s selfClosing) (.opening s' selfClosing)) :
    Edited Change n (.element (.opening s selfClosing)) (.element (.opening s' selfClosing))
  | elementClosing {n s s'} (h : Edited Change n (.closing s) (.closing s')) :
    Edited Change n (.element (.closing s)) (.element (.closing s'))
  | opening {n s s' selfClosing} (h : Edited Change n (.struct s) (.struct s')) :
    Edited Change n (.opening s selfClosing) (.opening s' selfClosing)
  | closing {n s s'} (h : Edited Change n (.struct s) (.struct s')) :
    Edited Change n (.closing s) (.closing s')
  | struct {n name d d'} (h : Edited Change n (.disjunction d) (.disjunction d')) :
    Edited Change n (.struct ⟨name, some d⟩) (.struct ⟨name, some d'⟩)
  | atomPosition {n p p'} (h : Edited Change n (.position p) (.position p')) :
    Edited Change n (.atom (.position p)) (.atom (.position p'))
  | groupSequence {n s s' blocks} (h : Edited Change n (.sequence s) (.sequence s')) :
    Edited Change n (.atom (.group s blocks)) (.atom (.group s' blocks))
  | groupBlock {n s before b b' after} (h : Edited Change n (.block b) (.block b')) :
    Edited Change n (.atom (.group s (before ++ b :: after)))
      (.atom (.group s (before ++ b' :: after)))
  -- blocks
  | block {n negated keyword s s'} (h : Edited Change n (.scope s) (.scope s')) :
    Edited Change n (.block ⟨negated, keyword, s⟩) (.block ⟨negated, keyword, s'⟩)
  | scopeSequence {n s s'} (h : Edited Change n (.sequence s) (.sequence s')) :
    Edited Change n (.scope (.sequence s)) (.scope (.sequence s'))
  | scopeAligned {n negated corpus s s'}
      (h : Edited Change n (.aligned corpus s) (.aligned corpus s')) :
    Edited Change n (.scope (.aligned negated corpus s)) (.scope (.aligned negated corpus s'))
  | aligned {n corpus s s'} (h : Edited Change n (.sequence s) (.sequence s')) :
    Edited Change n (.aligned corpus s) (.aligned corpus s')
  -- tokens
  | position {n t t'} (h : Edited Change n (.token t) (.token t')) :
    Edited Change n (.position ⟨none, t⟩) (.position ⟨none, t'⟩)
  | positionLabelled {n label t t'}
      (h : Edited Change n (.labelled label t) (.labelled label t')) :
    Edited Change n (.position ⟨some label, t⟩) (.position ⟨some label, t'⟩)
  | labelled {n label t t'} (h : Edited Change n (.token t) (.token t')) :
    Edited Change n (.labelled label t) (.labelled label t')
  | tokenConditions {n d d'} (h : Edited Change n (.disjunction d) (.disjunction d')) :
    Edited Change n (.token (.conditions (some d))) (.token (.conditions (some d')))
  | tokenWord {n r r'} (h : Edited Change n (.regex r) (.regex r')) :
    Edited Change n (.token (.word r)) (.token (.word r'))
  | tokenAnchored {n number r r'} (h : Edited Change n (.regex r) (.regex r')) :
    Edited Change n (.token (.anchored number r)) (.token (.anchored number r'))
  | tokenPairing {n p p'} (h : Edited Change n (.pairing p) (.pairing p')) :
    Edited Change n (.token (.pairing p)) (.token (.pairing p'))
  | pairingUnion {n l l' r r'} (h : Edited Change n (.union l r) (.union l' r')) :
    Edited Change n (.pairing (.union l r)) (.pairing (.union l' r'))
  | pairingMeet {n l l' r r' window}
      (h : Edited Change n (.meet l r window) (.meet l' r' window)) :
    Edited Change n (.pairing (.meet l r window)) (.pairing (.meet l' r' window))
  | unionLeft {n l l' r} (h : Edited Change n (.position l) (.position l')) :
    Edited Change n (.union l r) (.union l' r)
  | unionRight {n l r r'} (h : Edited Change n (.position r) (.position r')) :
    Edited Change n (.union l r) (.union l r')
  | meetLeft {n l l' r window} (h : Edited Change n (.position l) (.position l')) :
    Edited Change n (.meet l r window) (.meet l' r window)
  | meetRight {n l r r' window} (h : Edited Change n (.position r) (.position r')) :
    Edited Change n (.meet l r window) (.meet l r' window)
  -- conditions
  | disjunction {n before cs cs' after} (h : Edited Change n (.conjunction cs) (.conjunction cs')) :
    Edited Change n (.disjunction (before ++ cs :: after)) (.disjunction (before ++ cs' :: after))
  | conjunction {n before c c' after} (h : Edited Change n (.condition c) (.condition c')) :
    Edited Change n (.conjunction (before ++ c :: after)) (.conjunction (before ++ c' :: after))
  | conditionNot {n c c'} (h : Edited Change n (.condition c) (.condition c')) :
    Edited Change (n + 1) (.condition (.not c)) (.condition (.not c'))
  | conditionBracketed {n bracket d d'} (h : Edited Change n (.disjunction d) (.disjunction d')) :
    Edited Change n (.condition (.bracketed bracket d)) (.condition (.bracketed bracket d'))
  | conditionExactly {n attr v v'} (negated : Bool)
      (h : Edited Change n (.quotedLiteral v) (.quotedLiteral v')) :
    Edited Change (n + negated.toNat) (.condition (.test (.exactly attr negated v)))
      (.condition (.test (.exactly attr negated v')))
  | conditionMatching {n attr comparison r r'} (negated : Bool)
      (h : Edited Change n (.regex r) (.regex r')) :
    Edited Change (n + negated.toNat) (.condition (.test (.matching attr negated comparison r)))
      (.condition (.test (.matching attr negated comparison r')))
  | similarityFirst {n keyword r r' s t} (h : Edited Change n (.regex r) (.regex r')) :
    Edited Change n (.condition (.test (.similarity keyword (.patterns r s t))))
      (.condition (.test (.similarity keyword (.patterns r' s t))))
  | similaritySecond {n keyword r s s' t} (h : Edited Change n (.regex s) (.regex s')) :
    Edited Change n (.condition (.test (.similarity keyword (.patterns r s t))))
      (.condition (.test (.similarity keyword (.patterns r s' t))))
  | similarityThird {n keyword r s t t'} (h : Edited Change n (.regex t) (.regex t')) :
    Edited Change n (.condition (.test (.similarity keyword (.patterns r s t))))
      (.condition (.test (.similarity keyword (.patterns r s t'))))
  | quotedLiteral {n v v'} (h : Edited Change n (.literal v) (.literal v')) :
    Edited Change n (.quotedLiteral v) (.quotedLiteral v')
  -- expressions
  | regex {n before b b' after} (h : Edited Change n (.branch b) (.branch b')) :
    Edited Change n (.regex ⟨before ++ b :: after⟩) (.regex ⟨before ++ b' :: after⟩)
  | group {n before b b' after} (h : Edited Change n (.branch b) (.branch b')) :
    Edited Change n (.group (before ++ b :: after)) (.group (before ++ b' :: after))
  | branchGroup {n before bs bs' after} (h : Edited Change n (.group bs) (.group bs')) :
    Edited Change n (.branch (before ++ .group bs :: after))
      (.branch (before ++ .group bs' :: after))
  | branchRow {n before atoms atoms' after} (h : Edited Change n (.row atoms) (.row atoms')) :
    Edited Change n (.branch (before ++ .row atoms :: after))
      (.branch (before ++ .row atoms' :: after))
  | row {n before c c' after} (h : Edited Change n (.charClass c) (.charClass c')) :
    Edited Change n (.row (before ++ .charClass c :: after))
      (.row (before ++ .charClass c' :: after))

/-- The second query is the first with one node in it changed, under the given number of negated
conditions. -/
def Query.Edited (Change : Node → Node → Prop) (n : Nat) (query other : Query) : Prop :=
  Node.Edited Change n (.query query) (.query other)

/-! ## Outlines of nodes -/

/-- The outline of a node and its parts. -/
def Node.outline (node : Node) : Outline := .node node node.parts

theorem Regex.Branch.outlines_eq (branches : List (List Regex.Piece)) :
    Regex.Branch.outlines branches = branches.map fun branch => (Node.branch branch).outline := by
  rw [Regex.Branch.outlines_eq_map]
  refine List.map_congr_left fun branch _ => ?_
  rw [Node.outline, Node.parts, Regex.Piece.outlines_eq_map]

theorem Regex.Atom.outline_charClass (charClass : Regex.CharClass) :
    (Regex.Atom.charClass charClass).outline = (Node.charClass charClass).outline := rfl

theorem Regex.Piece.outline_group (branches : List (List Regex.Piece)) :
    (Regex.Piece.group branches).outline = (Node.group branches).outline := by
  rw [Regex.Piece.outline]
  rfl

theorem Regex.Piece.outline_row (atoms : List Regex.Atom) :
    (Regex.Piece.row atoms).outline = (Node.row atoms).outline := by
  rw [Regex.Piece.outline]
  rfl

theorem Condition.outline_eq (condition : Condition) :
    condition.outline = (Node.condition condition).outline := by
  cases condition <;> rw [Condition.outline] <;> rfl

theorem Conjunction.outlines_eq (alternatives : List (List Condition)) :
    Conjunction.outlines alternatives =
      alternatives.map fun conditions => (Node.conjunction conditions).outline := by
  rw [Conjunction.outlines_eq_map]
  refine List.map_congr_left fun conditions _ => ?_
  rw [Node.outline, Node.parts, Condition.outlines_eq_map]

theorem Position.outline_eq (position : Position) :
    position.outline = (Node.position position).outline := by
  rcases position with ⟨_ | label, token⟩ <;> rw [Position.outline] <;> rfl

theorem Token.outline_eq (token : Token) : token.outline = (Node.token token).outline := by
  rcases token with (_ | alternatives) | regex | regex | _ | pairing <;> rw [Token.outline] <;> rfl

theorem Pairing.outline_eq (pairing : Pairing) :
    pairing.outline = (Node.pairing pairing).outline := by
  cases pairing <;> rw [Pairing.outline] <;> rfl

theorem Sequence.outline_eq (sequence : Sequence) :
    sequence.outline = (Node.sequence sequence).outline := by
  cases sequence
  rw [Sequence.outline]
  rfl

theorem Chain.outline_eq (chain : Chain) : chain.outline = (Node.chain chain).outline := by
  cases chain
  rw [Chain.outline]
  rfl

theorem Element.outline_eq (element : Element) :
    element.outline = (Node.element element).outline := by
  cases element <;> rw [Element.outline] <;> rfl

theorem Atom.outline_eq (atom : Atom) : atom.outline = (Node.atom atom).outline := by
  cases atom <;> rw [Atom.outline] <;> rfl

theorem Block.outline_eq (block : Block) : block.outline = (Node.block block).outline := by
  cases block
  rw [Block.outline]
  rfl

theorem GlobalCondition.outline_eq (conditions : List GlobalCondition) :
    GlobalCondition.outline conditions = (Node.globals conditions).outline := rfl

theorem Scope.outline_eq (scope : Scope) : scope.outline = (Node.scope scope).outline := by
  cases scope <;> rw [Scope.outline] <;> rfl

/-! ## Edits of outlines -/

/-- What an edit of a part keeps of the node that has the part: its role, and that the part is no
sign for any character. -/
structure Node.Keeps (node other part changed : Node) : Prop where
  role : node.role = other.role
  part : part.isWildcardSymbol = false
  changed : changed.isWildcardSymbol = false

/-- The second outline is the first with one node changed, under the given number of negated
conditions. -/
inductive Outline.Edited (Change : Node → Node → Prop) : Nat → Outline → Outline → Prop where
  | here {node other} (h : Change node other) : Edited Change 0 node.outline other.outline
  | inside {n} {label other : Node} {before : List Outline} {part changed : Outline}
      {after : List Outline} (hkeeps : label.Keeps other part.label changed.label)
      (h : Edited Change n part changed) :
    Edited Change (n + label.isNegation.toNat) (.node label (before ++ part :: after))
      (.node other (before ++ changed :: after))

section

variable {Change : Node → Node → Prop} {n m : Nat} {node other part changed : Node}

/-- An edit of a part is an edit of the node that has the part, one negation further down if the
node is a negated condition. -/
theorem Outline.Edited.of_parts (h : Edited Change n part.outline changed.outline)
    (hkeeps : node.Keeps other part changed) (hnegations : n + node.isNegation.toNat = m)
    (before after : List Outline) (hparts : node.parts = before ++ part.outline :: after)
    (hothers : other.parts = before ++ changed.outline :: after) :
    Edited Change m node.outline other.outline := by
  rw [Node.outline, Node.outline, hparts, hothers, ← hnegations]
  exact .inside hkeeps h

/-- The same for a node with no other parts. -/
theorem Outline.Edited.of_part (h : Edited Change n part.outline changed.outline)
    (hkeeps : node.Keeps other part changed) (hnegations : n + node.isNegation.toNat = m)
    (hparts : node.parts = [part.outline]) (hothers : other.parts = [changed.outline]) :
    Edited Change m node.outline other.outline :=
  h.of_parts hkeeps hnegations [] [] hparts hothers

attribute [local simp] Node.parts Regex.Branch.outlines_eq Regex.Piece.outlines_eq_map
  Regex.Piece.outline_group Regex.Piece.outline_row Condition.outlines_eq_map Condition.outline_eq
  Conjunction.outlines_eq Position.outline_eq Token.outline_eq Pairing.outline_eq
  Sequence.outline_eq Chain.outlines_eq_map Chain.outline_eq Element.outlines_eq_map
  Element.outline_eq Atom.outline_eq Block.outlines_eq_map Block.outline_eq Scope.outline_eq
  GlobalCondition.outline_eq Regex.Atom.outline_charClass

/-- Where a node is edited its outline is. -/
theorem Node.Edited.outline (h : Node.Edited Change n node other) :
    Outline.Edited Change n node.outline other.outline := by
  induction h with
  | here h => exact .here h
  -- nodes whose only part is edited
  | elementOpening h ih | elementClosing h ih | opening h ih | closing h ih | struct h ih
  | scopeAligned h ih | positionLabelled h ih | tokenConditions h ih | tokenWord h ih
  | tokenAnchored h ih | pairingUnion h ih | pairingMeet h ih | conditionBracketed h ih
  | conditionExactly negated h ih | conditionMatching negated h ih | quotedLiteral h ih =>
    exact ih.of_part ⟨rfl, rfl, rfl⟩ rfl rfl rfl
  | atomPosition h ih | block h ih | scopeSequence h ih | aligned h ih | position h ih
  | labelled h ih | tokenPairing h ih | conditionNot h ih =>
    exact ih.of_part ⟨rfl, rfl, rfl⟩ rfl (by simp) (by simp)
  -- nodes with other parts of other kinds
  | @querySequence n s s' globals blocks h ih =>
    exact ih.of_parts ⟨rfl, rfl, rfl⟩ rfl []
      ((globals.map GlobalCondition.outline).toList ++ Block.outlines blocks) (by simp) (by simp)
  | @queryGlobals n s g g' blocks h ih =>
    exact ih.of_parts ⟨rfl, rfl, rfl⟩ rfl (s.map Sequence.outline).toList (Block.outlines blocks)
      (by simp) (by simp)
  | @queryBlock n s globals before b b' after h ih =>
    exact ih.of_parts ⟨rfl, rfl, rfl⟩ rfl ((s.map Sequence.outline).toList ++
      (globals.map GlobalCondition.outline).toList ++ Block.outlines before) (Block.outlines after)
      (by simp) (by simp)
  | @elementAtom n a a' repetition h ih =>
    exact ih.of_parts ⟨rfl, rfl, rfl⟩ rfl [] (repetition.map fun r => leaf (.repetition r)).toList
      (by simp) (by simp)
  | @groupSequence n s s' blocks h ih =>
    exact ih.of_parts ⟨rfl, rfl, rfl⟩ rfl [] (Block.outlines blocks) (by simp) (by simp)
  | @groupBlock n s before b b' after h ih =>
    exact ih.of_parts ⟨rfl, rfl, rfl⟩ rfl (s.outline :: Block.outlines before)
      (Block.outlines after) (by simp) (by simp)
  -- nodes with two or three parts of one kind
  | @unionLeft n l l' r h ih | @meetLeft n l l' r window h ih =>
    exact ih.of_parts ⟨rfl, rfl, rfl⟩ rfl [] [r.outline] (by simp) (by simp)
  | @unionRight n l r r' h ih | @meetRight n l r r' window h ih =>
    exact ih.of_parts ⟨rfl, rfl, rfl⟩ rfl [l.outline] [] (by simp) (by simp)
  | @similarityFirst n keyword r r' s t h ih =>
    exact ih.of_parts ⟨rfl, rfl, rfl⟩ rfl [] [s.outline, t.outline] rfl rfl
  | @similaritySecond n keyword r s s' t h ih =>
    exact ih.of_parts ⟨rfl, rfl, rfl⟩ rfl [r.outline] [t.outline] rfl rfl
  | @similarityThird n keyword r s t t' h ih =>
    exact ih.of_parts ⟨rfl, rfl, rfl⟩ rfl [r.outline, s.outline] [] rfl rfl
  -- nodes with any number of parts of one kind
  | @sequence n before c c' after h ih =>
    exact ih.of_parts ⟨rfl, rfl, rfl⟩ rfl (Chain.outlines before) (Chain.outlines after)
      (by simp) (by simp)
  | @chain n negated before e e' after h ih =>
    exact ih.of_parts ⟨rfl, rfl, rfl⟩ rfl (Element.outlines before) (Element.outlines after)
      (by simp) (by simp)
  | @disjunction n before cs cs' after h ih =>
    exact ih.of_parts ⟨rfl, rfl, rfl⟩ rfl (Conjunction.outlines before)
      (Conjunction.outlines after) (by simp) (by simp)
  | @conjunction n before c c' after h ih =>
    exact ih.of_parts ⟨rfl, rfl, rfl⟩ rfl (Condition.outlines before) (Condition.outlines after)
      (by simp) (by simp)
  | @regex n before b b' after h ih | @group n before b b' after h ih =>
    exact ih.of_parts ⟨rfl, rfl, rfl⟩ rfl (Regex.Branch.outlines before)
      (Regex.Branch.outlines after) (by simp) (by simp)
  | @branchGroup n before bs bs' after h ih | @branchRow n before atoms atoms' after h ih =>
    exact ih.of_parts ⟨rfl, rfl, rfl⟩ rfl (Regex.Piece.outlines before)
      (Regex.Piece.outlines after) (by simp) (by simp)
  | @row n before c c' after h ih =>
    exact ih.of_parts ⟨rfl, rfl, rfl⟩ rfl (before.map Regex.Atom.outline)
      (after.map Regex.Atom.outline) (by simp) (by simp)

end

end CorpusCost
