import CorpusCost.Outline.Walk
import CorpusCost.Proofs.Everywhere

/-!
# Nodes on a path

`outline.most p` is the greatest number of nodes on a path of an outline of which `p` holds. The
height of an outline is bounded by the number of constructs on a path through which the grammar
refers to itself: every kind has a rank, and a part ranks below its whole unless the whole is such a
construct, which its parts exceed by six ranks at most (`Node.rank_parts`).
-/

set_option autoImplicit false

namespace CorpusCost

/-! ## Nesting constructs -/

namespace Node

/-- Whether a node is a construct through which the grammar refers to itself. -/
def isNesting : Node → Bool
  | .atom (.group _ _) => true
  | .pairing _ => true
  | .condition (.not _) => true
  | .condition (.bracketed _ _) => true
  | .group _ => true
  | _ => false

/-- Whether a node is such a construct with its alternatives as an argument of `swap` or `ccoll`. -/
def isArgumentList : Node → Bool
  | .condition (.bracketed (.swap _) _) => true
  | .condition (.bracketed (.ccoll _ _) _) => true
  | _ => false

/-- Whether a node is any other such construct. -/
def isCounted (node : Node) : Bool := node.isNesting && !node.isArgumentList

theorem isNesting_of_isArgumentList {node : Node} (h : node.isArgumentList = true) :
    node.isNesting = true := by
  unfold isArgumentList at h
  split at h
  · rfl
  · rfl
  · cases h

end Node

/-! ## The greatest number on a path -/

namespace Outline

mutual

/-- The greatest number of nodes on a path of which `p` holds. -/
def most (p : Node → Bool) : Outline → Nat
  | .node label children => (p label).toNat + mostOfParts p children

/-- The greatest such number in a part. -/
def mostOfParts (p : Node → Bool) : List Outline → Nat
  | [] => 0
  | child :: children => max (most p child) (mostOfParts p children)

end

variable {p : Node → Bool}

@[simp] theorem most_node (label : Node) (children : List Outline) :
    most p (.node label children) = (p label).toNat + mostOfParts p children := by
  rw [most]

theorem mostOfParts_le_iff {children : List Outline} {n : Nat} :
    mostOfParts p children ≤ n ↔ ∀ child ∈ children, most p child ≤ n := by
  induction children with
  | nil => simp [mostOfParts]
  | cons child children ih => rw [mostOfParts, Nat.max_le, ih, List.forall_mem_cons]

mutual

theorem most_le_height : ∀ outline : Outline, most p outline ≤ outline.height
  | .node label children => by
    have hparts := mostOfParts_le_heightOfParts children
    have hlabel := Bool.toNat_le (p label)
    rw [most_node, height]
    omega

theorem mostOfParts_le_heightOfParts :
    ∀ children : List Outline, mostOfParts p children ≤ heightOfParts children
  | [] => Nat.zero_le _
  | child :: children => by
    have hchild := most_le_height child
    have hchildren := mostOfParts_le_heightOfParts children
    rw [mostOfParts, heightOfParts]
    omega

end

/-! ## Paths -/

/-- The number of nodes on a path of which `p` holds. -/
def countOn (p : Node → Bool) (path : Path) : Nat := path.countP fun entry => p entry.node

@[simp] theorem countOn_append_singleton (path : Path) (id : Nat) (label : Node) :
    countOn p (path ++ [⟨id, label⟩]) = countOn p path + (p label).toNat := by
  rw [countOn, List.countP_append, ← countOn]
  cases hlabel : p label <;> simp [hlabel]

theorem countOn_isNesting (path : Path) : countOn Node.isNesting path =
    countOn Node.isCounted path + countOn Node.isArgumentList path := by
  induction path with
  | nil => rfl
  | cons entry path ih =>
    simp only [countOn, List.countP_cons, Node.isCounted] at ih ⊢
    cases hlist : entry.node.isArgumentList with
    | true =>
      have hnesting := Node.isNesting_of_isArgumentList hlist
      simp only [hnesting, Bool.not_true, Bool.and_false, if_true, Bool.false_eq_true, if_false]
      omega
    | false =>
      simp only [Bool.not_false, Bool.and_true, Bool.false_eq_true, if_false]
      omega

mutual

theorem forall_pathsUnder_le_iff (p : Node → Bool) (n : Nat) :
    ∀ (outline : Outline) (ancestors : Path) (id : Nat),
      (∀ path ∈ (pathsUnder ancestors id outline).1, countOn p path ≤ n) ↔
        countOn p ancestors + outline.most p ≤ n
  | .node label children, ancestors, id => by
    have hparts := forall_pathsOfParts_le_iff p n children (ancestors ++ [⟨id, label⟩]) (id + 1)
    rw [countOn_append_singleton] at hparts
    simp only [pathsUnder, List.mem_append, List.mem_singleton, or_imp, forall_and, forall_eq,
      countOn_append_singleton, most_node]
    constructor
    · rintro ⟨hbelow, hhere⟩
      have hmost := (hparts hhere).mp hbelow
      omega
    · intro hmost
      exact ⟨(hparts (by omega)).mpr (by omega), by omega⟩

theorem forall_pathsOfParts_le_iff (p : Node → Bool) (n : Nat) :
    ∀ (children : List Outline) (ancestors : Path) (id : Nat), countOn p ancestors ≤ n →
      ((∀ path ∈ (pathsOfParts ancestors id children).1, countOn p path ≤ n) ↔
        countOn p ancestors + mostOfParts p children ≤ n)
  | [], ancestors, id, hancestors => by simpa [pathsOfParts, mostOfParts] using hancestors
  | child :: children, ancestors, id, hancestors => by
    have hchild := forall_pathsUnder_le_iff p n child ancestors id
    have hchildren := forall_pathsOfParts_le_iff p n children ancestors
      (pathsUnder ancestors id child).2 hancestors
    simp only [pathsOfParts, List.mem_append, or_imp, forall_and, hchild, hchildren, mostOfParts]
    omega

end

/-- No path holds more than `n` nodes of which `p` holds exactly if the greatest such number is no
more than `n`. -/
theorem most_le_iff {outline : Outline} {n : Nat} :
    outline.most p ≤ n ↔ ∀ path ∈ outline.paths, countOn p path ≤ n := by
  have hpaths := forall_pathsUnder_le_iff p n outline [] 0
  rw [paths, hpaths]
  simp [countOn]

theorem exists_path_of_lt_most {outline : Outline} {n : Nat} (h : n < outline.most p) :
    ∃ path ∈ outline.paths, n < countOn p path := by
  have hnot := mt most_le_iff.mpr (Nat.not_le.mpr h)
  simpa using hnot

end Outline

/-! ## Ranks of kinds -/

/-- The rank of a kind: an end of the number of nodes from a node of this kind down to where the
grammar refers to itself. -/
def Kind.rank : Kind → Nat
  | .query => 21
  | .block => 20
  | .scope => 19
  | .aligned => 18
  | .sequence => 17
  | .chain => 16
  | .element => 15
  | .atom | .union | .meet => 14
  | .position => 13
  | .labelled | .opening | .closing => 12
  | .token | .struct => 11
  | .disjunction => 10
  | .conjunction => 9
  | .condition | .pairing => 8
  | .regex => 7
  | .branch => 6
  | .group | .row => 5
  | .charClass => 4
  | .member | .quotedLiteral => 3
  | .symbol | .range | .literal | .globals => 2
  | .look | .namedClass | .rangeBounds | .anchor | .repeater | .wildcard | .questionMark | .letter
  | .repetition | .scopeNumber | .globalCondition => 1

theorem Kind.one_le_rank (kind : Kind) : 1 ≤ kind.rank := by
  cases kind <;> decide

section

variable (label : Node) (children : List Outline)

@[simp] theorem Outline.kind_node : (Outline.node label children).kind = label.kind := rfl

@[simp] theorem Outline.kind_leaf : (Outline.leaf label).kind = label.kind := rfl

end

namespace Regex

@[simp] theorem Symbol.kind_outline (symbol : Symbol) : symbol.outline.kind = .symbol := rfl

@[simp] theorem Member.kind_outline (member : Member) : member.outline.kind = .member := by
  cases member <;> rfl

theorem Atom.rank_outline_le (atom : Atom) : atom.outline.kind.rank ≤ 4 := by
  cases atom <;> simp [outline, Node.kind, Kind.rank]

theorem Piece.rank_outline_le (piece : Piece) : piece.outline.kind.rank ≤ 5 := by
  cases piece <;> simp [outline, Node.kind, Kind.rank]

theorem Piece.outlines_eq_map (pieces : List Piece) :
    Piece.outlines pieces = pieces.map Piece.outline := by
  induction pieces with
  | nil => rw [Piece.outlines, List.map_nil]
  | cons piece pieces ih => rw [Piece.outlines, ih, List.map_cons]

theorem Branch.outlines_eq_map (branches : List (List Piece)) :
    Branch.outlines branches =
      branches.map fun branch => .node (.branch branch) (branch.map Piece.outline) := by
  induction branches with
  | nil => rw [Branch.outlines, List.map_nil]
  | cons branch branches ih => rw [Branch.outlines, ih, List.map_cons, Piece.outlines_eq_map]

end Regex

@[simp] theorem Regex.kind_outline (regex : Regex) : regex.outline.kind = .regex := rfl

theorem Test.rank_outlines_le (test : Test) : ∀ part ∈ test.outlines, part.kind.rank ≤ 7 := by
  cases test with
  | exactly attr negated value => simp [Test.outlines, literalOutline, Node.kind, Kind.rank]
  | matching attr negated comparison regex => simp [Test.outlines, Kind.rank]
  | positionRange first last => simp [Test.outlines]
  | position number => simp [Test.outlines]
  | similarity keyword args =>
    cases args <;> simp [Test.outlines, SimilarityArgs.outlines, Kind.rank]

@[simp] theorem Condition.kind_outline (condition : Condition) :
    condition.outline.kind = .condition := by
  cases condition <;> rw [outline] <;> rfl

theorem Condition.outlines_eq_map (conditions : List Condition) :
    Condition.outlines conditions = conditions.map Condition.outline := by
  induction conditions with
  | nil => rw [Condition.outlines, List.map_nil]
  | cons condition conditions ih => rw [Condition.outlines, ih, List.map_cons]

theorem Conjunction.outlines_eq_map (alternatives : List (List Condition)) :
    Conjunction.outlines alternatives = alternatives.map fun conditions =>
      .node (.conjunction conditions) (conditions.map Condition.outline) := by
  induction alternatives with
  | nil => rw [Conjunction.outlines, List.map_nil]
  | cons conditions alternatives ih =>
    rw [Conjunction.outlines, ih, List.map_cons, Condition.outlines_eq_map]

@[simp] theorem Disjunction.kind_outline (alternatives : Disjunction) :
    (Disjunction.outline alternatives).kind = .disjunction := rfl

@[simp] theorem Position.kind_outline (position : Position) :
    position.outline.kind = .position := by
  rcases position with ⟨_ | label, token⟩ <;> rw [Position.outline] <;> rfl

@[simp] theorem Token.kind_outline (token : Token) : token.outline.kind = .token := by
  rcases token with (_ | alternatives) | regex | regex | _ | pairing <;> rw [outline] <;> rfl

@[simp] theorem Pairing.kind_outline (pairing : Pairing) : pairing.outline.kind = .pairing := by
  cases pairing <;> rw [outline] <;> rfl

@[simp] theorem Structure.kind_outline (struct : Structure) : struct.outline.kind = .struct := rfl

@[simp] theorem Sequence.kind_outline (sequence : Sequence) :
    sequence.outline.kind = .sequence := by
  cases sequence
  rw [Sequence.outline]
  rfl

@[simp] theorem Chain.kind_outline (chain : Chain) : chain.outline.kind = .chain := by
  cases chain
  rw [Chain.outline]
  rfl

@[simp] theorem Element.kind_outline (element : Element) : element.outline.kind = .element := by
  cases element <;> rw [outline] <;> rfl

@[simp] theorem Atom.kind_outline (atom : Atom) : atom.outline.kind = .atom := by
  cases atom <;> rw [outline] <;> rfl

@[simp] theorem Block.kind_outline (block : Block) : block.outline.kind = .block := by
  cases block
  rw [Block.outline]
  rfl

@[simp] theorem Scope.kind_outline (scope : Scope) : scope.outline.kind = .scope := by
  cases scope <;> rw [outline] <;> rfl

@[simp] theorem GlobalCondition.kind_outline (conditions : List GlobalCondition) :
    (GlobalCondition.outline conditions).kind = .globals := rfl

theorem Chain.outlines_eq_map (chains : List Chain) :
    Chain.outlines chains = chains.map Chain.outline := by
  induction chains with
  | nil => rw [Chain.outlines, List.map_nil]
  | cons chain chains ih => rw [Chain.outlines, ih, List.map_cons]

theorem Element.outlines_eq_map (elements : List Element) :
    Element.outlines elements = elements.map Element.outline := by
  induction elements with
  | nil => rw [Element.outlines, List.map_nil]
  | cons element elements ih => rw [Element.outlines, ih, List.map_cons]

theorem Block.outlines_eq_map (blocks : List Block) :
    Block.outlines blocks = blocks.map Block.outline := by
  induction blocks with
  | nil => rw [Block.outlines, List.map_nil]
  | cons block blocks ih => rw [Block.outlines, ih, List.map_cons]

section

attribute [local simp] Node.parts Node.kind Kind.rank Node.isNesting Conjunction.outlines_eq_map
  Condition.outlines_eq_map Chain.outlines_eq_map Element.outlines_eq_map Block.outlines_eq_map
  Regex.Branch.outlines_eq_map

/-- A part ranks below its whole, or at most six ranks above a construct through which the grammar
refers to itself. -/
theorem Node.rank_parts (label : Node) : ∀ part ∈ label.parts,
    part.kind.rank < label.kind.rank + 7 * label.isNesting.toNat := by
  cases label with
  | query q => rcases q with ⟨_ | s, _ | g, blocks⟩ <;> simp
  | element e => rcases e with ⟨a, _ | r⟩ | _ | _ <;> simp
  | atom a => cases a <;> simp
  | position p => rcases p with ⟨_ | n, t⟩ <;> simp
  | token t => rcases t with (_ | alternatives) | _ | _ | _ | _ <;> simp
  | pairing p => cases p <;> simp
  | struct s => rcases s with ⟨_, _ | alternatives⟩ <;> simp
  | condition c =>
    cases c with
    | test t =>
      intro part hpart
      exact Nat.lt_of_le_of_lt (t.rank_outlines_le part hpart) (by simp)
    | not inner => simp
    | bracketed bracket alternatives => simp
  | scope s => cases s <;> simp
  | branch pieces =>
    intro part hpart
    rw [parts, Regex.Piece.outlines_eq_map] at hpart
    obtain ⟨piece, -, rfl⟩ := List.mem_map.mp hpart
    exact Nat.lt_of_le_of_lt piece.rank_outline_le (by simp)
  | row atoms =>
    intro part hpart
    obtain ⟨atom, -, rfl⟩ := List.mem_map.mp hpart
    exact Nat.lt_of_le_of_lt atom.rank_outline_le (by simp)
  | member m => cases m <;> simp
  | symbol s => cases s <;> simp
  | _ => simp

end

mutual

/-- The height of a whole outline is bounded by the rank of its root and the number of nesting
constructs on a path. -/
theorem Outline.height_le : ∀ outline : Outline, outline.IsWhole →
    outline.height ≤ outline.kind.rank + 7 * outline.most Node.isNesting
  | .node label children, hwhole => by
    obtain ⟨hparts, hchildren⟩ := (isWhole_node label children).mp hwhole
    have hbelow : heightOfParts children + 1 ≤
        label.kind.rank + 7 * label.isNesting.toNat + 7 * mostOfParts Node.isNesting children := by
      refine Outline.heightOfParts_lt children hchildren ?_ ?_
      · intro child hchild
        exact label.rank_parts child (hparts ▸ hchild)
      · exact Nat.le_add_right_of_le label.kind.one_le_rank
    rw [height, most_node, kind_node]
    omega

theorem Outline.heightOfParts_lt : ∀ children : List Outline, AreWhole children → ∀ {n : Nat},
    (∀ child ∈ children, child.kind.rank < n) → 1 ≤ n →
      heightOfParts children + 1 ≤ n + 7 * mostOfParts Node.isNesting children
  | [], _, n, _, hn => by
    rw [heightOfParts]
    omega
  | child :: children, hwhole, n, hrank, hn => by
    rw [areWhole_cons] at hwhole
    rw [List.forall_mem_cons] at hrank
    have hfirst := Outline.height_le child hwhole.1
    have hothers := Outline.heightOfParts_lt children hwhole.2 hrank.2 hn
    rw [heightOfParts, mostOfParts]
    omega

end

end CorpusCost
