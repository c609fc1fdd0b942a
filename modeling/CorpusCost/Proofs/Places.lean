import CorpusCost.Proofs.Edits

/-!
# Where queries can be edited

At every place of a query its node can be edited into any other that fits the place, all else being
equal (`Query.exists_edited`): what is said of edited queries is said of edits at every place. An
edit of a part is an edit of the node that has it (`Node.editable`), and so on up to the query.
-/

set_option autoImplicit false

namespace CorpusCost

open Outline

/-! ## Places of nodes -/

/-- The second node fits the place of the first. -/
inductive Node.Fits : Node → Node → Prop where
  | query {q q'} : Fits (.query q) (.query q')
  | sequence {s s'} : Fits (.sequence s) (.sequence s')
  | chain {c c'} : Fits (.chain c) (.chain c')
  | element {e e'} : Fits (.element e) (.element e')
  | atom {a a'} : Fits (.atom a) (.atom a')
  | opening {s s' selfClosing} : Fits (.opening s selfClosing) (.opening s' selfClosing)
  | closing {s s'} : Fits (.closing s) (.closing s')
  | struct {s s'} : Fits (.struct s) (.struct s')
  | block {b b'} : Fits (.block b) (.block b')
  | scope {s s'} : Fits (.scope s) (.scope s')
  | aligned {corpus s s'} : Fits (.aligned corpus s) (.aligned corpus s')
  | globals {g g'} : Fits (.globals g) (.globals g')
  | position {p p'} : Fits (.position p) (.position p')
  | labelled {label t t'} : Fits (.labelled label t) (.labelled label t')
  | token {t t'} : Fits (.token t) (.token t')
  | pairing {p p'} : Fits (.pairing p) (.pairing p')
  | union {l l' r r'} : Fits (.union l r) (.union l' r')
  | meet {l l' r r' window} : Fits (.meet l r window) (.meet l' r' window)
  | disjunction {d d'} : Fits (.disjunction d) (.disjunction d')
  | conjunction {cs cs'} : Fits (.conjunction cs) (.conjunction cs')
  | condition {c c'} : Fits (.condition c) (.condition c')
  | quotedLiteral {v v'} : Fits (.quotedLiteral v) (.quotedLiteral v')
  | literal {v v'} : Fits (.literal v) (.literal v')
  | regex {r r'} : Fits (.regex r) (.regex r')
  | branch {b b'} : Fits (.branch b) (.branch b')
  | group {bs bs'} : Fits (.group bs) (.group bs')
  | row {atoms atoms'} : Fits (.row atoms) (.row atoms')
  | charClass {c c'} : Fits (.charClass c) (.charClass c')

theorem Node.outline_inj {node other : Node} : node.outline = other.outline ↔ node = other :=
  ⟨fun h => (Outline.node.inj h).1, congrArg Node.outline⟩

theorem Node.mem_of_outline_mem {node : Node} {nodes : List Node}
    (h : node.outline ∈ nodes.map Node.outline) : node ∈ nodes := by
  obtain ⟨other, hother, houtline⟩ := List.mem_map.mp h
  exact outline_inj.mp houtline ▸ hother

section

variable {Change : Node → Node → Prop} {node other : Node}

theorem Node.Edited.imp {Wider : Node → Node → Prop}
    (hwider : ∀ node other, Change node other → Wider node other) {n : Nat}
    (h : Node.Edited Change n node other) : Node.Edited Wider n node other := by
  induction h with
  | here h => exact .here (hwider _ _ h)
  | conditionExactly negated _ ih => exact .conditionExactly negated ih
  | conditionMatching negated _ ih => exact .conditionMatching negated ih
  | _ => constructor; assumption

/-- Changes that fit keep nodes around them fitting. -/
theorem Node.Edited.fits (hchange : ∀ node other, Change node other → node.Fits other) {n : Nat}
    (h : Node.Edited Change n node other) : node.Fits other := by
  cases h with
  | here h => exact hchange _ _ h
  | _ => constructor

/-! ## Nodes around edited parts -/

/-- Wherever a part of the node is edited the node is, if what the part becomes fits its place. -/
def Node.Editable (Change : Node → Node → Prop) (node : Node) : Prop :=
  ∀ {part changed : Node} {n : Nat}, part.outline ∈ node.parts → part.Fits changed →
    Node.Edited Change n part changed → ∃ m other, Node.Edited Change m node other

namespace Node.Editable

theorem of_nil (hparts : node.parts = []) : node.Editable Change := by
  intro part changed n hpart
  rw [hparts] at hpart
  cases hpart

/-- Where nothing fits the places of the parts no part is edited. -/
theorem of_rigid (hparts : ∀ part ∈ node.parts, ∀ changed, ¬ part.label.Fits changed) :
    node.Editable Change :=
  fun hpart hfits => absurd hfits (hparts _ hpart _)

theorem of_part (part : Node) (hparts : node.parts = [part.outline])
    (hnode : ∀ {changed n}, part.Fits changed → Node.Edited Change n part changed →
      ∃ m other, Node.Edited Change m node other) :
    node.Editable Change := by
  intro other changed n hpart
  rw [hparts, List.mem_singleton, Node.outline_inj] at hpart
  exact hpart ▸ hnode

theorem of_list {β : Type} (build : List β → Node) (xs : List β) (toNode : β → Node)
    (hparts : (build xs).parts = xs.map fun x => (toNode x).outline)
    (hnode : ∀ {before x after changed n}, (toNode x).Fits changed →
      Node.Edited Change n (toNode x) changed →
      ∃ m other, Node.Edited Change m (build (before ++ x :: after)) other) :
    (build xs).Editable Change := by
  intro part changed n hpart
  rw [hparts] at hpart
  obtain ⟨x, hx, heq⟩ := List.mem_map.mp hpart
  obtain ⟨before, after, rfl⟩ := List.append_of_mem hx
  obtain rfl := Node.outline_inj.mp heq
  exact hnode

end Node.Editable

open Node Node.Editable

/-! ## Expressions -/

theorem Regex.editable (regex : Regex) : (Node.regex regex).Editable Change := by
  obtain ⟨branches⟩ := regex
  exact of_list (.regex ⟨·⟩) branches .branch (Regex.Branch.outlines_eq branches) fun
    | .branch, h => ⟨_, _, .regex h⟩

theorem Regex.Piece.editable_group (branches : List Regex.Branch) :
    (Node.group branches).Editable Change :=
  of_list .group branches .branch (Regex.Branch.outlines_eq branches) fun
    | .branch, h => ⟨_, _, .group h⟩

theorem Regex.Branch.editable (branch : Regex.Branch) : (Node.branch branch).Editable Change := by
  intro part changed n hpart hfits h
  rw [parts, Regex.Piece.outlines_eq_map] at hpart
  obtain ⟨piece, hpiece, houtline⟩ := List.mem_map.mp hpart
  obtain ⟨before, after, rfl⟩ := List.append_of_mem hpiece
  cases piece with
  | look text =>
    rw [Regex.Piece.outline] at houtline
    obtain rfl : .look text = part := (Outline.node.inj houtline).1
    cases hfits
  | group branches =>
    obtain rfl := outline_inj.mp ((Regex.Piece.outline_group branches).symm.trans houtline)
    cases hfits
    exact ⟨_, _, .branchGroup h⟩
  | row atoms =>
    obtain rfl := outline_inj.mp ((Regex.Piece.outline_row atoms).symm.trans houtline)
    cases hfits
    exact ⟨_, _, .branchRow h⟩

theorem Regex.Piece.editable_row (atoms : List Regex.Atom) : (Node.row atoms).Editable Change := by
  intro part changed n hpart hfits h
  obtain ⟨atom, hatom, houtline⟩ := List.mem_map.mp hpart
  obtain ⟨before, after, rfl⟩ := List.append_of_mem hatom
  obtain rfl := congrArg Outline.label houtline
  cases atom with
  | charClass c =>
    cases hfits
    exact ⟨_, _, .row h⟩
  | _ => cases hfits

/-! ## Conditions -/

theorem Test.editable (test : Test) : (Node.condition (.test test)).Editable Change := by
  cases test with
  | exactly attr negated value =>
    exact of_part (.quotedLiteral value) rfl fun
      | .quotedLiteral, h => ⟨_, _, .conditionExactly negated h⟩
  | matching attr negated comparison regex =>
    exact of_part (.regex regex) rfl fun | .regex, h => ⟨_, _, .conditionMatching negated h⟩
  | positionRange first last => exact of_nil rfl
  | position number => exact of_nil rfl
  | similarity keyword args =>
    cases args with
    | numbers first second => exact of_nil rfl
    | patterns r s t =>
      intro part changed n hpart hfits h
      have hmem : part ∈ [Node.regex r, .regex s, .regex t] := mem_of_outline_mem hpart
      rw [List.mem_cons, List.mem_cons, List.mem_singleton] at hmem
      rcases hmem with rfl | rfl | rfl
      · cases hfits
        exact ⟨_, _, .similarityFirst h⟩
      · cases hfits
        exact ⟨_, _, .similaritySecond h⟩
      · cases hfits
        exact ⟨_, _, .similarityThird h⟩

theorem Condition.editable (condition : Condition) :
    (Node.condition condition).Editable Change := by
  cases condition with
  | test test => exact test.editable
  | not inner =>
    exact of_part (.condition inner) (by rw [parts, inner.outline_eq]) fun
      | .condition, h => ⟨_, _, .conditionNot h⟩
  | bracketed bracket alternatives =>
    exact of_part (.disjunction alternatives) rfl fun
      | .disjunction, h => ⟨_, _, .conditionBracketed h⟩

theorem Conjunction.editable (conditions : List Condition) :
    (Node.conjunction conditions).Editable Change := by
  refine of_list .conjunction conditions .condition ?_ fun
    | .condition, h => ⟨_, _, .conjunction h⟩
  rw [parts, Condition.outlines_eq_map]
  exact List.map_congr_left fun condition _ => condition.outline_eq

theorem Disjunction.editable (alternatives : List (List Condition)) :
    (Node.disjunction alternatives).Editable Change :=
  of_list .disjunction alternatives .conjunction (Conjunction.outlines_eq alternatives) fun
    | .conjunction, h => ⟨_, _, .disjunction h⟩

/-! ## Tokens -/

theorem Token.editable (token : Token) : (Node.token token).Editable Change := by
  cases token with
  | conditions alternatives =>
    cases alternatives with
    | none => exact of_nil rfl
    | some alternatives =>
      exact of_part (.disjunction alternatives) rfl fun
        | .disjunction, h => ⟨_, _, .tokenConditions h⟩
  | word regex => exact of_part (.regex regex) rfl fun | .regex, h => ⟨_, _, .tokenWord h⟩
  | anchored number regex =>
    exact of_part (.regex regex) rfl fun | .regex, h => ⟨_, _, .tokenAnchored h⟩
  | mu => exact of_nil rfl
  | pairing pairing =>
    exact of_part (.pairing pairing) (by rw [parts, pairing.outline_eq]) fun
      | .pairing, h => ⟨_, _, .tokenPairing h⟩

theorem Position.editable (position : Position) : (Node.position position).Editable Change := by
  obtain ⟨_ | label, token⟩ := position
  · exact of_part (.token token) (by rw [parts, token.outline_eq]) fun
      | .token, h => ⟨_, _, .position h⟩
  · exact of_part (.labelled label token) rfl fun | .labelled, h => ⟨_, _, .positionLabelled h⟩

theorem Pairing.editable (pairing : Pairing) : (Node.pairing pairing).Editable Change := by
  cases pairing with
  | union left right =>
    exact of_part (.union left right) rfl fun | .union, h => ⟨_, _, .pairingUnion h⟩
  | meet left right window =>
    exact of_part (.meet left right window) rfl fun | .meet, h => ⟨_, _, .pairingMeet h⟩

theorem Position.eq_of_outline_mem {part : Node} {left right : Position}
    (h : part.outline ∈ [left.outline, right.outline]) :
    part = .position left ∨ part = .position right := by
  rw [left.outline_eq, right.outline_eq] at h
  have hmem : part ∈ [Node.position left, .position right] := mem_of_outline_mem h
  rwa [List.mem_cons, List.mem_singleton] at hmem

theorem Pairing.editable_union (left right : Position) :
    (Node.union left right).Editable Change := by
  intro part changed n hpart hfits h
  obtain rfl | rfl := Position.eq_of_outline_mem hpart
  · cases hfits
    exact ⟨_, _, .unionLeft h⟩
  · cases hfits
    exact ⟨_, _, .unionRight h⟩

theorem Pairing.editable_meet (left right : Position) (window : Option (Int × Int)) :
    (Node.meet left right window).Editable Change := by
  intro part changed n hpart hfits h
  obtain rfl | rfl := Position.eq_of_outline_mem hpart
  · cases hfits
    exact ⟨_, _, .meetLeft h⟩
  · cases hfits
    exact ⟨_, _, .meetRight h⟩

/-! ## Chains and blocks -/

theorem Structure.editable (struct : Structure) : (Node.struct struct).Editable Change := by
  obtain ⟨name, _ | alternatives⟩ := struct
  · exact of_nil rfl
  · exact of_part (.disjunction alternatives) rfl fun | .disjunction, h => ⟨_, _, .struct h⟩

theorem Sequence.editable (sequence : Sequence) : (Node.sequence sequence).Editable Change := by
  obtain ⟨chains⟩ := sequence
  refine of_list (.sequence ⟨·⟩) chains .chain ?_ fun | .chain, h => ⟨_, _, .sequence h⟩
  rw [parts, Chain.outlines_eq_map]
  exact List.map_congr_left fun chain _ => chain.outline_eq

theorem Chain.editable (chain : Chain) : (Node.chain chain).Editable Change := by
  obtain ⟨negated, elements⟩ := chain
  refine of_list (.chain ⟨negated, ·⟩) elements .element ?_ fun | .element, h => ⟨_, _, .chain h⟩
  rw [parts, Element.outlines_eq_map]
  exact List.map_congr_left fun element _ => element.outline_eq

theorem Element.editable (element : Element) : (Node.element element).Editable Change := by
  cases element with
  | atom atom repetition =>
    intro part changed n hpart hfits h
    rw [parts, atom.outline_eq] at hpart
    rcases List.mem_cons.mp hpart with hatom | hrepetition
    · obtain rfl := outline_inj.mp hatom
      cases hfits
      exact ⟨_, _, .elementAtom h⟩
    · cases repetition with
      | none => cases hrepetition
      | some repetition =>
        obtain rfl : part = .repetition repetition :=
          (Outline.node.inj (List.mem_singleton.mp hrepetition)).1
        cases hfits
  | opening struct selfClosing =>
    exact of_part (.opening struct selfClosing) rfl fun | .opening, h => ⟨_, _, .elementOpening h⟩
  | closing struct =>
    exact of_part (.closing struct) rfl fun | .closing, h => ⟨_, _, .elementClosing h⟩

theorem Block.exists_of_outline_mem {part : Node} {blocks : List Block}
    (h : part.outline ∈ Block.outlines blocks) : ∃ b ∈ blocks, part = .block b := by
  rw [Block.outlines_eq_map] at h
  obtain ⟨b, hb, houtline⟩ := List.mem_map.mp h
  rw [b.outline_eq] at houtline
  exact ⟨b, hb, (outline_inj.mp houtline).symm⟩

theorem Atom.editable (atom : Atom) : (Node.atom atom).Editable Change := by
  cases atom with
  | position position =>
    exact of_part (.position position) (by rw [parts, position.outline_eq]) fun
      | .position, h => ⟨_, _, .atomPosition h⟩
  | group sequence blocks =>
    intro part changed n hpart hfits h
    rw [parts, sequence.outline_eq] at hpart
    rcases List.mem_cons.mp hpart with hsequence | hblock
    · obtain rfl := outline_inj.mp hsequence
      cases hfits
      exact ⟨_, _, .groupSequence h⟩
    · obtain ⟨b, hb, rfl⟩ := Block.exists_of_outline_mem hblock
      obtain ⟨before, after, rfl⟩ := List.append_of_mem hb
      cases hfits
      exact ⟨_, _, .groupBlock h⟩

theorem Scope.editable (scope : Scope) : (Node.scope scope).Editable Change := by
  cases scope with
  | sequence sequence =>
    exact of_part (.sequence sequence) (by rw [parts, sequence.outline_eq]) fun
      | .sequence, h => ⟨_, _, .scopeSequence h⟩
  | number number => exact of_part (.scopeNumber number) rfl nofun
  | aligned negated corpus sequence =>
    exact of_part (.aligned corpus sequence) rfl fun | .aligned, h => ⟨_, _, .scopeAligned h⟩

theorem Query.editable (query : Query) : (Node.query query).Editable Change := by
  obtain ⟨sequence, globals, blocks⟩ := query
  intro part changed n hpart hfits h
  rcases List.mem_append.mp hpart with hfront | hblock
  · rcases List.mem_append.mp hfront with hsequence | hglobals
    · cases sequence with
      | none => cases hsequence
      | some sequence =>
        obtain rfl : part = .sequence sequence :=
          outline_inj.mp ((List.mem_singleton.mp hsequence).trans sequence.outline_eq)
        cases hfits
        exact ⟨_, _, .querySequence h⟩
    · cases globals with
      | none => cases hglobals
      | some conditions =>
        obtain rfl : part = .globals conditions := outline_inj.mp (List.mem_singleton.mp hglobals)
        cases hfits
        exact ⟨_, _, .queryGlobals h⟩
  · obtain ⟨b, hb, rfl⟩ := Block.exists_of_outline_mem hblock
    obtain ⟨before, after, rfl⟩ := List.append_of_mem hb
    cases hfits
    exact ⟨_, _, .queryBlock h⟩

/-! ## All nodes -/

/-- Every node is edited wherever a part of it is. -/
theorem Node.editable (node : Node) : node.Editable Change := by
  cases node with
  | query query => exact query.editable
  | sequence sequence => exact sequence.editable
  | chain chain => exact chain.editable
  | element element => exact element.editable
  | atom atom => exact atom.editable
  | position position => exact position.editable
  | labelled label token =>
    exact of_part (.token token) (by rw [parts, token.outline_eq]) fun
      | .token, h => ⟨_, _, .labelled h⟩
  | token token => exact token.editable
  | pairing pairing => exact pairing.editable
  | union left right => exact Pairing.editable_union left right
  | meet left right window => exact Pairing.editable_meet left right window
  | opening struct selfClosing =>
    exact of_part (.struct struct) rfl fun | .struct, h => ⟨_, _, .opening h⟩
  | closing struct => exact of_part (.struct struct) rfl fun | .struct, h => ⟨_, _, .closing h⟩
  | struct struct => exact struct.editable
  | disjunction alternatives => exact Disjunction.editable alternatives
  | conjunction conditions => exact Conjunction.editable conditions
  | condition condition => exact condition.editable
  | block block =>
    obtain ⟨negated, keyword, scope⟩ := block
    exact of_part (.scope scope) (by rw [parts, scope.outline_eq]) fun
      | .scope, h => ⟨_, _, .block h⟩
  | scope scope => exact scope.editable
  | aligned corpus sequence =>
    exact of_part (.sequence sequence) (by rw [parts, sequence.outline_eq]) fun
      | .sequence, h => ⟨_, _, .aligned h⟩
  | regex regex => exact regex.editable
  | branch branch => exact Regex.Branch.editable branch
  | group branches => exact Regex.Piece.editable_group branches
  | row atoms => exact Regex.Piece.editable_row atoms
  | quotedLiteral value =>
    exact of_part (.literal value) rfl fun | .literal, h => ⟨_, _, .quotedLiteral h⟩
  -- nodes whose parts nothing else fits the places of
  | globals conditions =>
    refine of_rigid fun part hpart changed hfits => ?_
    obtain ⟨condition, -, rfl⟩ := List.mem_map.mp hpart
    cases hfits
  | literal value =>
    refine of_rigid fun part hpart changed hfits => ?_
    obtain ⟨letter, -, rfl⟩ := List.mem_map.mp hpart
    cases hfits
  | charClass members =>
    refine of_rigid fun part hpart changed hfits => ?_
    obtain ⟨member, -, rfl⟩ := List.mem_map.mp hpart
    cases hfits
  | member member =>
    cases member with
    | symbol sign => exact of_part (.symbol sign) (by cases sign <;> rfl) nofun
    | _ => exact of_nil rfl
  | symbol sign =>
    cases sign with
    | literal text propertyClass => exact of_nil rfl
    | anchor sign => exact of_part (.anchor sign) rfl nofun
    | repeater sign => exact of_part (.repeater sign) rfl nofun
    | any => exact of_part .wildcard rfl nofun
    | questionMark => exact of_part .questionMark rfl nofun
  | range bounds => exact of_part (.rangeBounds bounds) rfl nofun
  | _ => exact of_nil rfl

/-! ## Queries -/

theorem Outline.IsWhole.eq_outline {outline : Outline} (h : outline.IsWhole) :
    outline = outline.label.outline := by
  cases outline with
  | node label children =>
    obtain ⟨rfl, -⟩ := (isWhole_node label children).mp h
    rfl

/-- Whether `goal` holds of all changes that fit under which the node can be edited. -/
def Node.LeadsTo (goal : (Node → Node → Prop) → Prop) (node : Node) : Prop :=
  ∀ Change : Node → Node → Prop, (∀ node other, Change node other → node.Fits other) →
    ∀ n other, Node.Edited Change n node other → goal Change

variable {goal : (Node → Node → Prop) → Prop}

/-- An edit of a part leads where the edit of the node leads. -/
theorem Node.LeadsTo.part {part : Node} (h : node.LeadsTo goal)
    (hpart : part.outline ∈ node.parts) : part.LeadsTo goal := by
  intro Change hchange n other hedited
  obtain ⟨m, around, haround⟩ := node.editable hpart (hedited.fits hchange) hedited
  exact h Change hchange m around haround

theorem Outline.everywhere_leadsTo (outline : Outline) : outline.IsWhole →
    outline.label.LeadsTo goal → outline.Everywhere fun node _ => node.LeadsTo goal := by
  refine outline.rec
    (motive_1 := fun outline => outline.IsWhole → outline.label.LeadsTo goal →
      outline.Everywhere fun node _ => node.LeadsTo goal)
    (motive_2 := fun outlines => AreWhole outlines → (∀ o ∈ outlines, o.label.LeadsTo goal) →
      EverywhereIn (fun node _ => node.LeadsTo goal) outlines) ?_ ?_ ?_
  · intro label children ih hwhole hlabel
    obtain ⟨rfl, hchildren⟩ := (isWhole_node label children).mp hwhole
    rw [everywhere_node]
    refine ⟨hlabel, ih hchildren fun child hchild => hlabel.part ?_⟩
    rwa [← ((areWhole_iff _).mp hchildren child hchild).eq_outline]
  · exact fun _ _ => everywhereIn_nil
  · intro child children ih ihs hwhole hlabels
    obtain ⟨hchild, hchildren⟩ := (areWhole_cons child children).mp hwhole
    rw [everywhereIn_cons]
    exact ⟨ih hchild (hlabels child List.mem_cons_self),
      ihs hchildren fun o hmem => hlabels o (List.mem_cons_of_mem child hmem)⟩

/-- At every place of a query its node can be replaced by any node that fits the place. -/
theorem Query.exists_edited (query : Query) :
    query.outline.Everywhere fun node _ => ∀ changed, node.Fits changed →
      ∃ n other, Query.Edited (fun before after => before = node ∧ after = changed) n query
        other := by
  have hquery : (Node.query query).LeadsTo fun Change =>
      ∃ n other, Query.Edited Change n query other := by
    intro Change hchange n other h
    cases h.fits hchange
    exact ⟨n, _, h⟩
  refine Everywhere.imp (fun node _ hnode changed hfits => ?_) query.outline
    (everywhere_leadsTo query.outline query.isWhole_outline hquery)
  refine hnode _ ?_ 0 changed (.here ⟨rfl, rfl⟩)
  rintro _ _ ⟨rfl, rfl⟩
  exact hfits

end

end CorpusCost
