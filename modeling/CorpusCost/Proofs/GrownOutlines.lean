import CorpusCost.Proofs.Depth
import CorpusCost.Proofs.QueryReadBack
import CorpusCost.Proofs.WellFormed

/-!
# What grows at a nesting

What a reader yields at some nesting has grown there (`Outline.Grown`): every node is well-formed,
and a construct that counts is only read where a bracket may still be opened, with its parts one
bracket deeper. All others read their parts at their own depth; the arguments of `swap` and `ccoll`
are read at the depth of the condition that they stand in, so the constructs in them are counted,
and the lists themselves are not. The readers are gone through once, from the innermost to the whole
query; that no path holds more counted constructs than brackets may be opened, and that every node
is well-formed, follows for whatever has grown.
-/

set_option autoImplicit false

namespace CorpusCost

open CorpusCost.Parser

/-- Whether an outline holds no more counted constructs on a path than brackets may be opened. -/
def Parser.Nesting.Fits (nesting : Nesting) (outline : Outline) : Prop :=
  ∀ limit, nesting.limit = some limit → outline.most Node.isCounted ≤ limit - nesting.depth

namespace Outline

/-- What may be read at a nesting. -/
inductive Grown : Nesting → Outline → Prop where
  /-- A node that is not counted, over parts that grow where it does. -/
  | plain {nesting : Nesting} {label : Node} {children : List Outline}
      (hlabel : label.isCounted = false) (hform : label.WellFormed)
      (hchildren : ∀ child ∈ children, Grown nesting child) : Grown nesting (.node label children)
  /-- A node that is counted, over parts that grow one bracket deeper. -/
  | counted {nesting : Nesting} {label : Node} {children : List Outline}
      (hlabel : label.isCounted = true) (hfull : nesting.full = false) (hform : label.WellFormed)
      (hchildren : ∀ child ∈ children, Grown nesting.deeper child) :
      Grown nesting (.node label children)

variable {nesting : Nesting} {label : Node} {children : List Outline}

theorem grown_node (hlabel : label.isCounted = false) : Grown nesting (.node label children) ↔
    label.WellFormed ∧ ∀ child ∈ children, Grown nesting child := by
  constructor
  · intro h
    cases h with
    | plain _ hform hchildren => exact ⟨hform, hchildren⟩
    | counted hcounted => exact absurd (hlabel.symm.trans hcounted) nofun
  · rintro ⟨hform, hchildren⟩
    exact .plain hlabel hform hchildren

theorem grown_leaf (hlabel : label.isCounted = false) :
    Grown nesting (.leaf label) ↔ label.WellFormed := by
  rw [leaf, grown_node hlabel]
  simp

/-- Every node of what has grown is well-formed. -/
theorem Grown.wellFormed {outline : Outline} (h : Grown nesting outline) :
    outline.Everywhere fun label _ => label.WellFormed := by
  induction h with
  | plain _ hform _ ih => exact (everywhere_node _ _).mpr ⟨hform, (everywhereIn_iff _).mpr ih⟩
  | counted _ _ hform _ ih => exact (everywhere_node _ _).mpr ⟨hform, (everywhereIn_iff _).mpr ih⟩

/-- What has grown at a nesting fits it. -/
theorem Grown.fits {outline : Outline} (h : Grown nesting outline) : nesting.Fits outline := by
  induction h with
  | plain hlabel _ _ ih =>
    intro limit hlimit
    rw [most_node, hlabel, Bool.toNat_false, Nat.zero_add, mostOfParts_le_iff]
    intro child hchild
    exact ih child hchild limit hlimit
  | @counted nesting label children hlabel hfull _ _ ih =>
    intro limit hlimit
    have hroom : nesting.depth < limit := by
      simpa [Nesting.full, hlimit] using hfull
    have hbelow : mostOfParts Node.isCounted children ≤ limit - (nesting.depth + 1) :=
      mostOfParts_le_iff.mpr fun child hchild => ih child hchild limit hlimit
    rw [most_node, hlabel, Bool.toNat_true]
    omega

end Outline

open Outline

attribute [local simp] grown_node grown_leaf Node.isCounted Node.isNesting Node.WellFormed

variable {nesting : Nesting}

/-! ## Regular expressions -/

namespace Regex

theorem Symbol.grown {sign : Symbol} (h : sign.WellFormed) : Grown nesting sign.outline := by
  unfold Symbol.outline
  rw [grown_node rfl]
  refine ⟨h, ?_⟩
  cases sign <;> simp

theorem Member.grown {member : Member} (h : member.WellFormed) :
    Grown nesting member.outline := by
  unfold Member.outline
  rw [grown_node rfl]
  refine ⟨h, ?_⟩
  cases member with
  | symbol sign =>
    obtain ⟨c, rfl⟩ := h
    simpa using Symbol.grown (Symbol.wellFormed_ofChar c)
  | escaped text => exact nofun
  | span first last => exact nofun

theorem yields_charClass (nesting : Nesting) :
    Yields (fun c => Grown nesting (Atom.charClass c).outline) charClass := by
  refine yields_then fun _ => yields_then fun _ => yields_bind (yields_many1 yields_member)
    fun members hmembers => yields_then fun _ => yields_pure ?_
  rw [Atom.outline, grown_node rfl]
  refine ⟨hmembers.1, List.forall_mem_map.mpr ?_⟩
  exact fun member hmember => Member.grown (hmembers.2 member hmember)

theorem yields_atom (nesting : Nesting) :
    Yields (fun atom => Grown nesting atom.outline) atom := by
  refine yields_firstOf ?_
  simp only [List.forall_mem_cons, List.not_mem_nil, false_imp_iff, implies_true, and_true]
  refine ⟨yields_map (yields_of_forall ?_ _), yields_map (yields_of_forall ?_ _),
    yields_map (yields_charClass nesting), yields_map ?_, yields_map (yields_of_forall ?_ _)⟩
  · intro range
    simp [Atom.outline]
  · intro name
    exact (grown_leaf rfl).mpr trivial
  · exact yields_symbol.imp fun sign hsign => Symbol.grown hsign
  · intro c
    exact Symbol.grown (Symbol.wellFormed_ofChar c)

/-- Whether branches grow: there is one, none cuts a row in two, and their pieces grow. -/
def Branch.AllGrown (nesting : Nesting) (branches : List Branch) : Prop :=
  branches ≠ [] ∧ ∀ branch ∈ branches, UncutRows branch ∧
    ∀ piece ∈ branch, Grown nesting piece.outline

theorem Branch.AllGrown.outlines {branches : List Branch} (h : Branch.AllGrown nesting branches) :
    ∀ outline ∈ Branch.outlines branches, Grown nesting outline := by
  intro outline houtline
  rw [Branch.outlines_eq_map] at houtline
  obtain ⟨branch, hbranch, rfl⟩ := List.mem_map.mp houtline
  obtain ⟨hrows, hpieces⟩ := h.2 branch hbranch
  rw [grown_node rfl]
  exact ⟨hrows, List.forall_mem_map.mpr hpieces⟩

theorem yields_pieceOf {choice : Nesting → Parser (List Branch)}
    (hchoice : ∀ nesting, Yields (Branch.AllGrown nesting) (choice nesting)) (nesting : Nesting) :
    Yields (fun piece => Grown nesting piece.outline) (pieceOf choice nesting) := by
  refine yields_firstOf ?_
  simp only [List.forall_mem_cons, List.not_mem_nil, false_imp_iff, implies_true, and_true]
  refine ⟨yields_map ?_, yields_map (yields_between (yields_nested ?_)), yields_map ?_⟩
  · intro s text rest hread
    rw [Piece.outline, grown_leaf rfl, Node.WellFormed, String.toList_ofList]
    exact yields_look nesting s text rest hread
  · intro hfull s branches rest hread
    have hbranches := hchoice nesting.deeper s branches rest hread
    rw [Piece.outline]
    exact .counted rfl hfull hbranches.1 hbranches.outlines
  · intro s atoms rest hread
    have hatoms := yields_many1 (yields_atom nesting) s atoms rest hread
    rw [Piece.outline, grown_node rfl]
    exact ⟨hatoms.1, List.forall_mem_map.mpr hatoms.2⟩

theorem yields_choice (nesting : Nesting) : Yields (Branch.AllGrown nesting) (choice nesting) := by
  refine yields_recursive Branch.AllGrown ?_ nesting
  intro p hp i
  exact yields_sepBy1 ((yields_uncutRows p i).and (yields_many (yields_pieceOf hp i)))

theorem yields_quoted (nesting : Nesting) :
    Yields (fun regex => Grown nesting regex.outline) (quoted nesting) := by
  refine yields_between (yields_map ?_)
  intro s branches rest hread
  have hbranches := yields_choice nesting s branches rest hread
  rw [Regex.outline, grown_node rfl]
  exact ⟨hbranches.1, hbranches.outlines⟩

end Regex

/-! ## Conditions -/

theorem grown_literalOutline (value : String) : Grown nesting (literalOutline value) := by
  simp [literalOutline]

namespace Test

/-- Whether the outline of a test as a condition grows. -/
def IsGrown (nesting : Nesting) (test : Test) : Prop :=
  Grown nesting (Condition.outline (.test test))

theorem isGrown_iff {test : Test} : IsGrown nesting test ↔
    (∀ attr ∈ test.attribute?, IsIdentifier attr) ∧ ∀ part ∈ test.outlines, Grown nesting part := by
  rw [IsGrown, Condition.outline, grown_node rfl, Node.WellFormed]

theorem yields_similarityArgs (nesting : Nesting) :
    Yields (fun args => ∀ part ∈ args.outlines, Grown nesting part) (similarityArgs nesting) := by
  have hregex := Regex.yields_quoted nesting
  refine yields_orElse ?_ ?_
  · exact yields_then fun _ => yields_then fun _ => yields_then fun _ =>
      yields_pure (by simp [SimilarityArgs.outlines])
  · exact yields_bind hregex fun first hfirst => yields_then fun _ =>
      yields_bind hregex fun second hsecond => yields_then fun _ =>
        yields_bind hregex fun third hthird =>
          yields_pure (by simp [SimilarityArgs.outlines, hfirst, hsecond, hthird])

theorem yields_similarityTest (nesting : Nesting) :
    Yields (IsGrown nesting) (similarityTest nesting) :=
  yields_then fun _ => yields_bind (yields_parenthesized (yields_similarityArgs nesting))
    fun _ hargs => yields_pure (isGrown_iff.mpr ⟨nofun, hargs⟩)

theorem yields_positionTest (nesting : Nesting) : Yields (IsGrown nesting) positionTest := by
  refine yields_then fun _ => yields_then fun _ => yields_then fun last => ?_
  cases last with
  | none => exact yields_pure (isGrown_iff.mpr ⟨nofun, nofun⟩)
  | some last => exact yields_pure (isGrown_iff.mpr ⟨nofun, nofun⟩)

theorem yields_attributeTest (nesting : Nesting) :
    Yields (IsGrown nesting) (attributeTest nesting) := by
  refine yields_bind yields_name fun attr hattr => yields_then fun _ => yields_then fun _ =>
    yields_orElse ?_ ?_
  · refine yields_then fun _ => yields_then fun value => yields_pure (isGrown_iff.mpr ⟨?_, ?_⟩)
    · simpa [attribute?] using hattr
    · simp [outlines, grown_literalOutline]
  · refine yields_then fun _ => yields_bind (yields_afterBlanks (Regex.yields_quoted nesting))
      fun regex hregex => yields_pure (isGrown_iff.mpr ⟨?_, ?_⟩)
    · simpa [attribute?] using hattr
    · simpa [outlines] using hregex

end Test

/-- Whether all conditions among alternatives grow. -/
def Disjunction.AllGrown (nesting : Nesting) (alternatives : Disjunction) : Prop :=
  alternatives ≠ [] ∧ ∀ conditions ∈ alternatives, conditions ≠ [] ∧
    ∀ condition ∈ conditions, Grown nesting condition.outline

theorem Disjunction.AllGrown.outline {alternatives : Disjunction}
    (h : Disjunction.AllGrown nesting alternatives) :
    Grown nesting (Disjunction.outline alternatives) := by
  rw [Disjunction.outline, Conjunction.outlines_eq_map, grown_node rfl, List.forall_mem_map]
  refine ⟨h.1, ?_⟩
  intro conditions hconditions
  obtain ⟨hne, hgrown⟩ := h.2 conditions hconditions
  rw [grown_node rfl]
  exact ⟨hne, List.forall_mem_map.mpr hgrown⟩

theorem Disjunction.yields_parserOf {condition : Parser Condition}
    (hcondition : Yields (fun condition => Grown nesting condition.outline) condition) :
    Yields (Disjunction.AllGrown nesting) (Disjunction.parserOf condition) :=
  yields_sepBy1 (yields_sepBy1 hcondition)

namespace Condition

theorem outline_bracketed (bracket : Bracket) (alternatives : Disjunction) :
    outline (.bracketed bracket alternatives) =
      .node (.condition (.bracketed bracket alternatives)) [Disjunction.outline alternatives] := by
  rw [outline]
  rfl

/-- The alternatives of a list of arguments are read at the depth of the list, which is not
counted. -/
theorem grown_argumentList {bracket : Bracket} {alternatives : Disjunction}
    (hbracket : bracket ≠ .group) (h : Disjunction.AllGrown nesting alternatives) :
    Grown nesting (outline (.bracketed bracket alternatives)) := by
  rw [outline_bracketed, grown_node]
  · simpa using h.outline
  · cases bracket with
    | group => exact absurd rfl hbracket
    | swap number => rfl
    | ccoll first last => rfl

variable {condition : Nesting → Parser Condition}
  (hcondition : ∀ nesting, Yields (fun condition => Grown nesting condition.outline)
    (condition nesting))

include hcondition

theorem yields_groupParser (nesting : Nesting) :
    Yields (fun condition => Grown nesting condition.outline) (groupParser condition nesting) := by
  refine yields_map (yields_between (yields_nested ?_))
  intro hfull s alternatives rest hread
  have hgrown := Disjunction.yields_parserOf (hcondition nesting.deeper) s alternatives rest hread
  rw [outline_bracketed]
  exact .counted rfl hfull trivial (by simpa using hgrown.outline)

theorem yields_notParser (nesting : Nesting) :
    Yields (fun condition => Grown nesting condition.outline) (notParser condition nesting) := by
  refine yields_map (yields_then fun _ => yields_then fun _ => yields_nested ?_)
  intro hfull s inner rest hread
  have hgrown := hcondition nesting.deeper s inner rest hread
  rw [outline]
  exact .counted rfl hfull trivial (by simpa using hgrown)

theorem yields_swapParser (nesting : Nesting) :
    Yields (fun condition => Grown nesting condition.outline)
      (swapParser (condition nesting)) :=
  yields_then fun _ => yields_parenthesized <| yields_then fun _ => yields_then fun _ =>
    yields_bind (Disjunction.yields_parserOf (hcondition nesting)) fun _ hgrown =>
      yields_pure (grown_argumentList nofun hgrown)

theorem yields_ccollParser (nesting : Nesting) :
    Yields (fun condition => Grown nesting condition.outline)
      (ccollParser (condition nesting)) :=
  yields_then fun _ => yields_parenthesized <| yields_then fun _ => yields_then fun _ =>
    yields_then fun _ => yields_then fun _ =>
      yields_bind (Disjunction.yields_parserOf (hcondition nesting)) fun _ hgrown =>
        yields_pure (grown_argumentList nofun hgrown)

theorem yields_parserOf (nesting : Nesting) :
    Yields (fun condition => Grown nesting condition.outline) (parserOf condition nesting) := by
  refine yields_firstOf ?_
  simp only [List.forall_mem_cons, List.not_mem_nil, false_imp_iff, implies_true, and_true]
  exact ⟨yields_groupParser hcondition nesting, yields_notParser hcondition nesting,
    yields_map (Test.yields_similarityTest nesting), yields_swapParser hcondition nesting,
    yields_ccollParser hcondition nesting, yields_map (Test.yields_positionTest nesting),
    yields_map (Test.yields_attributeTest nesting)⟩

omit hcondition in
theorem parser_yields (nesting : Nesting) :
    Yields (fun condition => Grown nesting condition.outline) (parser nesting) := by
  refine yields_recursive (fun nesting (condition : Condition) => Grown nesting condition.outline)
    ?_ nesting
  intro p hp i
  exact yields_parserOf hp i

end Condition

theorem Disjunction.parser_yields (nesting : Nesting) :
    Yields (fun alternatives => Grown nesting (Disjunction.outline alternatives))
      (Disjunction.parser nesting) :=
  (Disjunction.yields_parserOf (Condition.parser_yields nesting)).imp fun _ hgrown => hgrown.outline

/-! ## Positions -/

section

variable {position : Nesting → Parser Position}
  (hposition : ∀ nesting, Yields (fun position => Grown nesting position.outline)
    (position nesting))

include hposition

/-- The positions in a pairing are read one bracket deeper. -/
theorem Pairing.yields_parserOf (hfull : nesting.full = false) :
    Yields (fun pairing => Grown nesting pairing.outline)
      (Pairing.parserOf (position nesting.deeper)) := by
  have hpart := yields_afterBlanks (hposition nesting.deeper)
  refine yields_orElse ?_ ?_
  · refine yields_then fun _ => yields_bind hpart fun left hleft =>
      yields_bind hpart fun right hright => yields_then fun _ => yields_pure ?_
    rw [Pairing.outline]
    refine .counted rfl hfull trivial ?_
    simp [hleft, hright]
  · refine yields_then fun _ => yields_bind hpart fun left hleft =>
      yields_bind hpart fun right hright => yields_pure ?_
    rw [Pairing.outline]
    refine .counted rfl hfull trivial ?_
    simp [hleft, hright]

theorem Token.yields_parserOf (nesting : Nesting) :
    Yields (fun token => Grown nesting token.outline) (Token.parserOf position nesting) := by
  have hregex := Regex.yields_quoted nesting
  refine yields_firstOf ?_
  simp only [List.forall_mem_cons, List.not_mem_nil, false_imp_iff, implies_true, and_true]
  refine ⟨yields_map (yields_between ?_), ?_, yields_map (yields_between (yields_nested ?_)),
    yields_map (yields_of_forall ?_ _), yields_map ?_⟩
  · intro s alternatives rest hread
    have hgrown := yields_optional (Disjunction.parser_yields nesting) s alternatives rest hread
    cases alternatives with
    | none =>
      rw [Token.outline]
      exact (grown_leaf rfl).mpr trivial
    | some alternatives =>
      rw [Token.outline, grown_node rfl]
      simpa using hgrown
  · refine yields_then fun _ => yields_then fun _ => yields_bind hregex fun regex hgrown =>
      yields_pure ?_
    rw [Token.outline, grown_node rfl]
    simpa using hgrown
  · intro hfull s pairing rest hread
    have hgrown := Pairing.yields_parserOf hposition hfull s pairing rest hread
    rw [Token.outline, grown_node rfl]
    simpa using hgrown
  · intro _
    rw [Token.outline]
    exact (grown_leaf rfl).mpr trivial
  · intro s regex rest hread
    have hgrown := hregex s regex rest hread
    rw [Token.outline, grown_node rfl]
    simpa using hgrown

theorem Position.yields_parserOf (nesting : Nesting) :
    Yields (fun position => Grown nesting position.outline)
      (Position.parserOf position nesting) := by
  have htoken := Token.yields_parserOf hposition nesting
  refine yields_orElse ?_ ?_
  · refine yields_then fun _ => yields_then fun _ => yields_bind htoken fun token hgrown =>
      yields_pure ?_
    simpa [Position.outline] using hgrown
  · refine yields_bind htoken fun token hgrown => yields_pure ?_
    simpa [Position.outline] using hgrown

end

theorem Position.parser_yields (nesting : Nesting) :
    Yields (fun position => Grown nesting position.outline) (Position.parser nesting) := by
  refine yields_recursive (fun nesting (position : Position) => Grown nesting position.outline)
    ?_ nesting
  intro p hp i
  exact Position.yields_parserOf hp i

/-! ## Chains and blocks -/

theorem Structure.parser_yields (nesting : Nesting) :
    Yields (fun struct => Grown nesting struct.outline) (Structure.parser nesting) := by
  refine yields_bind yields_name fun name hname =>
    yields_bind (yields_optional (yields_afterBlanks (Disjunction.parser_yields nesting)))
      fun conditions hconditions => yields_pure ?_
  rw [Structure.outline, grown_node rfl]
  refine ⟨hname, ?_⟩
  cases conditions with
  | none => simp
  | some alternatives => simpa using hconditions

/-- The end of a structure is read without conditions. -/
theorem Element.closingParser_yields (nesting : Nesting) :
    Yields (fun element => Grown nesting element.outline) Element.closingParser := by
  refine yields_then fun _ => yields_then fun _ => yields_then fun _ => yields_then fun _ =>
    yields_bind yields_name fun name hname => yields_then fun _ => yields_pure ?_
  simp [Element.outline, Structure.outline, hname]

section

variable {atom : Parser Atom} (hatom : Yields (fun atom => Grown nesting atom.outline) atom)

include hatom

theorem Element.yields_parserOf :
    Yields (fun element => Grown nesting element.outline) (Element.parserOf atom nesting) := by
  refine yields_firstOf ?_
  simp only [List.forall_mem_cons, List.not_mem_nil, false_imp_iff, implies_true, and_true]
  refine ⟨Element.closingParser_yields nesting, ?_, ?_⟩
  · refine yields_then fun _ => yields_bind (yields_afterBlanks (Structure.parser_yields nesting))
      fun struct hstruct => yields_then fun _ => yields_then fun _ => yields_pure ?_
    simp [Element.outline, hstruct]
  · refine yields_bind hatom fun atom hgrown => yields_then fun repetition => yields_pure ?_
    cases repetition <;> simp [Element.outline, hgrown]

theorem Chain.yields_parserOf :
    Yields (fun chain => Grown nesting chain.outline) (Chain.parserOf atom nesting) := by
  refine yields_then fun _ =>
    yields_bind (yields_many1 (yields_afterBlanks (Element.yields_parserOf hatom)))
      fun elements helements => yields_pure ?_
  rw [Chain.outline, Element.outlines_eq_map, grown_node rfl]
  exact ⟨helements.1, List.forall_mem_map.mpr helements.2⟩

theorem Sequence.yields_parserOf :
    Yields (fun sequence => Grown nesting sequence.outline) (Sequence.parserOf atom nesting) := by
  refine yields_map ?_
  intro s chains rest hread
  have hchains := yields_sepBy1 (Chain.yields_parserOf hatom) s chains rest hread
  rw [Sequence.outline, Chain.outlines_eq_map, grown_node rfl]
  exact ⟨hchains.1, List.forall_mem_map.mpr hchains.2⟩

end

section

variable {sequence : Parser Sequence}
  (hsequence : Yields (fun sequence => Grown nesting sequence.outline) sequence)

include hsequence

theorem Scope.yields_parserOf :
    Yields (fun scope => Grown nesting scope.outline) (Scope.parserOf sequence) := by
  refine yields_firstOf ?_
  simp only [List.forall_mem_cons, List.not_mem_nil, false_imp_iff, implies_true, and_true]
  refine ⟨?_, ?_, yields_map ?_⟩
  · refine yields_then fun _ => yields_then fun _ => yields_pure ?_
    simp [Scope.outline]
  · refine yields_then fun _ => yields_bind yields_name fun corpus hcorpus => yields_then fun _ =>
      yields_bind hsequence fun inner hgrown => yields_pure ?_
    simp [Scope.outline, hcorpus, hgrown]
  · intro s inner rest hread
    have hgrown := hsequence s inner rest hread
    simp [Scope.outline, hgrown]

theorem Block.yields_parserOf :
    Yields (fun block => Grown nesting block.outline) (Block.parserOf sequence) := by
  refine yields_then fun _ => yields_then fun _ =>
    yields_bind (yields_afterBlanks (Scope.yields_parserOf hsequence)) fun scope hgrown =>
      yields_pure ?_
  simp [Block.outline, hgrown]

end

theorem Atom.yields_groupParserOf {atom : Nesting → Parser Atom}
    (hatom : ∀ nesting, Yields (fun atom => Grown nesting atom.outline) (atom nesting))
    (nesting : Nesting) :
    Yields (fun atom => Grown nesting atom.outline) (Atom.groupParserOf atom nesting) := by
  refine yields_between (yields_nested fun hfull => ?_)
  have hsequence := Sequence.yields_parserOf (hatom nesting.deeper)
  refine yields_bind hsequence fun sequence hgrown =>
    yields_bind (yields_many (yields_afterBlanks (Block.yields_parserOf hsequence)))
      fun blocks hblocks => yields_pure ?_
  rw [Atom.outline, Block.outlines_eq_map]
  refine .counted rfl hfull trivial (List.forall_mem_cons.mpr ⟨hgrown, ?_⟩)
  exact List.forall_mem_map.mpr hblocks

theorem Atom.parser_yields (nesting : Nesting) :
    Yields (fun atom => Grown nesting atom.outline) (Atom.parser nesting) := by
  refine yields_recursive (fun nesting (atom : Atom) => Grown nesting atom.outline) ?_ nesting
  intro p hp i
  refine yields_orElse (yields_map ?_) (Atom.yields_groupParserOf hp i)
  intro s position rest hread
  have hgrown := Position.parser_yields i s position rest hread
  rw [Atom.outline, grown_node rfl]
  simpa using hgrown

theorem Sequence.parser_yields (nesting : Nesting) :
    Yields (fun sequence => Grown nesting sequence.outline) (Sequence.parser nesting) :=
  Sequence.yields_parserOf (Atom.parser_yields nesting)

/-! ## Queries -/

namespace Query

theorem grown_globals {conditions : List GlobalCondition} (hne : conditions ≠ [])
    (h : ∀ condition ∈ conditions, ∀ attr ∈ condition.attributes, IsIdentifier attr) :
    Grown nesting (GlobalCondition.outline conditions) := by
  rw [GlobalCondition.outline, grown_node rfl, List.forall_mem_map]
  refine ⟨hne, ?_⟩
  intro condition hcondition
  exact (grown_leaf rfl).mpr (h condition hcondition)

/-- What a query reader yields grows where it starts. -/
theorem parser_grown (nesting : Nesting) :
    Yields (fun query => Grown nesting query.outline) (Query.parser nesting) := by
  have hsequence := Sequence.parser_yields nesting
  have hblock := Block.yields_parserOf hsequence
  refine yields_then fun _ => yields_bind (yields_bind (yields_optional hsequence)
    fun sequence hgrown => yields_bind (yields_optional (yields_then fun _ =>
      yields_sepBy1 GlobalCondition.parser_yields)) fun globals hconditions =>
        yields_bind (yields_many (yields_afterBlanks hblock)) fun blocks hblocks => yields_pure ?_)
    fun _ hquery => yields_then fun _ => yields_pure hquery
  rw [Query.outline, Block.outlines_eq_map, grown_node rfl]
  simp only [List.forall_mem_append, List.forall_mem_map]
  refine ⟨trivial, ⟨?_, ?_⟩, hblocks⟩
  · cases sequence with
    | none => simp
    | some sequence => simpa using hgrown
  · cases globals with
    | none => simp
    | some conditions =>
      obtain ⟨hne, hall⟩ := hconditions conditions rfl
      simpa using grown_globals hne hall

/-- What a query reader yields fits where it starts. -/
theorem parser_yields (nesting : Nesting) :
    Yields (fun query => nesting.Fits query.outline) (Query.parser nesting) :=
  (parser_grown nesting).imp fun _ hgrown => hgrown.fits

/-- Every node of a query that a text makes up is well-formed. -/
theorem parse_wellFormed {text : String} {query : Query} (h : parse text = .ok query) :
    query.outline.Everywhere fun label _ => label.WellFormed :=
  (parser_grown _ _ _ _ (parse_eq_ok.mp h)).wellFormed

/-- A query with a look-around, a negated class, a property class, a row behind a group, the end of
a structure, an aligned corpus and a condition across tokens. -/
theorem parse_wellFormed_sample : ∃ query,
    parse "1:[tag=\"(?=a(b))[^x-z.]\\pL(c)d*\"] </s> & 1.tag = 1.lemma within en:<doc/>" =
        .ok query ∧
      query.outline.Everywhere fun label _ => label.WellFormed := by
  generalize htext :
    "1:[tag=\"(?=a(b))[^x-z.]\\pL(c)d*\"] </s> & 1.tag = 1.lemma within en:<doc/>" = text
  have hread : (parse text).isOk = true := by
    subst htext
    decide +kernel
  cases hparse : parse text with
  | ok query => exact ⟨query, rfl, parse_wellFormed hparse⟩
  | error e =>
    rw [hparse] at hread
    exact absurd hread nofun

end Query

end CorpusCost
