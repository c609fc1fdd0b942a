import CorpusCost.Proofs.QueryReadBack

/-!
# Canonical texts are normal forms

The canonical text of a query that a text makes up is read as the query with its expressions fused
(`Query.parse_text`). Fused or not, an expression is written alike, and a query is written alike
wherever its expressions are: so what comes back, though it may be another query, has the text it
came from.
-/

set_option autoImplicit false

namespace CorpusCost

open Text (joined)

/-! ## Fused expressions -/

namespace Regex

/-- Atoms are written alike before and after they fuse. -/
theorem flatMap_written_fuse (atoms : List Atom) :
    (fuse atoms).flatMap Atom.written = atoms.flatMap Atom.written := by
  induction atoms using fuse.induct with
  | case1 => rw [fuse]
  | case2 a => rw [fuse]
  | case3 a b atoms hfuses ih =>
    have hfused : Atom.written (.symbol (.literal (String.ofList (a.written ++ b.written)) true)) =
        a.written ++ b.written := String.toList_ofList
    rw [fuse, if_pos hfuses, List.flatMap_cons, List.flatMap_cons, List.flatMap_cons, hfused, ih,
      List.append_assoc]
  | case4 a b atoms hfuses ih =>
    rw [fuse, if_neg hfuses, List.flatMap_cons, ih, ← List.flatMap_cons]

mutual

theorem Piece.written_fused : (piece : Piece) →
    Piece.written (Piece.fused piece) = Piece.written piece
  | .look text => by rw [Piece.fused]
  | .group branches => by
    rw [Piece.fused, Piece.written, Piece.written, Branch.writtenChoice_eq_joined,
      Branch.writtenChoice_eq_joined, Branch.map_written_fused branches]
  | .row atoms => by rw [Piece.fused, Piece.written, Piece.written, flatMap_written_fuse]

theorem Branch.written_fused : (branch : List Piece) →
    Branch.written (Branch.fused branch) = Branch.written branch
  | [] => by rw [Branch.fused]
  | piece :: branch => by
    rw [Branch.fused, Branch.written, Branch.written, Piece.written_fused piece,
      Branch.written_fused branch]

theorem Branch.map_written_fused : (branches : List (List Piece)) →
    (Branch.fusedChoice branches).map Branch.written = branches.map Branch.written
  | [] => by rw [Branch.fusedChoice]
  | branch :: branches => by
    rw [Branch.fusedChoice, List.map_cons, List.map_cons, Branch.written_fused branch,
      Branch.map_written_fused branches]

end

end Regex

/-- An expression is written alike before and after it is fused. -/
theorem Regex.written_fused (regex : Regex) : regex.fused.written = regex.written := by
  rw [Regex.written, Regex.written, Regex.fused, Branch.writtenChoice_eq_joined,
    Branch.writtenChoice_eq_joined, Branch.map_written_fused]

/-! ## Queries over expressions that are written alike -/

/-- Each expression is written alike before and after `f` changes it. -/
def WritesAlike (f : Regex → Regex) : Prop := ∀ regex, (f regex).written = regex.written

section

variable {f : Regex → Regex}

theorem WritesAlike.quotedText (hf : WritesAlike f) (regex : Regex) :
    (f regex).quotedText = regex.quotedText := by
  rw [Regex.quotedText, Regex.quotedText, hf]

theorem Test.written_mapRegexes (hf : WritesAlike f) (test : Test) :
    (test.mapRegexes f).written = test.written := by
  cases test with
  | exactly attr negated value => rfl
  | matching attr negated comparison regex =>
    rw [Test.mapRegexes, Test.written, Test.written, hf.quotedText]
  | positionRange first last => rfl
  | position number => rfl
  | similarity keyword args =>
    cases args with
    | numbers first second => rfl
    | patterns first second third =>
      rw [Test.mapRegexes, Test.written, Test.written, SimilarityArgs.mapRegexes,
        SimilarityArgs.written, SimilarityArgs.written, hf.quotedText, hf.quotedText,
        hf.quotedText]

mutual

theorem Condition.written_mapRegexes (hf : WritesAlike f) : (condition : Condition) →
    (Condition.mapRegexes f condition).written = condition.written
  | .test test => by
    rw [Condition.mapRegexes, Condition.written, Condition.written, Test.written_mapRegexes hf]
  | .not inner => by
    rw [Condition.mapRegexes, Condition.written, Condition.written,
      Condition.written_mapRegexes hf inner]
  | .bracketed bracket alternatives => by
    rw [Condition.mapRegexes, Condition.written, Condition.written,
      Disjunction.written_eq_joined, Disjunction.written_eq_joined,
      Disjunction.map_written_mapRegexes hf alternatives]

theorem Conjunction.map_written_mapRegexes (hf : WritesAlike f) : (conditions : List Condition) →
    (Conjunction.mapRegexes f conditions).map Condition.written =
      conditions.map Condition.written
  | [] => by rw [Conjunction.mapRegexes]
  | condition :: conditions => by
    rw [Conjunction.mapRegexes, List.map_cons, List.map_cons,
      Condition.written_mapRegexes hf condition, Conjunction.map_written_mapRegexes hf conditions]

theorem Disjunction.map_written_mapRegexes (hf : WritesAlike f) :
    (alternatives : List (List Condition)) →
    (Disjunction.mapRegexes f alternatives).map Conjunction.written =
      alternatives.map Conjunction.written
  | [] => by rw [Disjunction.mapRegexes]
  | conditions :: alternatives => by
    rw [Disjunction.mapRegexes, List.map_cons, List.map_cons, Conjunction.written_eq_joined,
      Conjunction.map_written_mapRegexes hf conditions, ← Conjunction.written_eq_joined,
      Disjunction.map_written_mapRegexes hf alternatives]

end

theorem Disjunction.written_mapRegexes (hf : WritesAlike f) (alternatives : Disjunction) :
    Disjunction.written (Disjunction.mapRegexes f alternatives) =
      Disjunction.written alternatives := by
  rw [Disjunction.written_eq_joined, Disjunction.written_eq_joined,
    Disjunction.map_written_mapRegexes hf]

-- The equations that are generated for these two unfold the words in them, which takes long.
theorem Pairing.written_union (left right : Position) : (Pairing.union left right).written =
    "(union ".toList ++ left.written ++ ' ' :: right.written ++ [')'] := rfl

theorem Pairing.written_meet (left right : Position) (window : Option (Int × Int)) :
    (Pairing.meet left right window).written =
      "(meet ".toList ++ left.written ++ ' ' :: right.written ++ windowText window ++ [')'] := rfl

mutual

theorem Position.written_mapRegexes (hf : WritesAlike f) : (position : Position) →
    (Position.mapRegexes f position).written = position.written
  | ⟨none, token⟩ => by
    rw [Position.mapRegexes, Position.written, Position.written, Token.written_mapRegexes hf token]
  | ⟨some label, token⟩ => by
    rw [Position.mapRegexes, Position.written, Position.written, Token.written_mapRegexes hf token]

theorem Token.written_mapRegexes (hf : WritesAlike f) : (token : Token) →
    (Token.mapRegexes f token).written = token.written
  | .conditions none => by rw [Token.mapRegexes]
  | .conditions (some alternatives) => by
    rw [Token.mapRegexes, Token.written, Token.written, Disjunction.written_mapRegexes hf]
  | .word regex => by
    rw [Token.mapRegexes, Token.written, Token.written, hf.quotedText]
  | .anchored none regex => by
    rw [Token.mapRegexes, Token.written, Token.written, hf.quotedText]
  | .anchored (some number) regex => by
    rw [Token.mapRegexes, Token.written, Token.written, hf.quotedText]
  | .mu => by rw [Token.mapRegexes]
  | .pairing pairing => by
    rw [Token.mapRegexes, Token.written, Token.written, Pairing.written_mapRegexes hf pairing]

theorem Pairing.written_mapRegexes (hf : WritesAlike f) : (pairing : Pairing) →
    (Pairing.mapRegexes f pairing).written = pairing.written
  | .union left right => by
    rw [Pairing.mapRegexes, Pairing.written_union, Pairing.written_union,
      Position.written_mapRegexes hf left, Position.written_mapRegexes hf right]
  | .meet left right window => by
    rw [Pairing.mapRegexes, Pairing.written_meet, Pairing.written_meet,
      Position.written_mapRegexes hf left, Position.written_mapRegexes hf right]

end

theorem Structure.written_mapRegexes (hf : WritesAlike f) (struct : Structure) :
    (struct.mapRegexes f).written = struct.written := by
  obtain ⟨name, conditions⟩ := struct
  cases conditions with
  | none => rfl
  | some alternatives =>
    change name.toList ++ ' ' :: Disjunction.written (Disjunction.mapRegexes f alternatives) =
      name.toList ++ ' ' :: Disjunction.written alternatives
    rw [Disjunction.written_mapRegexes hf]

mutual

theorem Sequence.written_mapRegexes (hf : WritesAlike f) : (sequence : Sequence) →
    (Sequence.mapRegexes f sequence).written = sequence.written
  | ⟨chains⟩ => by
    rw [Sequence.mapRegexes, Sequence.written, Sequence.written, Chain.writtenChoice_eq_joined,
      Chain.writtenChoice_eq_joined, Chain.map_written_mapRegexes hf chains]

theorem Chain.map_written_mapRegexes (hf : WritesAlike f) : (chains : List Chain) →
    (Chain.mapRegexesOfAll f chains).map Chain.written = chains.map Chain.written
  | [] => by rw [Chain.mapRegexesOfAll]
  | chain :: chains => by
    rw [Chain.mapRegexesOfAll, List.map_cons, List.map_cons, Chain.written_mapRegexes hf chain,
      Chain.map_written_mapRegexes hf chains]

theorem Chain.written_mapRegexes (hf : WritesAlike f) : (chain : Chain) →
    (Chain.mapRegexes f chain).written = chain.written
  | ⟨negated, elements⟩ => by
    rw [Chain.mapRegexes, Chain.written, Chain.written, Element.writtenRow_eq_joined,
      Element.writtenRow_eq_joined, Element.map_written_mapRegexes hf elements]

theorem Element.map_written_mapRegexes (hf : WritesAlike f) : (elements : List Element) →
    (Element.mapRegexesOfAll f elements).map Element.written = elements.map Element.written
  | [] => by rw [Element.mapRegexesOfAll]
  | element :: elements => by
    rw [Element.mapRegexesOfAll, List.map_cons, List.map_cons,
      Element.written_mapRegexes hf element, Element.map_written_mapRegexes hf elements]

theorem Element.written_mapRegexes (hf : WritesAlike f) : (element : Element) →
    (Element.mapRegexes f element).written = element.written
  | .atom atom none => by
    rw [Element.mapRegexes, Element.written, Element.written, Atom.written_mapRegexes hf atom]
  | .atom atom (some repetition) => by
    rw [Element.mapRegexes, Element.written, Element.written, Atom.written_mapRegexes hf atom]
  | .opening struct selfClosing => by
    rw [Element.mapRegexes, Element.written, Element.written, Structure.written_mapRegexes hf]
  | .closing struct => by
    rw [Element.mapRegexes, Element.written, Element.written, Structure.written_mapRegexes hf]

theorem Atom.written_mapRegexes (hf : WritesAlike f) : (atom : Atom) →
    (Atom.mapRegexes f atom).written = atom.written
  | .position position => by
    rw [Atom.mapRegexes, Atom.written, Atom.written, Position.written_mapRegexes hf]
  | .group sequence blocks => by
    rw [Atom.mapRegexes, Atom.written, Atom.written, Sequence.written_mapRegexes hf sequence,
      Block.writtenEach_mapRegexes hf blocks]

theorem Block.writtenEach_mapRegexes (hf : WritesAlike f) : (blocks : List Block) →
    Block.writtenEach (Block.mapRegexesOfAll f blocks) = Block.writtenEach blocks
  | [] => by rw [Block.mapRegexesOfAll]
  | block :: blocks => by
    rw [Block.mapRegexesOfAll, Block.writtenEach, Block.writtenEach,
      Block.written_mapRegexes hf block, Block.writtenEach_mapRegexes hf blocks]

theorem Block.written_mapRegexes (hf : WritesAlike f) : (block : Block) →
    (Block.mapRegexes f block).written = block.written
  | ⟨negated, keyword, scope⟩ => by
    rw [Block.mapRegexes, Block.written, Block.written, Scope.written_mapRegexes hf scope]

theorem Scope.written_mapRegexes (hf : WritesAlike f) : (scope : Scope) →
    (Scope.mapRegexes f scope).written = scope.written
  | .sequence sequence => by
    rw [Scope.mapRegexes, Scope.written, Scope.written, Sequence.written_mapRegexes hf sequence]
  | .number number => by rw [Scope.mapRegexes]
  | .aligned negated corpus sequence => by
    rw [Scope.mapRegexes, Scope.written, Scope.written, Sequence.written_mapRegexes hf sequence]

end

/-- A query is written alike before and after its expressions are changed into such as are written
alike. -/
theorem Query.written_mapRegexes (hf : WritesAlike f) (query : Query) :
    (query.mapRegexes f).written = query.written := by
  have hsequence : query.sequence.map (Sequence.written ∘ Sequence.mapRegexes f) =
      query.sequence.map Sequence.written := by
    congr 1
    exact funext (Sequence.written_mapRegexes hf)
  have hblocks : query.blocks.map (Block.written ∘ Block.mapRegexes f) =
      query.blocks.map Block.written :=
    List.map_congr_left fun block _ => Block.written_mapRegexes hf block
  rw [Query.written, Query.written, Query.mapRegexes, Option.map_map, hsequence,
    Block.mapRegexesOfAll_eq_map, List.map_map, hblocks]

end

/-! ## Normal forms -/

/-- The canonical text of every query that a text makes up makes up a query, and is the canonical
text of that query. -/
theorem Query.text_isCanonical {text : String} {query : Query} (h : Query.parse text = .ok query) :
    ∃ again, Query.parse query.text = .ok again ∧ again.text = query.text := by
  have hwritten := Query.written_mapRegexes Regex.written_fused query
  refine ⟨query.mapRegexes Regex.fused, Query.parse_text h, ?_⟩
  rw [Query.text, hwritten, Query.text]

/-- The bounds behind an escape come back as the name of a property, and are written alike. -/
theorem Query.text_isCanonical_property : ∃ query again,
    Query.parse "\"\\p\x7b4,4\x7d\"" = .ok query ∧ query.text = "\"\\p\x7b4\x7d\"" ∧
      Query.parse query.text = .ok again ∧ again.text = query.text := by
  let row : List Regex.Atom := [.symbol (.literal "\\p" false), .bounds ⟨4, some 4⟩]
  have hparse : Query.parse "\"\\p\x7b4,4\x7d\"" = .ok (.ofWord ⟨[[.row row]]⟩) :=
    Query.parse_eq_ok.mpr (by decide +kernel)
  obtain ⟨again, hagain, htext⟩ := Query.text_isCanonical hparse
  exact ⟨_, again, hparse, by decide +kernel, hagain, htext⟩

end CorpusCost
