import CorpusCost.Proofs.QueryReadBack

/-!
# Queries of one element

The readers of lists and rows take a single item where nothing follows that continues them. So a
condition makes up all alternatives, a token or a tag makes up a chain, a chain a sequence and a
sequence a query, which blocks may follow.
-/

set_option autoImplicit false

namespace CorpusCost

open CorpusCost.Parser

/-! ## Conditions and tokens -/

/-- A condition before a closing bracket is the only alternative there. -/
theorem Disjunction.parserOf_of_condition {p : Parser Condition} {condition : Condition}
    {s rest : List Char} (h : p s = .read condition rest)
    (hends : Ends [')', ']'] (rest.dropWhile isBlank)) :
    Disjunction.parserOf p s = .read [[condition]] rest := by
  have hsep : ∀ {c : Char}, c ∉ [')', ']'] → spaced (char c) rest = .miss := fun hc =>
    spaced_char_of_head?_ne (hends.head?_ne hc)
  have hconjunction : sepBy1 (spaced (char '&')) p s = .read [condition] rest :=
    sepBy1_eq_read.mpr
      ⟨condition, rest, [], rfl, h, many_of_miss (bind_of_miss (hsep (by decide)) _)⟩
  exact sepBy1_eq_read.mpr
    ⟨[condition], rest, [], rfl, hconjunction, many_of_miss (bind_of_miss (hsep (by decide)) _)⟩

/-- What stands in square brackets makes up a token. -/
theorem Token.parserOf_of_conditions {position : Nesting → Parser Position} {nesting : Nesting}
    {s after rest : List Char} {conditions : Option Disjunction}
    (h : optional (Disjunction.parser nesting) (s.dropWhile isBlank) = .read conditions after)
    (hclose : after.dropWhile isBlank = ']' :: rest) :
    Token.parserOf position nesting ('[' :: s) = .read (.conditions conditions) rest := by
  rw [Token.parserOf_eq, orElse_eq_read]
  refine .inl (map_eq_read.mpr ⟨conditions, rfl, between_eq_read.mpr ⟨(), s.dropWhile isBlank, ']',
    after, ?_, h, ?_⟩⟩)
  · rw [bind_of_read (char_cons _ _), blanks_apply]
  · rw [afterBlanks_apply, hclose, char_cons]

/-! ## Elements -/

/-- The element for one token. -/
def Element.ofToken (token : Token) : Element := .atom (.position ⟨none, token⟩) none

/-- A token in square brackets makes up an element where no repetition follows. -/
theorem Element.parserOf_of_token {nesting : Nesting} {s rest : List Char} {token : Token}
    (h : ∀ position, Token.parserOf position nesting ('[' :: s) = .read token rest)
    (hrest : Stops repetitionSigns.contains rest) :
    Element.parserOf (Atom.parser nesting) nesting ('[' :: s) = .read (.ofToken token) rest := by
  have hatom : Atom.parser nesting ('[' :: s) = .read (.position ⟨none, token⟩) rest := by
    rw [Atom.parser, recursive_eq, Atom.parserOf, orElse_eq_read, map_eq_read]
    refine .inl ⟨⟨none, token⟩, rfl, ?_⟩
    rw [Position.parser, recursive_eq, Position.parserOf, orElse_eq_read]
    simp only [bind_eq_read, bind_eq_miss]
    exact .inr ⟨.inl (number_of_stops (stops_cons.mpr rfl)), token, rest, h _, rfl⟩
  simp only [Element.parserOf_eq, orElse_eq_read, repeatedParser, bind_eq_read]
  exact .inr ⟨Element.opensWith_closingParser.miss (by simp),
    .inr ⟨Element.opensWith_openingParser.miss (by simp), .position ⟨none, token⟩, rest, hatom, none,
      rest, optional_eq_read.mpr (.inr ⟨rfl, Repetition.parser_of_stops hrest, rfl⟩), rfl⟩⟩

/-! ## Sequences and queries -/

/-- The sequence of one element. -/
def Sequence.ofElement (element : Element) : Sequence := ⟨[⟨false, [element]⟩]⟩

/-- An element makes up a sequence where no further element and no further chain follows. -/
theorem Sequence.parser_of_element {nesting : Nesting} {c : Char} {s rest : List Char}
    {element : Element} (hc : c ∈ elementSigns)
    (h : Element.parserOf (Atom.parser nesting) nesting (c :: s) = .read element rest)
    (hends : Ends sequenceEnds (rest.dropWhile isBlank)) :
    Sequence.parser nesting (c :: s) = .read (.ofElement element) rest := by
  have hblank : Stops isBlank (c :: s) := stops_cons.mpr (eq_false_of_any hc (by decide))
  have hsign : c ≠ '!' := by
    rintro rfl
    exact absurd hc (by decide)
  have hbang : bang (bangText false ++ c :: s) = .read false (c :: s) :=
    bang_bangText hblank fun _ => by simpa using hsign
  have hchain : Ends chainEnds (rest.dropWhile isBlank) := hends.mono (by decide)
  have hend : afterBlanks (Element.parserOf (Atom.parser nesting) nesting) rest = .miss := by
    rw [afterBlanks_apply]
    exact Element.parserOf_of_ends hchain (Atom.parser_of_ends hchain)
  have helements : many1 (afterBlanks (Element.parserOf (Atom.parser nesting) nesting)) (c :: s) =
      .read [element] rest := by
    refine many1_eq_read.mpr ⟨element, rest, [], rfl, ?_, many_of_miss hend⟩
    rw [afterBlanks_apply, dropWhile_of_stops hblank]
    exact h
  refine map_eq_read.mpr ⟨_, rfl, sepBy1_eq_read.mpr ⟨⟨false, [element]⟩, rest, [], rfl, ?_,
    many_of_miss (bind_of_miss (spaced_char_of_head?_ne (hends.head?_ne (by decide))) _)⟩⟩
  rw [Chain.parserOf]
  simp only [bind_eq_read]
  exact ⟨false, c :: s, hbang, [element], rest, helements, rfl⟩

/-- A sequence with the blocks behind it makes up a query. -/
theorem Query.parser_of_sequence {nesting : Nesting} {s rest : List Char} {sequence : Sequence}
    {blocks : List Block} (hblank : Stops isBlank s)
    (h : Sequence.parser nesting s = .read sequence rest)
    (hglobals : (rest.dropWhile isBlank).head? ≠ some '&')
    (hblocks : many (afterBlanks (Block.parser nesting)) rest = .read blocks []) :
    Query.parser nesting s = .read ⟨some sequence, none, blocks⟩ [] := by
  have hmiss : globalsParser rest = .miss := bind_of_miss (spaced_char_of_head?_ne hglobals) _
  have hparts : Query.parts nesting s = .read ⟨some sequence, none, blocks⟩ [] := by
    rw [Query.parts_eq]
    simp only [bind_eq_read]
    exact ⟨some sequence, rest, optional_eq_read.mpr (.inl ⟨_, rfl, h⟩), none, rest,
      optional_eq_read.mpr (.inr ⟨rfl, hmiss, rfl⟩), blocks, [], hblocks, rfl⟩
  rw [Query.parser, bind_of_read (blanks_apply s), dropWhile_of_stops hblank,
    bind_of_read hparts, bind_of_read (blanks_apply [])]
  rfl

/-- No block stands at the end of a text. -/
theorem Block.many_nil (nesting : Nesting) :
    many (afterBlanks (Block.parser nesting)) [] = .read [] [] := by
  refine many_of_miss ?_
  rw [afterBlanks_apply]
  exact Block.parserOf_of_ends (ends_nil _)

/-- The query of one element. -/
def Query.ofElement (element : Element) : Query := ⟨some (.ofElement element), none, []⟩

/-- An element that is all of a text makes up a query. -/
theorem Query.parser_of_element {nesting : Nesting} {c : Char} {s : List Char} {element : Element}
    (hc : c ∈ elementSigns)
    (h : Element.parserOf (Atom.parser nesting) nesting (c :: s) = .read element []) :
    Query.parser nesting (c :: s) = .read (.ofElement element) [] :=
  Query.parser_of_sequence (stops_cons.mpr (eq_false_of_any hc (by decide)))
    (Sequence.parser_of_element hc h (ends_nil _)) (by simp) (Block.many_nil nesting)

end CorpusCost
