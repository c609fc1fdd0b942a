import CorpusCost.Proofs.GrownOutlines
import CorpusCost.Proofs.SingleElements

/-!
# Nesting that is not counted

Where a condition may stand, it may also stand as the argument of `swap`, at the same depth. So the
canonical text of `Query.swaps n`, with `n` lists of arguments inside one another, makes up a query
for every `n`. What else nests is counted, so that the height of a query is bounded in the number of
such lists on a path.
-/

set_option autoImplicit false

namespace CorpusCost

open CorpusCost.Parser

/-! ## A condition as an argument -/

namespace Condition

/-- Whether a condition is read from its canonical text before a closing bracket. -/
def IsRead (nesting : Nesting) (condition : Condition) : Prop :=
  ∀ rest, Ends [')', ']'] rest → Stops isBlank (condition.written ++ rest) ∧
    parser nesting (condition.written ++ rest) = .read condition rest

theorem isRead_position (nesting : Nesting) : IsRead nesting (.test (.position 1)) := by
  intro rest hends
  have htest : Test.positionTest ['#', '1'] = .read (.position 1) [] := by decide
  obtain ⟨-, -, hread⟩ := Test.positionTest_readBack htest (hends.stops (by decide))
    (hends.head?_ne (by decide))
  refine ⟨stops_cons.mpr rfl, ?_⟩
  rw [parser, recursive_eq]
  exact parserOf_of_position hread

/-- What is read at some depth is read there as the argument of `swap`. -/
theorem IsRead.swap {nesting : Nesting} {condition : Condition} (h : IsRead nesting condition)
    {number : Nat} (hnumber : number ≤ maxUnsigned) :
    IsRead nesting (.bracketed (.swap number) [[condition]]) := by
  intro rest _
  have hends : Ends [')', ']'] (')' :: rest) := ends_cons.mpr (by decide)
  obtain ⟨hblank, hread⟩ := h (')' :: rest) hends
  have hwritten : (Condition.bracketed (.swap number) [[condition]]).written ++ rest =
      "swap".toList ++ '(' :: (Text.natural number ++ ',' :: ' ' ::
        (condition.written ++ ')' :: rest)) := by
    change "swap(".toList ++ Text.natural number ++ [',', ' '] ++
      Disjunction.written [[condition]] ++ [')'] ++ rest = _
    simp [Disjunction.written, Conjunction.written]
  have hswap : ∀ n, (condition.written ++ ')' :: rest).length < n →
      swapParser (shorter n (parser nesting)) ("swap".toList ++ '(' :: (Text.natural number ++
        ',' :: ' ' :: (condition.written ++ ')' :: rest))) =
          .read (.bracketed (.swap number) [[condition]]) rest := by
    intro n hn
    rw [swapParser, bind_of_read (keyword_written (stops_cons.mpr rfl))]
    refine parenthesized_written (stops_isBlank_natural _ _) ?_
    simp only [bind_eq_read]
    exact ⟨number, _, numberUpTo_natural hnumber (stops_cons.mpr rfl), ',', _,
      comma_written hblank, [[condition]], ')' :: rest,
      Disjunction.parserOf_of_condition (shorter_eq_read.mpr ⟨hn, hread⟩) hends, rfl⟩
  rw [hwritten]
  refine ⟨stops_cons.mpr rfl, ?_⟩
  rw [parser, recursive_eq]
  refine parserOf_of_swap (hswap _ ?_)
  simp only [List.length_append, List.length_cons]
  omega

/-- As many lists of arguments inside one another as given. -/
def swaps : Nat → Condition
  | 0 => .test (.position 1)
  | n + 1 => .bracketed (.swap 1) [[swaps n]]

theorem isRead_swaps (nesting : Nesting) (n : Nat) : IsRead nesting (swaps n) := by
  induction n with
  | zero => exact isRead_position nesting
  | succ n ih => exact ih.swap (by decide)

theorem most_swaps (n : Nat) : (swaps n).outline.most Node.isArgumentList = n := by
  induction n with
  | zero => decide
  | succ n ih =>
    rw [swaps, outline_bracketed, Disjunction.outline, Conjunction.outlines_eq_map]
    simp only [List.map_cons, List.map_nil, Outline.most_node, Outline.mostOfParts, ih,
      Nat.max_zero, Node.isArgumentList, Bool.toNat_true, Bool.toNat_false, Nat.zero_add]
    exact Nat.add_comm 1 n

end Condition

/-! ## A token as a query -/

/-- The query for one token. -/
def Query.ofToken (token : Token) : Query :=
  ⟨some ⟨[⟨false, [.atom (.position ⟨none, token⟩) none]⟩]⟩, none, []⟩

/-- A token in square brackets makes up a query. -/
theorem Query.parser_of_token {nesting : Nesting} {s : List Char} {token : Token}
    (h : ∀ position, Token.parserOf position nesting ('[' :: s) = .read token []) :
    Query.parser nesting ('[' :: s) = .read (.ofToken token) [] :=
  Query.parser_of_element (by decide) (Element.parserOf_of_token h (stops_nil _))

theorem Query.written_ofToken (token : Token) : (Query.ofToken token).written = token.written := by
  simp [ofToken, Query.written, Sequence.written, Chain.writtenChoice, Chain.written, bangText,
    Element.writtenRow, Element.written, Atom.written, Position.written]

/-! ## Argument lists without end -/

/-- The query for a token with as many lists of arguments inside one another as given. -/
def Query.swaps (n : Nat) : Query := .ofToken (.conditions (some [[Condition.swaps n]]))

/-- However many lists of arguments stand inside one another, they make up a query. -/
theorem Query.parse_swaps (n : Nat) : Query.parse (Query.swaps n).text = .ok (Query.swaps n) := by
  have hends : Ends [')', ']'] [']'] := ends_cons.mpr (by decide)
  obtain ⟨hblank, hread⟩ := Condition.isRead_swaps ⟨0, some Query.maxDepth⟩ n [']'] hends
  have hwritten : (Query.swaps n).written = '[' :: ((Condition.swaps n).written ++ [']']) := by
    rw [swaps, Query.written_ofToken]
    simp [Token.written, Disjunction.written, Conjunction.written]
  have hdisjunction : Disjunction.parser ⟨0, some Query.maxDepth⟩
      ((Condition.swaps n).written ++ [']']) = .read [[Condition.swaps n]] [']'] :=
    Disjunction.parserOf_of_condition hread hends
  rw [Query.parse_eq_ok, Query.toList_text, hwritten]
  refine Query.parser_of_token fun _ => Token.parserOf_of_conditions (optional_eq_read.mpr
    (.inl ⟨_, rfl, ?_⟩)) (dropWhile_of_stops (hends.stops (by decide)))
  rw [dropWhile_of_stops hblank]
  exact hdisjunction

theorem Query.most_swaps (n : Nat) : (Query.swaps n).outline.most Node.isArgumentList = n := by
  have hcondition := Condition.most_swaps n
  simpa [swaps, ofToken, outline, Sequence.outline, Chain.outlines, Chain.outline,
    Element.outlines, Element.outline, Atom.outline, Position.outline, Token.outline,
    Disjunction.outline, Block.outlines, Conjunction.outlines, Condition.outlines,
    Outline.mostOfParts, Node.isArgumentList] using hcondition

/-- There is no greatest number of lists of arguments on a path of a query, and no greatest
height. -/
theorem Query.exists_deeper (n : Nat) : ∃ text query, Query.parse text = .ok query ∧
    n < query.outline.height ∧
      ∃ path ∈ query.outline.paths, n < Outline.countOn Node.isArgumentList path := by
  have hmost : n < (Query.swaps (n + 1)).outline.most Node.isArgumentList := by
    rw [Query.most_swaps]
    exact Nat.lt_succ_self n
  exact ⟨_, Query.swaps (n + 1), Query.parse_swaps (n + 1),
    Nat.lt_of_lt_of_le hmost (Outline.most_le_height _), Outline.exists_path_of_lt_most hmost⟩

/-! ## The bound -/

/-- On a path of a query there are no more nesting constructs than may be counted, beside the lists
of arguments on it. So there are no more at all exactly if the lists on each path are as few as
brackets could still be opened on it, and the height is bounded in their number. -/
theorem Query.parse_nesting {text : String} {query : Query} (h : Query.parse text = .ok query) :
    (∀ path ∈ query.outline.paths, Outline.countOn Node.isNesting path ≤
      Query.maxDepth + Outline.countOn Node.isArgumentList path) ∧
    ((∀ path ∈ query.outline.paths, Outline.countOn Node.isNesting path ≤ Query.maxDepth) ↔
      ∀ path ∈ query.outline.paths, Outline.countOn Node.isArgumentList path ≤
        Query.maxDepth - Outline.countOn Node.isCounted path) ∧
    ∀ lists, (∀ path ∈ query.outline.paths, Outline.countOn Node.isArgumentList path ≤ lists) →
      query.outline.height ≤ 245 + 7 * lists := by
  have hfits : query.outline.most Node.isCounted ≤ Query.maxDepth :=
    Query.parser_yields _ _ _ _ (Query.parse_eq_ok.mp h) Query.maxDepth rfl
  have hcounted := Outline.most_le_iff.mp hfits
  have hnesting : ∀ path ∈ query.outline.paths, Outline.countOn Node.isNesting path ≤
      Query.maxDepth + Outline.countOn Node.isArgumentList path := by
    intro path hpath
    have hpathCounted := hcounted path hpath
    rw [Outline.countOn_isNesting]
    omega
  refine ⟨hnesting, ?_, ?_⟩
  · refine forall₂_congr ?_
    intro path hpath
    have hpathCounted := hcounted path hpath
    rw [Outline.countOn_isNesting]
    omega
  · intro lists hlists
    have hmost : query.outline.most Node.isNesting ≤ Query.maxDepth + lists := by
      refine Outline.most_le_iff.mpr ?_
      intro path hpath
      exact Nat.le_trans (hnesting path hpath) (Nat.add_le_add_left (hlists path hpath) _)
    have hheight := Outline.height_le query.outline query.isWhole_outline
    have hrank : query.outline.kind.rank = 21 := rfl
    rw [Query.maxDepth] at hmost
    omega

/-- One list more than brackets may be opened is read, and is more than the limit on a path; what
is on a path and the height are within the bounds. -/
theorem Query.parse_nesting_swaps :
    Query.parse (Query.swaps 33).text = .ok (Query.swaps 33) ∧
      (¬ ∀ path ∈ (Query.swaps 33).outline.paths, Outline.countOn Node.isNesting path ≤
        Query.maxDepth) ∧
      (∀ path ∈ (Query.swaps 33).outline.paths, Outline.countOn Node.isNesting path ≤
        Query.maxDepth + Outline.countOn Node.isArgumentList path) ∧
      (Query.swaps 33).outline.height ≤ 245 + 7 * 33 := by
  have hparse := Query.parse_swaps 33
  have hlists : ∀ path ∈ (Query.swaps 33).outline.paths,
      Outline.countOn Node.isArgumentList path ≤ 33 :=
    Outline.most_le_iff.mp (Nat.le_of_eq (Query.most_swaps 33))
  obtain ⟨hnesting, hwithin, hheight⟩ := Query.parse_nesting hparse
  refine ⟨hparse, ?_, hnesting, hheight 33 hlists⟩
  rw [hwithin]
  decide +kernel

end CorpusCost
