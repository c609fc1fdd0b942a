import CorpusCost.Proofs.ReadBack
import CorpusCost.Proofs.TestReadBack

/-!
# Conditions read back

Conditions are restored with their expressions fused. A condition begins with no blank, and stands
before a blank or a bracket; alternatives stand before a bracket or a slash.
-/

set_option autoImplicit false

namespace CorpusCost

open CorpusCost.Parser

/-- How a condition is written and comes back. -/
def Condition.form : Form Condition where
  written := Condition.written
  renewed := Condition.mapRegexes Regex.fused
  Begins := Stops isBlank
  Follows := Ends [' ', ')', ']', '>', '/']

/-- How alternatives are written and come back. -/
def Disjunction.form : Form Disjunction where
  written := Disjunction.written
  renewed := Disjunction.mapRegexes Regex.fused
  Begins := Stops isBlank
  Follows := Ends [')', ']', '>', '/']

theorem Condition.readBack {p : Parser Condition} {again : Nat → Parser Condition}
    (h : Restores p again Condition.form) {s rest rest' : List Char} {condition : Condition}
    (hread : p s = .read condition rest) (hfollows : Ends [' ', ')', ']', '>', '/'] rest') :
    Stops isBlank (condition.written ++ rest') ∧
      ∀ n, (condition.written ++ rest').length < n →
        again n (condition.written ++ rest') =
          .read (condition.mapRegexes Regex.fused) rest' :=
  h s condition rest hread rest' hfollows

/-- Alternatives are restored when the conditions in them are. -/
theorem Disjunction.restores {p : Parser Condition} {again : Nat → Parser Condition}
    (h : Restores p again Condition.form) :
    Restores (Disjunction.parserOf p) (fun n => Disjunction.parserOf (again n))
      Disjunction.form := by
  have hconjunction : Restores (sepBy1 (spaced (char '&')) p)
      (fun n => sepBy1 (spaced (char '&')) (again n))
      (Condition.form.listed [' ', '&', ' '] fun t => (t.dropWhile isBlank).head? ≠ some '&') :=
    h.sepBy1 (List.cons_ne_nil _ _) (fun t ht => spaced_char_written rfl ht)
      (fun t _ => ends_cons.mpr (by decide))
      fun n t ht => bind_of_miss (spaced_char_of_head?_ne ht) _
  have hdisjunction : Restores (Disjunction.parserOf p) (fun n => Disjunction.parserOf (again n))
      ((Condition.form.listed [' ', '&', ' '] fun t =>
        (t.dropWhile isBlank).head? ≠ some '&').listed [' ', '|', ' '] fun t =>
          (t.dropWhile isBlank).head? ≠ some '|') :=
    hconjunction.sepBy1 (List.cons_ne_nil _ _) (fun t ht => spaced_char_written rfl ht)
      (fun t _ => ⟨ends_cons.mpr (by decide), show some '|' ≠ some '&' by decide⟩)
      fun n t ht => bind_of_miss (spaced_char_of_head?_ne ht) _
  intro s alternatives rest hread rest' hfollows
  have hblank : rest'.dropWhile isBlank = rest' := dropWhile_of_stops (hfollows.stops (by decide))
  have hends : Ends [' ', ')', ']', '>', '/'] rest' := hfollows.mono (by decide)
  have hand : (rest'.dropWhile isBlank).head? ≠ some '&' := by
    rw [hblank]
    exact hfollows.head?_ne (by decide)
  have hor : (rest'.dropWhile isBlank).head? ≠ some '|' := by
    rw [hblank]
    exact hfollows.head?_ne (by decide)
  have hback := hdisjunction s alternatives rest hread rest' ⟨⟨hends, hand⟩, hor⟩
  have hwritten : Disjunction.written alternatives =
      Text.joined [' ', '|', ' '] (alternatives.map fun conditions =>
        Text.joined [' ', '&', ' '] (conditions.map Condition.written)) := by
    rw [Disjunction.written_eq_joined]
    congr 1
    exact List.map_congr_left fun conditions _ => Conjunction.written_eq_joined conditions
  have hrenewed : Disjunction.mapRegexes Regex.fused alternatives =
      alternatives.map fun conditions => conditions.map (Condition.mapRegexes Regex.fused) := by
    rw [Disjunction.mapRegexes_eq_map]
    exact List.map_congr_left fun conditions _ => Conjunction.mapRegexes_eq_map conditions
  change Stops isBlank (Disjunction.written alternatives ++ rest') ∧ ∀ n,
    (Disjunction.written alternatives ++ rest').length < n →
      Disjunction.parserOf (again n) (Disjunction.written alternatives ++ rest') =
        .read (Disjunction.mapRegexes Regex.fused alternatives) rest'
  rw [hwritten, hrenewed]
  exact hback

theorem Disjunction.readBack {p : Parser Condition} {again : Nat → Parser Condition}
    (h : Restores p again Condition.form) {s rest rest' : List Char} {alternatives : Disjunction}
    (hread : Disjunction.parserOf p s = .read alternatives rest)
    (hfollows : Ends [')', ']', '>', '/'] rest') :
    Stops isBlank (Disjunction.written alternatives ++ rest') ∧
      ∀ n, (Disjunction.written alternatives ++ rest').length < n →
        Disjunction.parserOf (again n) (Disjunction.written alternatives ++ rest') =
          .read (Disjunction.mapRegexes Regex.fused alternatives) rest' :=
  Disjunction.restores h s alternatives rest hread rest' hfollows

namespace Condition

theorem parserOf_eq (condition : Nesting → Parser Condition) (nesting : Nesting) (s : List Char) :
    parserOf condition nesting s = (groupParser condition nesting <|>
      (notParser condition nesting <|> (.test <$> Test.similarityTest nesting <|>
        (swapParser (condition nesting) <|> (ccollParser (condition nesting) <|>
          (.test <$> Test.positionTest <|> .test <$> Test.attributeTest nesting))))) :
            Parser Condition) s := rfl

section

variable {p : Nesting → Parser Condition} {again : Nat → Nesting → Parser Condition}
  {nesting : Nesting}

theorem opensWith_groupParser {p : Nesting → Parser Condition} {nesting : Nesting} :
    OpensWith ['('] (groupParser p nesting) :=
  (((opensWith_char '(').bind _).between _ _).map _

theorem opensWith_notParser {p : Nesting → Parser Condition} {nesting : Nesting} :
    OpensWith ['!'] (notParser p nesting) :=
  ((opensWith_char '!').bind _).map _

theorem opensWith_similarityTest {nesting : Nesting} :
    OpensWith ['w', 't'] (Test.similarityTest nesting) :=
  (((opensWith_keyword 'w' rfl).map _).orElse ((opensWith_keyword 't' rfl).map _)).bind _

theorem opensWith_positionTest : OpensWith ['#'] Test.positionTest := (opensWith_char '#').bind _

theorem opensWith_swapParser {q : Parser Condition} : OpensWith ['s'] (swapParser q) :=
  (opensWith_keyword 's' rfl).bind _

theorem opensWith_ccollParser {q : Parser Condition} : OpensWith ['c'] (ccollParser q) :=
  (opensWith_keyword 'c' rfl).bind _

/-- Neither `swap` nor `ccoll` claims the test of an attribute of that name. -/
theorem keywords_of_isAttribute {q : Parser Condition} {s : List Char} (h : Test.IsAttribute s) :
    swapParser q s = .miss ∧ ccollParser q s = .miss := by
  obtain ⟨cs, rest, rfl, hcs, hstop, hbracket⟩ := h.eq_append
  exact ⟨keyword_parenthesized_name hcs (by decide) hstop hbracket,
    keyword_parenthesized_name hcs (by decide) hstop hbracket⟩

/-! ## The order of the constructs

Each construct is told from those tried before it by the first character of what is written. -/

section

variable {t rest : List Char} {condition : Condition} {test : Test}

theorem parserOf_of_group (h : groupParser p nesting t = .read condition rest) :
    parserOf p nesting t = .read condition rest := by
  rw [parserOf_eq, orElse_eq_read]
  exact .inl h

theorem parserOf_of_not (h : notParser p nesting ('!' :: t) = .read condition rest) :
    parserOf p nesting ('!' :: t) = .read condition rest := by
  simp only [parserOf_eq, orElse_eq_read]
  exact .inr ⟨opensWith_groupParser.miss (by simp), .inl h⟩

theorem parserOf_of_lookUp {c : Char} (hc : c = 'w' ∨ c = 't')
    (h : Test.similarityTest nesting (c :: t) = .read test rest) :
    parserOf p nesting (c :: t) = .read (.test test) rest := by
  have hsign : c ≠ '(' ∧ c ≠ '!' := by
    rcases hc with rfl | rfl <;> decide
  simp only [parserOf_eq, orElse_eq_read]
  exact .inr ⟨opensWith_groupParser.miss (by simpa using hsign.1),
    .inr ⟨opensWith_notParser.miss (by simpa using hsign.2), .inl (map_eq_read.mpr ⟨test, rfl, h⟩)⟩⟩

theorem parserOf_of_swap (h : swapParser (p nesting) ('s' :: t) = .read condition rest) :
    parserOf p nesting ('s' :: t) = .read condition rest := by
  simp only [parserOf_eq, orElse_eq_read, map_eq_miss]
  exact .inr ⟨opensWith_groupParser.miss (by simp), .inr ⟨opensWith_notParser.miss (by simp),
    .inr ⟨opensWith_similarityTest _ (by simp), .inl h⟩⟩⟩

theorem parserOf_of_ccoll (h : ccollParser (p nesting) ('c' :: t) = .read condition rest) :
    parserOf p nesting ('c' :: t) = .read condition rest := by
  simp only [parserOf_eq, orElse_eq_read, map_eq_miss]
  exact .inr ⟨opensWith_groupParser.miss (by simp), .inr ⟨opensWith_notParser.miss (by simp),
    .inr ⟨opensWith_similarityTest _ (by simp),
      .inr ⟨opensWith_swapParser.miss (by simp), .inl h⟩⟩⟩⟩

theorem parserOf_of_position (h : Test.positionTest ('#' :: t) = .read test rest) :
    parserOf p nesting ('#' :: t) = .read (.test test) rest := by
  simp only [parserOf_eq, orElse_eq_read, map_eq_miss]
  exact .inr ⟨opensWith_groupParser.miss (by simp), .inr ⟨opensWith_notParser.miss (by simp),
    .inr ⟨opensWith_similarityTest _ (by simp),
      .inr ⟨opensWith_swapParser.miss (by simp), .inr ⟨opensWith_ccollParser.miss (by simp),
        .inl (map_eq_read.mpr ⟨test, rfl, h⟩)⟩⟩⟩⟩⟩

theorem parserOf_of_attribute (hname : Test.IsAttribute t)
    (h : Test.attributeTest nesting t = .read test rest) :
    parserOf p nesting t = .read (.test test) rest := by
  obtain ⟨hswap, hccoll⟩ := @keywords_of_isAttribute (p nesting) _ hname
  have hhead : ∀ d, isNameStart d = false → t.head? ≠ some d := by
    obtain ⟨c, u, ht, hc⟩ := hname.eq_cons
    rw [ht]
    intro d hd hhead
    obtain rfl : c = d := by simpa using hhead
    rw [hc] at hd
    exact absurd hd (by decide)
  simp only [parserOf_eq, orElse_eq_read, map_eq_miss]
  exact .inr ⟨opensWith_groupParser.miss (hhead '(' rfl),
    .inr ⟨opensWith_notParser.miss (hhead '!' rfl), .inr ⟨Test.similarityTest_of_isAttribute hname,
      .inr ⟨hswap, .inr ⟨hccoll, .inr ⟨opensWith_positionTest.miss (hhead '#' rfl),
        map_eq_read.mpr ⟨test, rfl, h⟩⟩⟩⟩⟩⟩⟩

end

/-! ## Constructs read back -/

variable (h : ∀ nesting, Restores (p nesting) (fun n => again n nesting) Condition.form)

include h

/-- Bracketed alternatives are read back. -/
theorem groupParser_readBack {s rest : List Char} {condition : Condition}
    (hread : groupParser p nesting s = .read condition rest) (rest' : List Char) :
    (∃ t, condition.written ++ rest' = '(' :: t) ∧
      ∀ n, (condition.written ++ rest').length ≤ n →
        groupParser (again n) nesting (condition.written ++ rest') =
          .read (condition.mapRegexes Regex.fused) rest' := by
  obtain ⟨alternatives, rfl, hgroup⟩ := map_eq_read.mp hread
  obtain ⟨_, inside, _, after, _, hinside, _⟩ := between_eq_read.mp hgroup
  obtain ⟨hfull, hinside⟩ := nested_eq_read.mp hinside
  obtain ⟨hblank, hback⟩ := Disjunction.readBack (h nesting.deeper) hinside
    (show Ends [')', ']', '>', '/'] (')' :: rest') from ends_cons.mpr (by decide))
  have hwritten : (Condition.bracketed .group alternatives).written ++ rest' =
      '(' :: (Disjunction.written alternatives ++ ')' :: rest') := by
    change ['('] ++ Disjunction.written alternatives ++ [')'] ++ rest' = _
    simp
  rw [hwritten]
  refine ⟨⟨_, rfl⟩, ?_⟩
  intro n hn
  rw [List.length_cons] at hn
  refine map_eq_read.mpr ⟨Disjunction.mapRegexes Regex.fused alternatives, ?_,
    between_eq_read.mpr ⟨(), _, ')', ')' :: rest', open_written hblank,
      nested_eq_read.mpr ⟨hfull, hback n hn⟩, afterBlanks_char rfl rest'⟩⟩
  rw [Condition.mapRegexes]

/-- A negated condition is read back where the condition is. -/
theorem notParser_readBack {s rest rest' : List Char} {condition : Condition}
    (hread : notParser p nesting s = .read condition rest)
    (hfollows : Ends [' ', ')', ']', '>', '/'] rest') :
    (∃ t, condition.written ++ rest' = '!' :: t) ∧
      ∀ n, (condition.written ++ rest').length ≤ n →
        notParser (again n) nesting (condition.written ++ rest') =
          .read (condition.mapRegexes Regex.fused) rest' := by
  obtain ⟨inner, rfl, hnot⟩ := map_eq_read.mp hread
  simp only [bind_eq_read] at hnot
  obtain ⟨_, _, _, _, mid, _, hinner⟩ := hnot
  obtain ⟨hfull, hinner⟩ := nested_eq_read.mp hinner
  obtain ⟨hblank, hback⟩ := Condition.readBack (h nesting.deeper) hinner hfollows
  have hwritten : (Condition.not inner).written ++ rest' = '!' :: (inner.written ++ rest') := by
    simp [Condition.written]
  rw [hwritten]
  refine ⟨⟨_, rfl⟩, ?_⟩
  intro n hn
  rw [List.length_cons] at hn
  refine map_eq_read.mpr ⟨inner.mapRegexes Regex.fused, by rw [Condition.mapRegexes], ?_⟩
  rw [bind_of_read (char_cons _ _), bind_of_read (blanks_apply _), dropWhile_of_stops hblank]
  exact nested_eq_read.mpr ⟨hfull, hback n hn⟩

/-- Alternatives behind a comma, as the last argument before a bracket is closed, are read back. -/
theorem lastArgument_readBack (bracket : Bracket) {s rest : List Char} {alternatives : Disjunction}
    (hread : Disjunction.parserOf (p nesting) s = .read alternatives rest) (rest' : List Char)
    {n : Nat} (hn : (Disjunction.written alternatives ++ ')' :: rest').length < n) :
    (do let _ ← comma
        let alternatives ← Disjunction.parserOf (again n nesting)
        pure (.bracketed bracket alternatives) : Parser Condition)
      (',' :: ' ' :: (Disjunction.written alternatives ++ ')' :: rest')) =
        .read ((Condition.bracketed bracket alternatives).mapRegexes Regex.fused)
          (')' :: rest') := by
  obtain ⟨hblank, hback⟩ := Disjunction.readBack (h nesting) hread
    (show Ends [')', ']', '>', '/'] (')' :: rest') from ends_cons.mpr (by decide))
  rw [bind_of_read (comma_written hblank), bind_of_read (hback n hn), Condition.mapRegexes]
  rfl

/-- Alternatives as an argument of `swap` are read back. -/
theorem swapParser_readBack {s rest : List Char} {condition : Condition}
    (hread : swapParser (p nesting) s = .read condition rest) (rest' : List Char) :
    (∃ t, condition.written ++ rest' = 's' :: t) ∧
      ∀ n, (condition.written ++ rest').length ≤ n →
        swapParser (again n nesting) (condition.written ++ rest') =
          .read (condition.mapRegexes Regex.fused) rest' := by
  rw [swapParser] at hread
  obtain ⟨_, mid, -, hargs⟩ := bind_eq_read.mp hread
  obtain ⟨inside, after, hargs⟩ := parenthesized_eq_read hargs
  simp only [bind_eq_read, pure_eq_read] at hargs
  obtain ⟨number, _, hnumber, _, _, -, alternatives, last, halternatives, rfl, -⟩ := hargs
  have hwritten : (Condition.bracketed (.swap number) alternatives).written ++ rest' =
      "swap".toList ++ '(' :: (Text.natural number ++ ',' :: ' ' ::
        (Disjunction.written alternatives ++ ')' :: rest')) := by
    change "swap(".toList ++ Text.natural number ++ [',', ' '] ++
      Disjunction.written alternatives ++ [')'] ++ rest' = _
    simp
  rw [hwritten]
  refine ⟨⟨_, rfl⟩, ?_⟩
  intro n hn
  simp only [List.length_append, List.length_cons] at hn
  rw [swapParser, bind_of_read (keyword_written (stops_cons.mpr rfl))]
  refine parenthesized_written (stops_isBlank_natural _ _) ?_
  rw [bind_of_read (number_comma_written hnumber)]
  refine lastArgument_readBack h (.swap number) halternatives rest' ?_
  simp only [List.length_append, List.length_cons]
  omega

/-- Alternatives as an argument of `ccoll` are read back. -/
theorem ccollParser_readBack {s rest : List Char} {condition : Condition}
    (hread : ccollParser (p nesting) s = .read condition rest) (rest' : List Char) :
    (∃ t, condition.written ++ rest' = 'c' :: t) ∧
      ∀ n, (condition.written ++ rest').length ≤ n →
        ccollParser (again n nesting) (condition.written ++ rest') =
          .read (condition.mapRegexes Regex.fused) rest' := by
  rw [ccollParser] at hread
  obtain ⟨_, mid, -, hargs⟩ := bind_eq_read.mp hread
  obtain ⟨inside, after, hargs⟩ := parenthesized_eq_read hargs
  simp only [bind_eq_read, pure_eq_read] at hargs
  obtain ⟨first, _, hfirst, _, _, -, second, _, hsecond, _, _, -, alternatives, last,
    halternatives, rfl, -⟩ := hargs
  have hwritten : (Condition.bracketed (.ccoll first second) alternatives).written ++ rest' =
      "ccoll".toList ++ '(' :: (Text.natural first ++ ',' :: ' ' :: (Text.natural second ++ ',' ::
        ' ' :: (Disjunction.written alternatives ++ ')' :: rest'))) := by
    change "ccoll(".toList ++ Text.natural first ++ [',', ' '] ++ Text.natural second ++
      [',', ' '] ++ Disjunction.written alternatives ++ [')'] ++ rest' = _
    simp
  rw [hwritten]
  refine ⟨⟨_, rfl⟩, ?_⟩
  intro n hn
  simp only [List.length_append, List.length_cons] at hn
  rw [ccollParser, bind_of_read (keyword_written (stops_cons.mpr rfl))]
  refine parenthesized_written (stops_isBlank_natural _ _) ?_
  rw [bind_of_read (number_comma_written hfirst),
    bind_of_read (comma_written (stops_isBlank_natural _ _)),
    bind_of_read (number_comma_written hsecond)]
  refine lastArgument_readBack h (.ccoll first second) halternatives rest' ?_
  simp only [List.length_append, List.length_cons]
  omega

/-- A condition is restored when the conditions nested in it are. -/
theorem parserOf_restores :
    Restores (parserOf p nesting) (fun n => parserOf (again (n - 1)) nesting) Condition.form := by
  intro s condition rest hread rest' hfollows
  have hdigit : Stops Char.isDigit rest' := hfollows.stops (by decide)
  have hdash : rest'.head? ≠ some '-' := hfollows.head?_ne (by decide)
  change Stops isBlank (condition.written ++ rest') ∧ ∀ n, (condition.written ++ rest').length < n →
    parserOf (again (n - 1)) nesting (condition.written ++ rest') =
      .read (condition.mapRegexes Regex.fused) rest'
  simp only [parserOf_eq, orElse_eq_read] at hread
  rcases hread with hgroup | ⟨-, hnot | ⟨-, hlookUp | ⟨-, hswap | ⟨-, hccoll | ⟨-, hposition |
    ⟨-, hattribute⟩⟩⟩⟩⟩⟩
  · obtain ⟨⟨t, ht⟩, hback⟩ := groupParser_readBack h hgroup rest'
    rw [ht] at hback ⊢
    exact ⟨stops_cons.mpr rfl, fun n hn => parserOf_of_group (hback (n - 1) (by omega))⟩
  · obtain ⟨⟨t, ht⟩, hback⟩ := notParser_readBack h hnot hfollows
    rw [ht] at hback ⊢
    exact ⟨stops_cons.mpr rfl, fun n hn => parserOf_of_not (hback (n - 1) (by omega))⟩
  · obtain ⟨test, rfl, htest⟩ := map_eq_read.mp hlookUp
    obtain ⟨⟨c, t, ht, hc⟩, hback⟩ := Test.similarityTest_readBack htest rest'
    have hblank : isBlank c = false := by
      rcases hc with rfl | rfl <;> rfl
    change Stops isBlank (test.written ++ rest') ∧ ∀ n, (test.written ++ rest').length < n →
      parserOf (again (n - 1)) nesting (test.written ++ rest') = _
    rw [ht] at hback ⊢
    exact ⟨stops_cons.mpr hblank, fun _ _ => parserOf_of_lookUp hc hback⟩
  · obtain ⟨⟨t, ht⟩, hback⟩ := swapParser_readBack h hswap rest'
    rw [ht] at hback ⊢
    exact ⟨stops_cons.mpr rfl, fun n hn => parserOf_of_swap (hback (n - 1) (by omega))⟩
  · obtain ⟨⟨t, ht⟩, hback⟩ := ccollParser_readBack h hccoll rest'
    rw [ht] at hback ⊢
    exact ⟨stops_cons.mpr rfl, fun n hn => parserOf_of_ccoll (hback (n - 1) (by omega))⟩
  · obtain ⟨test, rfl, htest⟩ := map_eq_read.mp hposition
    obtain ⟨⟨t, ht⟩, hsame, hback⟩ := Test.positionTest_readBack htest hdigit hdash
    change Stops isBlank (test.written ++ rest') ∧ ∀ n, (test.written ++ rest').length < n →
      parserOf (again (n - 1)) nesting (test.written ++ rest') =
        .read (.test (test.mapRegexes Regex.fused)) rest'
    rw [hsame]
    rw [ht] at hback ⊢
    exact ⟨stops_cons.mpr rfl, fun _ _ => parserOf_of_position hback⟩
  · obtain ⟨test, rfl, htest⟩ := map_eq_read.mp hattribute
    obtain ⟨hname, hback⟩ := Test.attributeTest_readBack htest rest'
    obtain ⟨c, t, ht, hc⟩ := hname.eq_cons
    change Stops isBlank (test.written ++ rest') ∧ ∀ n, (test.written ++ rest').length < n →
      parserOf (again (n - 1)) nesting (test.written ++ rest') = _
    refine ⟨?_, fun _ _ => parserOf_of_attribute hname hback⟩
    rw [ht]
    exact stops_cons.mpr (isBlank_of_isNameStart hc)

end

/-- Conditions are restored. -/
theorem restores (nesting : Nesting) :
    Restores (parser nesting) (fun _ => parser nesting) form := by
  refine restores_recursive (fun _ => False) (fun _ _ _ hs => hs.elim) ?_ nesting
  intro p again h _ deeper
  exact parserOf_restores h

end Condition

/-- Alternatives are read back, where a bracket or a slash follows. -/
theorem Disjunction.parser_readBack {nesting : Nesting} {s rest rest' : List Char}
    {alternatives : Disjunction} (h : Disjunction.parser nesting s = .read alternatives rest)
    (hfollows : Ends [')', ']', '>', '/'] rest') :
    Stops isBlank (Disjunction.written alternatives ++ rest') ∧
      Disjunction.parser nesting (Disjunction.written alternatives ++ rest') =
        .read (Disjunction.mapRegexes Regex.fused alternatives) rest' := by
  obtain ⟨hblank, hback⟩ := Disjunction.readBack (Condition.restores nesting) h hfollows
  exact ⟨hblank, hback _ (Nat.lt_succ_self _)⟩

/-- A character that may begin a condition. -/
def beginsCondition (c : Char) : Bool := isNameStart c || ['(', '!', '#'].contains c

/-- No alternatives stand where no condition begins. -/
theorem Disjunction.parser_of_stops {nesting : Nesting} {s : List Char}
    (h : Stops beginsCondition s) : Disjunction.parser nesting s = .miss := by
  have hne : ∀ c, beginsCondition c = true → s.head? ≠ some c := by
    intro c hc hhead
    have hstop := h c hhead
    simp [hc] at hstop
  have hlookUp : ['w', 't'].all beginsCondition = true := by decide
  rw [Disjunction.parser, Disjunction.parserOf, sepBy1_eq_miss, sepBy1_eq_miss]
  change recursive _ nesting s = _
  rw [recursive_eq, Condition.parserOf_eq]
  simp only [orElse_eq_miss, map_eq_miss]
  refine ⟨Condition.opensWith_groupParser.miss (hne _ (by decide)),
    Condition.opensWith_notParser.miss (hne _ (by decide)),
    Condition.opensWith_similarityTest _ fun c hc => hne c (List.all_eq_true.mp hlookUp c hc),
    Condition.opensWith_swapParser.miss (hne _ (by decide)),
    Condition.opensWith_ccollParser.miss (hne _ (by decide)),
    Condition.opensWith_positionTest.miss (hne _ (by decide)), ?_⟩
  rw [Test.attributeTest, bind_eq_miss]
  exact .inl (name_of_stops (h.mono fun c hc => by simp [beginsCondition, hc]))

/-- No alternatives stand where brackets or tags are closed. -/
theorem Disjunction.parser_of_ends {nesting : Nesting} {s : List Char}
    (h : Ends [']', '>', '/'] s) : Disjunction.parser nesting s = .miss :=
  Disjunction.parser_of_stops (h.stops (by decide))

end CorpusCost
