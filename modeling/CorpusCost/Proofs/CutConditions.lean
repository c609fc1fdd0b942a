import CorpusCost.Proofs.ConditionReadBack
import CorpusCost.Proofs.CutWords
import CorpusCost.Proofs.Sealed

/-!
# Conditions of cut texts

What stands between the square brackets of a token, and in a tag, is read from a cut text as it was
from the whole one, where the cut leaves something that may stand behind it. Quotes and brackets
close what they opened, so that most constructs may be followed by anything; conditions in a row
need a sign ahead that continues or ends the row.
-/

set_option autoImplicit false

namespace CorpusCost

open CorpusCost.Parser

variable {y : List Char} {Φ : List Char → Prop} {nesting : Nesting}

/-! ## Quoted texts -/

theorem cut_quoted (nesting : Nesting) :
    Cut y Φ (Regex.quoted nesting) (Regex.quoted nesting) where
  suffix {s rest regex} h := by
    obtain ⟨v, rfl, -⟩ := Regex.quoted_append h
    exact ⟨'"' :: v ++ ['"'], by simp⟩
  read {t x regex} h _ := by
    obtain ⟨v, hs, hagain⟩ := Regex.quoted_append h
    have ht : t ++ y = '"' :: (v ++ '"' :: x) ++ y := by
      rw [hs]
      simp
    rw [List.append_cancel_right ht]
    exact hagain x

theorem cut_literalLetter : Cut y Φ literalLetter literalLetter := by
  refine ((cut_char '\\').seq fun _ => cut_satisfy _).orElse (cut_satisfy _) ?_
  intro t c x _ hread _
  obtain ⟨hc, rfl⟩ := noneOf_eq_read.mp hread
  have hslash : c ≠ '\\' := by
    rintro rfl
    simp at hc
  exact bind_of_miss (char_eq_miss.mpr (by simpa using hslash)) _

theorem cut_literal : Cut y Φ literal literal := by
  have hletters : Cut y (Ends ['"']) (many literalLetter) (many literalLetter) := by
    have hletter : Cut y Anything literalLetter literalLetter := cut_literalLetter
    refine hletter.many (fun _ _ _ _ _ => trivial) ?_
    intro x hx
    refine ⟨trivial, orElse_eq_miss.mpr ⟨?_, ?_⟩⟩
    · exact bind_of_miss (char_eq_miss.mpr (hx.head?_ne (by decide))) _
    · exact satisfy_eq_miss.mpr (hx.stops (by decide))
  refine Cut.map _ (Cut.between (cut_char '"') (cut_char '"') hletters ?_)
  intro u c x hclose _
  exact (opensWith_char _).ends hclose

/-! ## Tests -/

/-- A comparison is read before the quote of its expression. -/
theorem Comparison.parser_cut :
    Cut y (Ahead ['"']) Comparison.parser Comparison.parser := by
  have hsimilar : Cut y (Ahead ['"']) (do
      let _ ← char '~'
      let threshold ← optional number
      pure (Comparison.similar threshold)) (do
      let _ ← char '~'
      let threshold ← optional number
      pure (Comparison.similar threshold)) :=
    (cut_char '~').seq fun _ => (cut_optional_number fun _ hx =>
      hx.stops (by decide) (by decide)).map Comparison.similar
  exact ((cut_text "<=").map _).orElse_of_fades ((fades_text _).map _) <|
    ((cut_text ">=").map _).orElse_of_fades ((fades_text _).map _) <|
    ((cut_char '=').map _).orElse_of_fades ((fades_char _).map _) hsimilar

namespace Test

theorem cut_similarityArgs (nesting : Nesting) :
    Cut y Φ (similarityArgs nesting) (similarityArgs nesting) := by
  refine Cut.orElse (cut_number.seq fun _ => cut_comma.seq fun _ => cut_number.map _)
    ((cut_quoted nesting).seq fun _ => cut_comma.seq fun _ => (cut_quoted nesting).seq fun _ =>
      cut_comma.seq fun _ => (cut_quoted nesting).map _) ?_
  intro t args x _ hread _
  obtain ⟨first, mid, hfirst, -⟩ := bind_eq_read.mp hread
  obtain ⟨inside, rfl⟩ := Regex.opensWith_quoted.eq_cons hfirst
  exact bind_of_miss (number_of_stops (stops_cons.mpr rfl)) _

theorem cut_similarityTest (nesting : Nesting) :
    Cut y Φ (similarityTest nesting) (similarityTest nesting) := by
  refine Cut.seq ?_ fun kind => (Cut.parenthesized (cut_similarityArgs nesting)).map _
  exact ((cut_keyword "ws").map _).orElse_of_opensWith ((cut_keyword "term").map _)
    ((opensWith_keyword 'w' rfl).map _) ((opensWith_keyword 't' rfl).map _) (by decide)

theorem cut_positionTest (hdash : ∀ x, Φ x → x.head? ≠ some '-') :
    Cut y Φ positionTest positionTest := by
  have hlast : Cut y Φ (optional (do let _ ← char '-'; number))
      (optional (do let _ ← char '-'; number)) :=
    ((cut_char '-').seq fun _ => cut_number).optional fun x _ hx =>
      bind_of_miss (char_eq_miss.mpr (hdash x hx)) _
  refine (cut_char '#').seq fun _ => cut_number.seq fun first =>
    hlast.bind (fun last => ?_) ?_
  · cases last <;> exact cut_pure _
  · intro last u test x hread hx
    cases last <;>
    · obtain ⟨-, rfl⟩ := pure_eq_read.mp hread
      exact hx

/-- A comparison begins with its sign. -/
theorem comparison_eq_cons {s rest : List Char} {comparison : Comparison}
    (h : Comparison.parser s = .read comparison rest) :
    ∃ c t, s = c :: t ∧ c ∈ attributeSigns := by
  simp only [Comparison.parser_eq, orElse_eq_read, map_eq_read, bind_eq_read, text_eq_read,
    char_eq_read] at h
  rcases h with ⟨_, -, rfl⟩ | ⟨-, ⟨_, -, rfl⟩ | ⟨-, ⟨_, -, -, rfl⟩ | ⟨-, _, mid, ⟨-, rfl⟩, -⟩⟩⟩
  · exact ⟨'<', '=' :: rest, rfl, by decide⟩
  · exact ⟨'>', '=' :: rest, rfl, by decide⟩
  · exact ⟨'=', rest, rfl, by decide⟩
  · exact ⟨'~', mid, rfl, by decide⟩

/-- Behind the name of an attribute that is tested stands a sign. -/
theorem isAttribute_of_read {s rest : List Char} {test : Test}
    (h : attributeTest nesting s = .read test rest) : IsAttribute s := by
  rw [attributeTest] at h
  obtain ⟨attr, mid, hname, h⟩ := bind_eq_read.mp h
  obtain ⟨negated, last, hnegated, h⟩ := bind_eq_read.mp h
  refine ⟨attr, mid, hname, ?_⟩
  rcases present_eq_read.mp hnegated with ⟨-, _, hsign⟩ | ⟨-, -, rfl⟩
  · exact ⟨'!', last, (char_eq_read.mp hsign).2, by decide⟩
  · rw [bind_of_read (blanks_apply mid)] at h
    rcases orElse_eq_read.mp h with hexactly | ⟨-, hmatching⟩
    · obtain ⟨_, after, hsign, -⟩ := bind_eq_read.mp hexactly
      exact ⟨'=', '=' :: after, text_eq_read.mp hsign, by decide⟩
    · obtain ⟨comparison, after, hcomparison, -⟩ := bind_eq_read.mp hmatching
      exact comparison_eq_cons hcomparison

/-- An equals sign that another one follows compares with no expression. -/
theorem equal_of_doubled {t : List Char} {comparison : Comparison} {rest : List Char}
    (h : Comparison.parser ('=' :: '=' :: t) = .read comparison rest) : rest = '=' :: t := by
  simp only [Comparison.parser_eq, orElse_eq_read, map_eq_read, bind_eq_read, text_eq_read,
    char_eq_read] at h
  rcases h with ⟨_, -, hs⟩ | ⟨-, ⟨_, -, hs⟩ | ⟨-, ⟨_, -, -, hs⟩ | ⟨-, _, mid, ⟨-, hs⟩, -⟩⟩⟩
  · simp at hs
  · simp at hs
  · exact (List.cons.inj hs).2.symm
  · simp at hs

theorem cut_attributeTest (nesting : Nesting) :
    Cut y Φ (attributeTest nesting) (attributeTest nesting) := by
  refine cut_name.seq fun attr => (cut_present_afterBlanks '!').seq fun negated =>
    cut_blanks.seq fun _ => ?_
  refine Cut.orElse ((cut_text "==").seq fun _ => cut_literal.afterBlanks.map _)
    (Comparison.parser_cut.bind (fun _ => (cut_quoted nesting).afterBlanks.map _) ?_) ?_
  · intro comparison u test x hread _
    obtain ⟨regex, -, hregex⟩ := map_eq_read.mp hread
    exact Regex.opensWith_quoted.ends hregex
  · intro t test x _ hread _
    refine bind_of_miss (text_eq_miss.mpr ?_) _
    rintro ⟨u, rfl⟩
    obtain ⟨comparison, mid, hcomparison, hregex⟩ := bind_eq_read.mp hread
    obtain rfl := equal_of_doubled hcomparison
    obtain ⟨regex, _, hquoted, -⟩ := bind_eq_read.mp hregex
    rw [afterBlanks_apply, dropWhile_of_stops (stops_cons.mpr rfl)] at hquoted
    obtain ⟨inside, hinside⟩ := Regex.opensWith_quoted.eq_cons hquoted
    simp at hinside

end Test

/-! ## Conditions -/

/-- What may stand ahead behind a condition. -/
def conditionEnds : List Char := ['&', '|', ')', ']', '>', '/']

/-- What may stand ahead behind alternatives of conditions. -/
def disjunctionEnds : List Char := [')', ']', '>', '/']

/-- Alternatives are read from cut texts when the conditions in them are. -/
theorem Disjunction.cut_parserOf {p q : Parser Condition} (h : Cut y (Ahead conditionEnds) p q) :
    Cut y (Ahead disjunctionEnds) (parserOf p) (parserOf q) := by
  have hrow : Cut y (Ahead ('|' :: disjunctionEnds)) (sepBy1 (spaced (char '&')) p)
      (sepBy1 (spaced (char '&')) q) :=
    Cut.sepBy1 (cut_char '&').spaced h
      (fun _ _ _ hand => (ahead_of_spaced hand).mono (by decide))
      fun _ hx => ⟨hx.mono (by decide), hx.spaced_char (by decide)⟩
  exact Cut.sepBy1 (cut_char '|').spaced hrow
    (fun _ _ _ hor => (ahead_of_spaced hor).mono (by decide))
    fun _ hx => ⟨hx.mono (by decide), hx.spaced_char (by decide)⟩

namespace Condition

section

variable {p q : Nesting → Parser Condition}
  (h : ∀ nesting, Cut y (Ahead conditionEnds) (p nesting) (q nesting))

include h

theorem cut_groupParser (nesting : Nesting) :
    Cut y Φ (groupParser p nesting) (groupParser q nesting) := by
  refine Cut.map _ (Cut.bracketed (Cut.nested (fun deeper => ?_) nesting))
  exact (Disjunction.cut_parserOf (h deeper)).imp fun _ hx => hx.mono (by decide)

theorem cut_notParser (nesting : Nesting) :
    Cut y (Ahead conditionEnds) (notParser p nesting) (notParser q nesting) :=
  Cut.map _ ((cut_char '!').seq fun _ => cut_blanks.seq fun _ => Cut.nested h nesting)

theorem cut_swapParser (nesting : Nesting) :
    Cut y Φ (swapParser (p nesting)) (swapParser (q nesting)) :=
  (cut_keyword "swap").seq fun _ => Cut.parenthesized <|
    cut_number.seq fun _ => cut_comma.seq fun _ =>
      ((Disjunction.cut_parserOf (h nesting)).imp fun _ hx => hx.mono (by decide)).map _

theorem cut_ccollParser (nesting : Nesting) :
    Cut y Φ (ccollParser (p nesting)) (ccollParser (q nesting)) :=
  (cut_keyword "ccoll").seq fun _ => Cut.parenthesized <|
    cut_number.seq fun _ => cut_comma.seq fun _ => cut_number.seq fun _ => cut_comma.seq fun _ =>
      ((Disjunction.cut_parserOf (h nesting)).imp fun _ hx => hx.mono (by decide)).map _

/-- A condition is read from cut texts when the conditions nested in it are. It is told from the
constructs tried before it by how it begins, which the cut leaves as it is. -/
theorem cut_parserOf (nesting : Nesting) :
    Cut y (Ahead conditionEnds) (parserOf p nesting) (parserOf q nesting) := by
  have hgroup : Cut y (Ahead conditionEnds) _ _ := cut_groupParser h nesting
  have hnot := cut_notParser h nesting
  have hlookUp : Cut y (Ahead conditionEnds) _ _ := Test.cut_similarityTest nesting
  have hswap : Cut y (Ahead conditionEnds) _ _ := cut_swapParser h nesting
  have hccoll : Cut y (Ahead conditionEnds) _ _ := cut_ccollParser h nesting
  have hposition : Cut y (Ahead conditionEnds) Test.positionTest Test.positionTest :=
    Test.cut_positionTest fun _ hx => hx.head?_ne (by decide) (by decide)
  have hattribute : Cut y (Ahead conditionEnds) _ _ := Test.cut_attributeTest nesting
  refine ⟨?_, ?_⟩
  · intro s rest condition hread
    simp only [parserOf_eq, orElse_eq_read, map_eq_read] at hread
    rcases hread with hread | ⟨-, hread | ⟨-, ⟨test, -, hread⟩ | ⟨-, hread | ⟨-, hread |
      ⟨-, ⟨test, -, hread⟩ | ⟨-, test, -, hread⟩⟩⟩⟩⟩⟩
    · exact hgroup.suffix hread
    · exact hnot.suffix hread
    · exact hlookUp.suffix hread
    · exact hswap.suffix hread
    · exact hccoll.suffix hread
    · exact hposition.suffix hread
    · exact hattribute.suffix hread
  · intro t x condition hread hx
    simp only [parserOf_eq, orElse_eq_read, map_eq_read] at hread
    rcases hread with hread | ⟨-, hread | ⟨-, ⟨test, rfl, hread⟩ | ⟨-, hread | ⟨-, hread |
      ⟨-, ⟨test, rfl, hread⟩ | ⟨-, test, rfl, hread⟩⟩⟩⟩⟩⟩
    · exact parserOf_of_group (hgroup.read hread hx)
    · have hcut := hnot.read hread hx
      obtain ⟨u, rfl⟩ := opensWith_notParser.eq_cons hcut
      exact parserOf_of_not hcut
    · have hcut := hlookUp.read hread hx
      obtain ⟨c, u, rfl, hc⟩ := opensWith_similarityTest.read hcut
      exact parserOf_of_lookUp (by simpa using hc) hcut
    · have hcut := hswap.read hread hx
      obtain ⟨u, rfl⟩ := opensWith_swapParser.eq_cons hcut
      exact parserOf_of_swap hcut
    · have hcut := hccoll.read hread hx
      obtain ⟨u, rfl⟩ := opensWith_ccollParser.eq_cons hcut
      exact parserOf_of_ccoll hcut
    · have hcut := hposition.read hread hx
      obtain ⟨u, rfl⟩ := opensWith_positionTest.eq_cons hcut
      exact parserOf_of_position hcut
    · have hcut := hattribute.read hread hx
      exact parserOf_of_attribute (Test.isAttribute_of_read hcut) hcut

end

theorem parser_cut (nesting : Nesting) :
    Cut y (Ahead conditionEnds) (parser nesting) (parser nesting) :=
  cut_recursive (fun _ _ h _ => cut_parserOf h) nesting

end Condition

theorem Disjunction.parser_cut (nesting : Nesting) :
    Cut y (Ahead disjunctionEnds) (parser nesting) (parser nesting) :=
  cut_parserOf (Condition.parser_cut nesting)

/-- No alternatives stand before a closing bracket or the end of a tag, with any blanks in
between. -/
theorem Disjunction.parser_of_ahead {s : List Char} (h : Ahead [']', '>', '/'] s) :
    Disjunction.parser nesting s = .miss :=
  Disjunction.parser_of_stops (h.stops (by decide) (by decide))

end CorpusCost
