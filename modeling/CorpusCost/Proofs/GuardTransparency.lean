import CorpusCost.Proofs.Guarded
import CorpusCost.Query.Reading

/-!
# The guard on nesting is transparent

Every construct of the grammar that opens a bracket or a negation reads its sign before it asks the
guard, so the grammar reads the same with and without a limit until the limit ends reading, and then
more signs were passed over than the limit allows. The constructs are gone through from the
innermost to the whole query; each is put together like its reader.
-/

set_option autoImplicit false

namespace CorpusCost

open CorpusCost.Parser

variable {nesting free : Nesting}

/-! ## Regular expressions -/

namespace Regex

theorem guarded_escape : Guarded nesting escape escape :=
  (guarded_char _).bind fun _ => (guarded_satisfy _).bind fun _ => guarded_pure _

theorem guarded_propertyClass : Guarded nesting propertyClass propertyClass := by
  have hbraced : Guarded nesting bracedProperty bracedProperty :=
    (guarded_char _).bind fun _ => (guarded_takeWhile1 _).bind fun _ =>
      (guarded_char _).bind fun _ => guarded_pure _
  have hletter : Guarded nesting (do let c ← satisfy Char.isAlpha; pure [c])
      (do let c ← satisfy Char.isAlpha; pure [c]) :=
    (guarded_satisfy _).bind fun _ => guarded_pure _
  exact (guarded_char _).bind fun _ => (guarded_satisfy _).bind fun _ =>
    (hbraced.orElse hletter).bind fun _ => guarded_pure _

theorem guarded_symbol : Guarded nesting symbol symbol := by
  apply guarded_firstOf
  exact .cons ((guarded_char _).map _) <| .cons ((guarded_char _).map _) <|
    .cons ((guarded_satisfy _).map _) <| .cons ((guarded_satisfy _).map _) <|
    .cons (guarded_propertyClass.map _) <| .cons (guarded_escape.map _) <|
    .cons ((guarded_satisfy _).map _) .nil

theorem guarded_namedMember : Guarded nesting namedMember namedMember :=
  (guarded_text _).bind fun _ => (guarded_takeWhile1 _).bind fun _ =>
    (guarded_text _).bind fun _ => guarded_pure _

theorem guarded_member : Guarded nesting member member := by
  have hchar : Guarded nesting classChar classChar := guarded_satisfy _
  apply guarded_firstOf
  exact .cons (guarded_namedMember.map _) <| .cons (guarded_escape.map _) <|
    .cons (hchar.bind fun _ => (guarded_char _).bind fun _ => hchar.bind fun _ => guarded_pure _) <|
    .cons (hchar.map _) .nil

theorem guarded_charClass : Guarded nesting charClass charClass :=
  (guarded_char _).bind fun _ => (guarded_char _).present.bind fun _ =>
    guarded_member.many1.bind fun _ => (guarded_char _).bind fun _ => guarded_pure _

theorem guarded_namedClass : Guarded nesting namedClass namedClass :=
  (guarded_text _).bind fun _ => (guarded_takeWhile1 _).bind fun _ =>
    (guarded_text _).bind fun _ => guarded_pure _

theorem guarded_atom : Guarded nesting atom atom := by
  apply guarded_firstOf
  exact .cons (guarded_bounds.map _) <| .cons (guarded_namedClass.map _) <|
    .cons (guarded_charClass.map _) <| .cons (guarded_symbol.map _) <|
    .cons ((guarded_satisfy _).map _) .nil

theorem transparent_lookPart {lookBody : Nesting → Parser (List Char)}
    (h : Transparent lookBody) : Transparent (lookPart lookBody) := by
  intro nesting free hfree
  apply guarded_firstOf
  refine .cons guarded_escape <| .cons ?_ <| .cons ((guarded_satisfy _).map _) .nil
  exact (opens_char (by decide)).bind fun _ => (guarded_nested hfree (h.deeper nesting hfree)).bind fun _ =>
    (guarded_char _).bind fun _ => guarded_pure _

theorem transparent_lookBody : Transparent lookBody := by
  apply transparent_recursive
  intro p hp nesting free hfree
  exact ((transparent_lookPart hp hfree).many).map _

theorem transparent_look : Transparent look := by
  intro nesting free hfree
  exact (guarded_text _).bind fun _ => (transparent_lookBody hfree).bind fun _ =>
    (guarded_char _).bind fun _ => guarded_pure _

theorem transparent_pieceOf {choice : Nesting → Parser (List Branch)} (h : Transparent choice) :
    Transparent (pieceOf choice) := by
  intro nesting free hfree
  have hgroup : Guarded nesting (between (char '(') (char ')') (nested nesting choice))
      (between (char '(') (char ')') (nested free choice)) :=
    (opens_char (by decide)).between (guarded_char _) (guarded_nested hfree (h.deeper nesting hfree))
  apply guarded_firstOf
  exact .cons ((transparent_look hfree).map _) <| .cons (hgroup.map _) <|
    .cons (guarded_atom.many1.map _) .nil

theorem transparent_choice : Transparent choice := by
  apply transparent_recursive
  intro p hp nesting free hfree
  exact (guarded_char _).sepBy1 (transparent_pieceOf hp hfree).many

theorem transparent_quoted : Transparent quoted := by
  intro nesting free hfree
  exact (guarded_char _).between (guarded_char _) ((transparent_choice hfree).map _)

end Regex

/-! ## Conditions -/

theorem Comparison.parser_guarded : Guarded nesting Comparison.parser Comparison.parser := by
  apply guarded_firstOf
  exact .cons ((guarded_text _).map _) <| .cons ((guarded_text _).map _) <|
    .cons ((guarded_char _).map _) <|
    .cons ((guarded_char _).bind fun _ => guarded_number.optional.bind fun _ => guarded_pure _) .nil

theorem guarded_literal : Guarded nesting literal literal := by
  have hescaped : Guarded nesting (do let _ ← char '\\'; anyChar) (do let _ ← char '\\'; anyChar) :=
    (guarded_char _).bind fun _ => guarded_satisfy _
  have hplain : Guarded nesting (noneOf ['"', '\\']) (noneOf ['"', '\\']) := guarded_satisfy _
  exact ((guarded_char _).between (guarded_char _) (hescaped.orElse hplain).many).bind fun _ =>
    guarded_pure _

namespace Test

theorem transparent_similarityArgs : Transparent similarityArgs := by
  intro nesting free hfree
  have hregex : Guarded nesting (Regex.quoted nesting) (Regex.quoted free) :=
    Regex.transparent_quoted hfree
  apply Guarded.orElse
  · exact guarded_number.bind fun _ => guarded_comma.bind fun _ =>
      guarded_number.bind fun _ => guarded_pure _
  · exact hregex.bind fun _ => guarded_comma.bind fun _ => hregex.bind fun _ =>
      guarded_comma.bind fun _ => hregex.bind fun _ => guarded_pure _

theorem transparent_similarityTest : Transparent similarityTest := by
  intro nesting free hfree
  exact (((guarded_keyword _).map _).orElse ((guarded_keyword _).map _)).bind fun _ =>
    (transparent_similarityArgs hfree).parenthesized.bind fun _ => guarded_pure _

theorem guarded_positionTest : Guarded nesting positionTest positionTest := by
  have hlast : Guarded nesting (do let _ ← char '-'; number) (do let _ ← char '-'; number) :=
    (guarded_char _).bind fun _ => guarded_number
  refine (guarded_char _).bind fun _ => guarded_number.bind fun first =>
    hlast.optional.bind fun last => ?_
  cases last with
  | none => exact guarded_pure _
  | some last => exact guarded_pure _

theorem transparent_attributeTest : Transparent attributeTest := by
  intro nesting free hfree
  refine guarded_name.bind fun _ => (guarded_char _).afterBlanks.present.bind fun _ =>
    guarded_blanks.bind fun _ => Guarded.orElse ?_ ?_
  · exact (guarded_text _).bind fun _ => guarded_literal.afterBlanks.bind fun _ => guarded_pure _
  · exact Comparison.parser_guarded.bind fun _ =>
      (Regex.transparent_quoted hfree).afterBlanks.bind fun _ => guarded_pure _

end Test

theorem Disjunction.guarded_parserOf {p q : Parser Condition} (h : Guarded nesting p q) :
    Guarded nesting (Disjunction.parserOf p) (Disjunction.parserOf q) :=
  (guarded_char _).spaced.sepBy1 ((guarded_char _).spaced.sepBy1 h)

namespace Condition

theorem guarded_swapParser {p q : Parser Condition} (h : Guarded nesting p q) :
    Guarded nesting (swapParser p) (swapParser q) := by
  refine (guarded_keyword _).bind fun _ => Guarded.parenthesized ?_
  exact guarded_number.bind fun _ => guarded_comma.bind fun _ =>
    (Disjunction.guarded_parserOf h).bind fun _ => guarded_pure _

theorem guarded_ccollParser {p q : Parser Condition} (h : Guarded nesting p q) :
    Guarded nesting (ccollParser p) (ccollParser q) := by
  refine (guarded_keyword _).bind fun _ => Guarded.parenthesized ?_
  exact guarded_number.bind fun _ => guarded_comma.bind fun _ => guarded_number.bind fun _ =>
    guarded_comma.bind fun _ => (Disjunction.guarded_parserOf h).bind fun _ => guarded_pure _

section

variable {condition : Nesting → Parser Condition} (h : Transparent condition)

include h

theorem transparent_groupParser : Transparent (groupParser condition) := by
  intro nesting free hfree
  have hinner := Disjunction.guarded_parserOf (h.deeper nesting hfree)
  exact ((opens_char (by decide)).blanks.between (guarded_char _).afterBlanks
    (guarded_nested hfree hinner)).map _

/-- A negation stands for a bracket that is never closed. -/
theorem transparent_notParser : Transparent (notParser condition) := by
  intro nesting free hfree
  refine Guarded.map _ ((opens_char (by decide)).bind fun _ => ?_)
  exact guarded_blanks.bind fun _ => guarded_nested hfree (h.deeper nesting hfree)

theorem transparent_parserOf : Transparent (parserOf condition) := by
  intro nesting free hfree
  apply guarded_firstOf
  exact .cons (transparent_groupParser h hfree) <| .cons (transparent_notParser h hfree) <|
    .cons ((Test.transparent_similarityTest hfree).map _) <|
    .cons (guarded_swapParser (h hfree)) <| .cons (guarded_ccollParser (h hfree)) <|
    .cons (Test.guarded_positionTest.map _) <|
    .cons ((Test.transparent_attributeTest hfree).map _) .nil

end

theorem parser_transparent : Transparent parser := by
  apply transparent_recursive
  intro p hp
  exact transparent_parserOf hp

end Condition

theorem Disjunction.parser_transparent : Transparent Disjunction.parser := by
  intro nesting free hfree
  exact Disjunction.guarded_parserOf (Condition.parser_transparent hfree)

/-! ## Positions -/

theorem Pairing.guarded_parserOf {p q : Parser Position} (h : Guarded nesting p q) :
    Guarded nesting (Pairing.parserOf p) (Pairing.parserOf q) := by
  have hwindow : Guarded nesting (do
      let first ← spaced signed
      let last ← signed
      pure (first, last)) (do
      let first ← spaced signed
      let last ← signed
      pure (first, last)) :=
    guarded_signed.spaced.bind fun _ => guarded_signed.bind fun _ => guarded_pure _
  apply Guarded.orElse
  · exact (guarded_keyword _).bind fun _ => h.afterBlanks.bind fun _ =>
      h.afterBlanks.bind fun _ => hwindow.optional.bind fun _ => guarded_pure _
  · exact (guarded_keyword _).bind fun _ => h.afterBlanks.bind fun _ =>
      h.afterBlanks.bind fun _ => guarded_pure _

theorem Token.transparent_parserOf {position : Nesting → Parser Position}
    (h : Transparent position) : Transparent (Token.parserOf position) := by
  intro nesting free hfree
  have hopen : Guarded nesting (do let _ ← char '['; blanks) (do let _ ← char '['; blanks) :=
    (guarded_char _).bind fun _ => guarded_blanks
  have hpairing := Pairing.guarded_parserOf (h.deeper nesting hfree)
  apply guarded_firstOf
  refine .cons (Guarded.map _ ?_) <| .cons ?_ <| .cons (Guarded.map _ ?_) <|
    .cons ((guarded_keyword _).map _) <| .cons ((Regex.transparent_quoted hfree).map _) .nil
  · exact hopen.between (guarded_char _).afterBlanks (Disjunction.parser_transparent hfree).optional
  · exact (guarded_char _).bind fun _ => guarded_number.optional.bind fun _ =>
      (Regex.transparent_quoted hfree).bind fun _ => guarded_pure _
  · exact (opens_char (by decide)).blanks.between (guarded_char _).afterBlanks
      (guarded_nested hfree hpairing)

theorem Position.parser_transparent : Transparent Position.parser := by
  apply transparent_recursive
  intro p hp nesting free hfree
  have htoken : Guarded nesting (Token.parserOf p nesting) (Token.parserOf p free) :=
    Token.transparent_parserOf hp hfree
  apply Guarded.orElse
  · exact guarded_number.bind fun _ => (guarded_char _).bind fun _ =>
      htoken.bind fun _ => guarded_pure _
  · exact htoken.bind fun _ => guarded_pure _

/-! ## Chains and blocks -/

theorem Repetition.parser_guarded : Guarded nesting Repetition.parser Repetition.parser := by
  apply guarded_firstOf
  exact .cons ((guarded_char _).map _) <| .cons ((guarded_char _).map _) <|
    .cons ((guarded_char _).map _) <| .cons (guarded_bounds.map _) .nil

theorem Structure.parser_transparent : Transparent Structure.parser := by
  intro nesting free hfree
  exact guarded_name.bind fun _ =>
    (Disjunction.parser_transparent hfree).afterBlanks.optional.bind fun _ => guarded_pure _

theorem Element.guarded_closingParser :
    Guarded nesting Element.closingParser Element.closingParser :=
  (guarded_char _).bind fun _ => guarded_blanks.bind fun _ => (guarded_char _).bind fun _ =>
    guarded_blanks.bind fun _ => guarded_name.bind fun _ =>
      (guarded_char _).afterBlanks.bind fun _ => guarded_pure _

theorem Element.transparent_openingParser : Transparent Element.openingParser := by
  intro nesting free hfree
  have hstruct : Guarded nesting (Structure.parser nesting) (Structure.parser free) :=
    Structure.parser_transparent hfree
  exact (guarded_char _).bind fun _ => hstruct.afterBlanks.bind fun _ =>
    (guarded_char _).afterBlanks.present.bind fun _ =>
      (guarded_char _).afterBlanks.bind fun _ => guarded_pure _

section

variable (hfree : free.limit = none) {p q : Parser Atom} (h : Guarded nesting p q)

include hfree h

theorem Element.guarded_parserOf :
    Guarded nesting (Element.parserOf p nesting) (Element.parserOf q free) := by
  apply guarded_firstOf
  exact .cons Element.guarded_closingParser <| .cons (Element.transparent_openingParser hfree) <|
    .cons (h.bind fun _ => Repetition.parser_guarded.optional.bind fun _ => guarded_pure _) .nil

theorem Sequence.guarded_parserOf :
    Guarded nesting (Sequence.parserOf p nesting) (Sequence.parserOf q free) := by
  have hchain : Guarded nesting (Chain.parserOf p nesting) (Chain.parserOf q free) :=
    guarded_bang.bind fun _ => (Element.guarded_parserOf hfree h).afterBlanks.many1.bind fun _ =>
      guarded_pure _
  exact ((guarded_char _).spaced.sepBy1 hchain).map _

end

section

variable {p q : Parser Sequence} (h : Guarded nesting p q)

include h

theorem Scope.guarded_parserOf : Guarded nesting (Scope.parserOf p) (Scope.parserOf q) := by
  apply guarded_firstOf
  refine .cons ?_ <| .cons ?_ <| .cons (h.map _) .nil
  · exact guarded_number.bind fun _ => (guarded_char _).absent.bind fun _ => guarded_pure _
  · exact guarded_bang.bind fun _ => guarded_name.bind fun _ =>
      (guarded_char _).spaced.bind fun _ => h.bind fun _ => guarded_pure _

theorem Block.guarded_parserOf : Guarded nesting (Block.parserOf p) (Block.parserOf q) :=
  guarded_bang.bind fun _ =>
    (((guarded_keyword _).map _).orElse ((guarded_keyword _).map _)).bind fun _ =>
      (Scope.guarded_parserOf h).afterBlanks.bind fun _ => guarded_pure _

end

theorem Atom.transparent_groupParserOf {atom : Nesting → Parser Atom} (h : Transparent atom) :
    Transparent (Atom.groupParserOf atom) := by
  intro nesting free hfree
  have hdeeper : free.deeper.limit = none := hfree
  have hsequence := Sequence.guarded_parserOf hdeeper (h.deeper nesting hfree)
  refine (opens_char (by decide)).blanks.between (guarded_char _).afterBlanks
    (guarded_nested hfree ?_)
  exact hsequence.bind fun _ => (Block.guarded_parserOf hsequence).afterBlanks.many.bind fun _ =>
    guarded_pure _

theorem Atom.parser_transparent : Transparent Atom.parser := by
  apply transparent_recursive
  intro p hp nesting free hfree
  exact ((Position.parser_transparent hfree).map _).orElse
    (Atom.transparent_groupParserOf hp hfree)

theorem Sequence.parser_transparent : Transparent Sequence.parser := by
  intro nesting free hfree
  exact Sequence.guarded_parserOf hfree (Atom.parser_transparent hfree)

/-! ## Conditions across tokens -/

theorem guarded_labelledAttribute : Guarded nesting labelledAttribute labelledAttribute :=
  guarded_number.bind fun _ => (guarded_char _).bind fun _ => guarded_name.bind fun _ =>
    guarded_pure _

theorem FrequencyComparison.parser_guarded :
    Guarded nesting FrequencyComparison.parser FrequencyComparison.parser := by
  apply guarded_firstOf
  exact .cons ((guarded_text _).map _) <| .cons ((guarded_text _).map _) <|
    .cons ((guarded_char _).map _) <| .cons ((guarded_char _).map _) <|
    .cons ((guarded_char _).map _) .nil

theorem GlobalCondition.parser_guarded :
    Guarded nesting GlobalCondition.parser GlobalCondition.parser := by
  apply Guarded.orElse
  · exact (guarded_keyword _).bind fun _ => guarded_labelledAttribute.parenthesized.bind fun _ =>
      guarded_bang.afterBlanks.bind fun _ => FrequencyComparison.parser_guarded.bind fun _ =>
        guarded_number.afterBlanks.bind fun _ => guarded_pure _
  · refine guarded_labelledAttribute.bind fun _ => Guarded.bind (Guarded.spaced ?_) fun _ =>
      guarded_labelledAttribute.bind fun _ => guarded_pure _
    apply guarded_firstOf
    exact .cons ((guarded_text _).map _) <| .cons ((guarded_text _).map _) <|
      .cons ((guarded_text _).map _) .nil

/-! ## Queries -/

namespace Query

/-- A query is read the same at any limited nesting and without a limit, until the limit ends
reading. -/
theorem parser_transparent : Transparent Query.parser := by
  intro nesting free hfree
  have hsequence : Guarded nesting (Sequence.parser nesting) (Sequence.parser free) :=
    Sequence.parser_transparent hfree
  have hglobals : Guarded nesting
      (do let _ ← spaced (char '&'); sepBy1 (spaced (char '&')) GlobalCondition.parser)
      (do let _ ← spaced (char '&'); sepBy1 (spaced (char '&')) GlobalCondition.parser) :=
    (guarded_char _).spaced.bind fun _ =>
      (guarded_char _).spaced.sepBy1 GlobalCondition.parser_guarded
  have hparts : Guarded nesting (parts nesting) (parts free) :=
    hsequence.optional.bind fun _ => hglobals.optional.bind fun _ =>
      (Block.guarded_parserOf hsequence).afterBlanks.many.bind fun _ => guarded_pure _
  exact guarded_blanks.bind fun _ => hparts.bind fun _ => guarded_blanks.bind fun _ =>
    guarded_pure _

theorem parseWithin_eq_tooDeep {limit : Option Nat} {cs : List Char} {offset : Nat} :
    parseWithin limit cs = .error (.tooDeep offset) ↔
      ∃ rest, parser ⟨0, limit⟩ cs = .tooDeep rest ∧
        Text.byteSize cs - Text.byteSize rest = offset := by
  have hrest : ∀ size rest, SyntaxError.ofRest size rest ≠ .tooDeep offset := by
    intro size rest
    unfold SyntaxError.ofRest
    dsimp only
    split <;> exact nofun
  unfold parseWithin
  cases parser ⟨0, limit⟩ cs with
  | read query rest =>
    cases rest with
    | nil => simp
    | cons c rest => simp [hrest]
  | miss => simp [hrest]
  | tooDeep rest => simp

/-- Where nothing is limited, the depth at which a query is read does not matter, and reading is
never ended. -/
theorem parser_of_free (depth : Nat) (cs : List Char) :
    (∀ rest, parser ⟨depth, none⟩ cs ≠ .tooDeep rest) ∧
      parser ⟨depth, none⟩ cs = parser ⟨0, none⟩ cs := by
  have hguard : Guards ⟨depth, none⟩ cs (parser ⟨depth, none⟩ cs) (parser ⟨0, none⟩ cs) :=
    parser_transparent rfl cs
  have hne : ∀ rest, parser ⟨depth, none⟩ cs ≠ .tooDeep rest := by
    intro rest hdeep
    rw [hdeep] at hguard
    obtain ⟨limit, -, hlimit, -⟩ := hguard.exists_before
    exact absurd hlimit nofun
  exact ⟨hne, hguard.eq hne⟩

/-- The guard on nesting is transparent. A text that is not reported as nested too deeply makes up
the same query, or shows the same error, as without any limit, where what stands in a bracket is
read as it is (`Parser.nested_of_free`); and before the place where a text is reported as nested too
deeply there are more opening signs than the greatest depth. Without a limit no text is reported so,
and the depth that is counted is not looked at. -/
theorem parse_guard (text : String) :
    ((∀ offset, parse text ≠ .error (.tooDeep offset)) →
      parse text = parseWithin none text.toList) ∧
    (∀ offset, parse text = .error (.tooDeep offset) →
      ∃ before rest, text.toList = before ++ rest ∧ Text.byteSize before = offset ∧
        maxDepth + 1 ≤ before.countP isOpener) ∧
    (∀ offset, parseWithin none text.toList ≠ .error (.tooDeep offset)) ∧
    ∀ depth, parser ⟨depth, none⟩ text.toList = parser ⟨0, none⟩ text.toList := by
  have hguard : Guards ⟨0, some maxDepth⟩ text.toList (parser ⟨0, some maxDepth⟩ text.toList)
      (parser ⟨0, none⟩ text.toList) := parser_transparent rfl text.toList
  refine ⟨?_, ?_, ?_, fun depth => (parser_of_free depth _).2⟩
  · intro hne
    have hsame : parser ⟨0, some maxDepth⟩ text.toList = parser ⟨0, none⟩ text.toList := by
      refine hguard.eq ?_
      intro rest hdeep
      exact hne _ (parseWithin_eq_tooDeep.mpr ⟨rest, hdeep, rfl⟩)
    unfold parse parseWithin
    rw [hsame]
  · intro offset herror
    obtain ⟨rest, hdeep, hoffset⟩ := parseWithin_eq_tooDeep.mp herror
    rw [hdeep] at hguard
    obtain ⟨limit, before, hlimit, hs, hcount⟩ := hguard.exists_before
    obtain rfl : maxDepth = limit := Option.some.inj hlimit
    refine ⟨before, rest, hs.symm, ?_, Nat.succ_le_of_lt (by simpa using hcount)⟩
    rw [← hoffset, ← hs, Text.byteSize_append, Nat.add_sub_cancel]
  · intro offset herror
    obtain ⟨rest, hdeep, -⟩ := parseWithin_eq_tooDeep.mp herror
    exact (parser_of_free 0 _).1 rest hdeep

/-- A text of one bracket more than may be open, and one whose brackets are all closed. -/
theorem parse_guard_brackets :
    (∃ before rest, (String.ofList (List.replicate 33 '(')).toList = before ++ rest ∧
      Text.byteSize before = 33 ∧ maxDepth + 1 ≤ before.countP isOpener) ∧
    parse "(\"a\")" = parseWithin none "(\"a\")".toList := by
  refine ⟨?_, ?_⟩
  · refine (parse_guard (String.ofList (List.replicate 33 '('))).2.1 33 ?_
    exact parseWithin_eq_tooDeep.mpr ⟨[], by decide +kernel, by decide +kernel⟩
  · refine (parse_guard "(\"a\")").1 ?_
    have hread : (parse "(\"a\")").toOption.isSome = true := by decide +kernel
    intro offset herror
    rw [herror] at hread
    exact absurd hread nofun

end Query

end CorpusCost
