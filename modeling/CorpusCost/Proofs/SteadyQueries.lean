import CorpusCost.Proofs.CutQueries
import CorpusCost.Proofs.ErrorPlaces
import CorpusCost.Proofs.SteadyWords

/-!
# Queries in respaced texts

The grammar of queries skips blanks between words wherever it skips any, so that it reads the same
query from texts that are the same but for their blanks outside of strings, up to the end of the
text, or none from either (`Query.parse_sameButBlanks`). A text with an unclosed string is never
read to its end, whatever its blanks.
-/

set_option autoImplicit false

namespace CorpusCost

open CorpusCost.Parser

variable {R : List Char → List Char → Prop} (hR : Outside R)

/-! ## Conditions -/

theorem needsInk_char {c : Char} (hc : Inked (· == c)) : NeedsInk (char c) := hc.needsInk

theorem needsInk_name : NeedsInk name := (Inked.needsInk (by decide)).bind _

theorem needsInk_number : NeedsInk number := ((Inked.needsInk (by decide)).bind _).bind _

theorem needsInk_keyword {word : String} (c : Char) (hword : word.toList.head? = some c)
    (hc : isBlank c = false) : NeedsInk (keyword word) :=
  (opensWith_keyword c hword).needsInk (by simpa using hc)

theorem needsInk_bracketed {α : Type} {opening closing : Char} {p : Parser α}
    (hopening : Inked (· == opening)) :
    NeedsInk (between (do let _ ← char opening; blanks) (afterBlanks (char closing)) p) :=
  ((needsInk_char hopening).bind _).bind _

include hR

theorem Comparison.parser_steady : Steady R Comparison.parser :=
  ((hR.text (by decide)).map _).orElse <| ((hR.text (by decide)).map _).orElse <|
    ((hR.char (by decide)).map _).orElse <|
    (hR.char (by decide)).bind fun _ => hR.number.optional.bind fun _ => steady_pure _

namespace Test

theorem steady_similarityArgs (nesting : Nesting) : Steady R (similarityArgs nesting) := by
  have hquoted := hR.quoted nesting
  refine Paired.orElse ?_ ?_
  · exact hR.number.bind fun _ => hR.comma.bind fun _ => hR.number.bind fun _ => steady_pure _
  · exact hquoted.bind fun _ => hR.comma.bind fun _ => hquoted.bind fun _ =>
      hR.comma.bind fun _ => hquoted.bind fun _ => steady_pure _

theorem steady_similarityTest (nesting : Nesting) : Steady R (similarityTest nesting) := by
  have hws : Steady R (keyword "ws") := hR.keyword (by decide)
  have hterm : Steady R (keyword "term") := hR.keyword (by decide)
  exact ((hws.map _).orElse (hterm.map _)).bind fun _ =>
    (hR.parenthesized (steady_similarityArgs hR nesting)).bind fun _ => steady_pure _

theorem steady_positionTest : Steady R positionTest := by
  have hlast : Steady R (optional (do let _ ← char '-'; number)) :=
    ((hR.char (by decide)).bind fun _ => hR.number).optional
  refine (hR.char (by decide)).bind fun _ => hR.number.bind fun _ => hlast.bind fun last => ?_
  cases last with
  | none => exact steady_pure _
  | some last => exact steady_pure _

theorem steady_attributeTest (nesting : Nesting) : Steady R (attributeTest nesting) := by
  have hnegated : Steady R (present (afterBlanks (char '!'))) :=
    (hR.afterBlanks (hR.char (by decide))).present
  refine hR.name.bind fun _ => hnegated.bind fun _ => hR.blanks.bind fun _ => Paired.orElse ?_ ?_
  · exact (hR.text (by decide)).bind fun _ => (hR.afterBlanks hR.literal).bind fun _ =>
      steady_pure _
  · exact (Comparison.parser_steady hR).bind fun _ => (hR.afterBlanks (hR.quoted nesting)).bind
      fun _ => steady_pure _

end Test

/-- Alternatives are read alike if conditions are. -/
theorem Disjunction.steady_parserOf {p q : Parser Condition} (h : Paired R p q) :
    Paired R (Disjunction.parserOf p) (Disjunction.parserOf q) := by
  have hsign : ∀ {c : Char}, Inked (· == c) → Steady R (spaced (char c)) :=
    fun hc => hR.spaced (hR.char hc)
  have hink : ∀ {c : Char}, Inked (· == c) → NeedsInk (spaced (char c)) :=
    fun hc => (needsInk_char hc).spaced
  exact hR.sepBy1 (hsign (by decide)) (hink (by decide))
    (hR.sepBy1 (hsign (by decide)) (hink (by decide)) h)

namespace Condition

omit hR in
theorem needsInk_parserOf (p : Nesting → Parser Condition) (nesting : Nesting) :
    NeedsInk (parserOf p nesting) :=
  ((needsInk_bracketed (by decide)).map _).orElse <|
    (((needsInk_char (by decide)).bind _).map _).orElse <|
    ((((needsInk_keyword 'w' rfl (by decide)).map _).orElse
      ((needsInk_keyword 't' rfl (by decide)).map _)).bind _ |>.map _).orElse <|
    ((needsInk_keyword 's' rfl (by decide)).bind _).orElse <|
    ((needsInk_keyword 'c' rfl (by decide)).bind _).orElse <|
    (((needsInk_char (by decide)).bind _).map _).orElse <|
    (needsInk_name.bind _).map _

/-- A condition is read alike if the conditions nested in it are. -/
theorem steady_parserOf {p q : Nesting → Parser Condition}
    (h : ∀ nesting, Paired R (p nesting) (q nesting)) (nesting : Nesting) :
    Paired R (parserOf p nesting) (parserOf q nesting) := by
  have halternatives : ∀ deeper, Paired R (Disjunction.parserOf (p deeper))
      (Disjunction.parserOf (q deeper)) := fun deeper => Disjunction.steady_parserOf hR (h deeper)
  have hgroup : Paired R (groupParser p nesting) (groupParser q nesting) :=
    (hR.bracketed (by decide) (by decide) (Paired.nested halternatives nesting)).map _
  have hnot : Paired R (notParser p nesting) (notParser q nesting) :=
    ((hR.char (by decide)).bind fun _ => hR.blanks.bind fun _ => Paired.nested h nesting).map _
  have hswap : Paired R (swapParser (p nesting)) (swapParser (q nesting)) :=
    (hR.keyword (by decide)).bind fun _ => hR.parenthesized <| hR.number.bind fun _ =>
      hR.comma.bind fun _ => (halternatives nesting).bind fun _ => steady_pure _
  have hccoll : Paired R (ccollParser (p nesting)) (ccollParser (q nesting)) :=
    (hR.keyword (by decide)).bind fun _ => hR.parenthesized <| hR.number.bind fun _ =>
      hR.comma.bind fun _ => hR.number.bind fun _ => hR.comma.bind fun _ =>
        (halternatives nesting).bind fun _ => steady_pure _
  exact hgroup.orElse <| hnot.orElse <| ((Test.steady_similarityTest hR nesting).map _).orElse <|
    hswap.orElse <| hccoll.orElse <| ((Test.steady_positionTest hR).map _).orElse <|
    (Test.steady_attributeTest hR nesting).map _

theorem parser_steady (nesting : Nesting) : Steady R (parser nesting) :=
  hR.recursive needsInk_parserOf (fun _ _ _ _ h => steady_parserOf hR h) nesting

end Condition

theorem Disjunction.parser_steady (nesting : Nesting) : Steady R (Disjunction.parser nesting) :=
  Disjunction.steady_parserOf hR (Condition.parser_steady hR nesting)

/-! ## Tokens -/

theorem steady_windowParser : Steady R windowParser :=
  (hR.spaced hR.signed).bind fun _ => hR.signed.bind fun _ => steady_pure _

/-- Two tokens are read alike if positions are. -/
theorem Pairing.steady_parserOf {p q : Parser Position} (h : Paired R p q) :
    Paired R (Pairing.parserOf p) (Pairing.parserOf q) := by
  have hnext := hR.afterBlanks h
  refine Paired.orElse ?_ ?_
  · exact (hR.keyword (by decide)).bind fun _ => hnext.bind fun _ => hnext.bind fun _ =>
      (steady_windowParser hR).optional.bind fun _ => steady_pure _
  · exact (hR.keyword (by decide)).bind fun _ => hnext.bind fun _ => hnext.bind fun _ =>
      steady_pure _

theorem Token.steady_parserOf {p q : Nesting → Parser Position}
    (h : ∀ nesting, Paired R (p nesting) (q nesting)) (nesting : Nesting) :
    Paired R (Token.parserOf p nesting) (Token.parserOf q nesting) := by
  have hconditions : Steady R (optional (Disjunction.parser nesting)) :=
    (Disjunction.parser_steady hR nesting).optional
  have hpairing := Paired.nested (fun deeper => Pairing.steady_parserOf hR (h deeper)) nesting
  refine Paired.orElse ((hR.bracketed (by decide) (by decide) hconditions).map _) <|
    Paired.orElse ?_ <|
    Paired.orElse ((hR.bracketed (by decide) (by decide) hpairing).map _) <|
    Paired.orElse ((hR.keyword (by decide)).map _) ((hR.quoted nesting).map _)
  exact (hR.char (by decide)).bind fun _ => hR.number.optional.bind fun _ =>
    (hR.quoted nesting).bind fun _ => steady_pure _

omit hR in
theorem Token.needsInk_parserOf (p : Nesting → Parser Position) (nesting : Nesting) :
    NeedsInk (Token.parserOf p nesting) := by
  obtain ⟨hconditions, hanchored, hpairing, hmu, hword⟩ := Token.opensWith p nesting
  exact (hconditions.needsInk (by decide)).orElse <| (hanchored.needsInk (by decide)).orElse <|
    (hpairing.needsInk (by decide)).orElse <| (hmu.needsInk (by decide)).orElse <|
    hword.needsInk (by decide)

namespace Position

omit hR in
theorem needsInk_parserOf (p : Nesting → Parser Position) (nesting : Nesting) :
    NeedsInk (parserOf p nesting) :=
  (needsInk_number.bind _).orElse ((Token.needsInk_parserOf p nesting).bind _)

theorem steady_parserOf {p q : Nesting → Parser Position}
    (h : ∀ nesting, Paired R (p nesting) (q nesting)) (nesting : Nesting) :
    Paired R (parserOf p nesting) (parserOf q nesting) := by
  have htoken := Token.steady_parserOf hR h nesting
  refine Paired.orElse ?_ ?_
  · exact hR.number.bind fun _ => (hR.char (by decide)).bind fun _ => htoken.bind fun _ =>
      steady_pure _
  · exact htoken.bind fun _ => steady_pure _

theorem parser_steady (nesting : Nesting) : Steady R (parser nesting) :=
  hR.recursive needsInk_parserOf (fun _ _ _ _ h => steady_parserOf hR h) nesting

omit hR in
theorem parser_needsInk (nesting : Nesting) : NeedsInk (parser nesting) := by
  intro b hb
  rw [parser, recursive_eq]
  exact needsInk_parserOf _ nesting b hb

end Position

/-! ## Elements -/

theorem Repetition.parser_steady : Steady R Repetition.parser :=
  ((hR.char (by decide)).map _).orElse <| ((hR.char (by decide)).map _).orElse <|
    ((hR.char (by decide)).map _).orElse <| hR.bounds.map _

theorem Structure.parser_steady (nesting : Nesting) : Steady R (Structure.parser nesting) :=
  hR.name.bind fun _ => (hR.afterBlanks (Disjunction.parser_steady hR nesting)).optional.bind
    fun _ => steady_pure _

namespace Element

theorem steady_closingParser : Steady R closingParser :=
  (hR.char (by decide)).bind fun _ => hR.blanks.bind fun _ => (hR.char (by decide)).bind fun _ =>
    hR.blanks.bind fun _ => hR.name.bind fun _ => (hR.afterBlanks (hR.char (by decide))).bind
      fun _ => steady_pure _

theorem steady_openingParser (nesting : Nesting) : Steady R (openingParser nesting) := by
  have hslash : Steady R (present (afterBlanks (char '/'))) :=
    (hR.afterBlanks (hR.char (by decide))).present
  exact (hR.char (by decide)).bind fun _ =>
    (hR.afterBlanks (Structure.parser_steady hR nesting)).bind fun _ => hslash.bind fun _ =>
      (hR.afterBlanks (hR.char (by decide))).bind fun _ => steady_pure _

theorem steady_parserOf {p q : Parser Atom} (h : Paired R p q) (nesting : Nesting) :
    Paired R (parserOf p nesting) (parserOf q nesting) := by
  refine (steady_closingParser hR).orElse <| (steady_openingParser hR nesting).orElse ?_
  exact h.bind fun _ => (Repetition.parser_steady hR).optional.bind fun _ => steady_pure _

omit hR in
theorem needsInk_parserOf {p : Parser Atom} (h : NeedsInk p) (nesting : Nesting) :
    NeedsInk (parserOf p nesting) :=
  ((needsInk_char (by decide)).bind _).orElse <| ((needsInk_char (by decide)).bind _).orElse <|
    h.bind _

end Element

/-! ## Chains and blocks -/

section

variable {p q : Parser Atom}

theorem Chain.steady_parserOf (hp : NeedsInk p) (hq : NeedsInk q) (h : Paired R p q)
    (nesting : Nesting) : Paired R (Chain.parserOf p nesting) (Chain.parserOf q nesting) := by
  have helements := hR.many1 (Element.needsInk_parserOf hp nesting).afterBlanks
    (Element.needsInk_parserOf hq nesting).afterBlanks
    (hR.afterBlanks (Element.steady_parserOf hR h nesting))
  exact hR.bang.bind fun _ => helements.bind fun _ => steady_pure _

theorem Sequence.steady_parserOf (hp : NeedsInk p) (hq : NeedsInk q) (h : Paired R p q)
    (nesting : Nesting) :
    Paired R (Sequence.parserOf p nesting) (Sequence.parserOf q nesting) :=
  (hR.sepBy1 (hR.spaced (hR.char (by decide))) (needsInk_char (by decide)).spaced
    (Chain.steady_parserOf hR hp hq h nesting)).map _

end

section

variable {p q : Parser Sequence}

theorem Scope.steady_parserOf (h : Paired R p q) :
    Paired R (Scope.parserOf p) (Scope.parserOf q) := by
  refine Paired.orElse ?_ <| Paired.orElse ?_ (h.map _)
  · exact hR.number.bind fun _ => (hR.char (by decide)).absent.bind fun _ => steady_pure _
  · exact hR.bang.bind fun _ => hR.name.bind fun _ => (hR.spaced (hR.char (by decide))).bind
      fun _ => h.bind fun _ => steady_pure _

theorem Block.steady_parserOf (h : Paired R p q) :
    Paired R (Block.parserOf p) (Block.parserOf q) := by
  have hkeyword : Steady R blockKeyword :=
    ((hR.keyword (by decide)).map _).orElse ((hR.keyword (by decide)).map _)
  exact hR.bang.bind fun _ => hkeyword.bind fun _ =>
    (hR.afterBlanks (Scope.steady_parserOf hR h)).bind fun _ => steady_pure _

omit hR in
/-- A block that is not excluded begins with its keyword. -/
theorem Block.needsInk_parserOf (p : Parser Sequence) : NeedsInk (Block.parserOf p) := by
  intro b hb
  have hhead : b.head? ≠ some '!' := by
    intro h
    exact absurd (hb '!' (List.mem_of_mem_head? h)) (by decide)
  have hbang : bang b = .read false b := bang_eq_read.mpr (.inr ⟨rfl, hhead, rfl⟩)
  have hkeyword : NeedsInk blockKeyword := blockKeyword_opensWith.needsInk (by decide)
  rw [Block.parserOf, bind_of_read hbang]
  exact bind_of_miss (hkeyword b hb) _

theorem Block.steady_many (h : Paired R p q) :
    Paired R (many (afterBlanks (Block.parserOf p))) (many (afterBlanks (Block.parserOf q))) :=
  hR.many (Block.needsInk_parserOf p).afterBlanks (Block.needsInk_parserOf q).afterBlanks
    (hR.afterBlanks (Block.steady_parserOf hR h))

end

namespace Atom

theorem steady_groupParserOf {p q : Nesting → Parser Atom} (hp : ∀ nesting, NeedsInk (p nesting))
    (hq : ∀ nesting, NeedsInk (q nesting)) (h : ∀ nesting, Paired R (p nesting) (q nesting))
    (nesting : Nesting) : Paired R (groupParserOf p nesting) (groupParserOf q nesting) := by
  refine hR.bracketed (by decide) (by decide) (Paired.nested (fun deeper => ?_) nesting)
  have hsequence := Sequence.steady_parserOf hR (hp deeper) (hq deeper) (h deeper) deeper
  exact hsequence.bind fun _ => (Block.steady_many hR hsequence).bind fun _ => steady_pure _

omit hR in
theorem needsInk_parserOf (p : Nesting → Parser Atom) (nesting : Nesting) :
    NeedsInk (parserOf p nesting) :=
  ((Position.parser_needsInk nesting).map _).orElse (needsInk_bracketed (by decide))

omit hR in
theorem parser_needsInk (nesting : Nesting) : NeedsInk (parser nesting) := by
  intro b hb
  rw [parser, recursive_eq]
  exact needsInk_parserOf _ nesting b hb

theorem parser_steady (nesting : Nesting) : Steady R (parser nesting) := by
  refine hR.recursive needsInk_parserOf (fun p q hp hq h deeper => ?_) nesting
  exact ((Position.parser_steady hR deeper).map _).orElse
    (steady_groupParserOf hR hp hq h deeper)

end Atom

theorem Sequence.parser_steady (nesting : Nesting) : Steady R (Sequence.parser nesting) :=
  Sequence.steady_parserOf hR (Atom.parser_needsInk nesting) (Atom.parser_needsInk nesting)
    (Atom.parser_steady hR nesting) nesting

/-! ## Conditions across tokens -/

theorem steady_labelledAttribute : Steady R labelledAttribute :=
  hR.number.bind fun _ => (hR.char (by decide)).bind fun _ => hR.name.bind fun _ => steady_pure _

theorem steady_agreementSign : Steady R agreementSign :=
  ((hR.text (by decide)).map _).orElse <| ((hR.text (by decide)).map _).orElse <|
    (hR.text (by decide)).map _

theorem FrequencyComparison.parser_steady : Steady R FrequencyComparison.parser :=
  ((hR.text (by decide)).map _).orElse <| ((hR.text (by decide)).map _).orElse <|
    ((hR.char (by decide)).map _).orElse <| ((hR.char (by decide)).map _).orElse <|
    (hR.char (by decide)).map _

theorem GlobalCondition.parser_steady : Steady R GlobalCondition.parser := by
  have hlabelled := steady_labelledAttribute hR
  have hfrequency : Steady R frequencyParser :=
    (hR.keyword (by decide)).bind fun _ => (hR.parenthesized hlabelled).bind fun _ =>
      (hR.afterBlanks hR.bang).bind fun _ => (FrequencyComparison.parser_steady hR).bind fun _ =>
        (hR.afterBlanks hR.number).bind fun _ => steady_pure _
  have hagreement : Steady R agreementParser :=
    hlabelled.bind fun _ => (hR.spaced (steady_agreementSign hR)).bind fun _ =>
      hlabelled.bind fun _ => steady_pure _
  exact hfrequency.orElse hagreement

theorem steady_globalsParser : Steady R globalsParser := by
  have hsign : Steady R (spaced (char '&')) := hR.spaced (hR.char (by decide))
  exact hsign.bind fun _ => hR.sepBy1 hsign (needsInk_char (by decide)).spaced
    (GlobalCondition.parser_steady hR)

/-! ## Queries -/

namespace Query

theorem steady_parts (nesting : Nesting) : Steady R (parts nesting) :=
  (Sequence.parser_steady hR nesting).optional.bind fun _ =>
    (steady_globalsParser hR).optional.bind fun _ =>
      (Block.steady_many hR (Sequence.parser_steady hR nesting)).bind fun _ => steady_pure _

theorem parser_steady (nesting : Nesting) : Steady R (parser nesting) :=
  hR.blanks.bind fun _ => (steady_parts hR nesting).bind fun _ => hR.blanks.bind
    fun _ => steady_pure _

/-- A query that makes up one text makes up any related text. -/
theorem parser_of_related {nesting : Nesting} {u u' : List Char} {query : Query} (hu : R u u')
    (h : parser nesting u = .read query []) : parser nesting u' = .read query [] := by
  have halike := parser_steady hR nesting u u' hu
  rw [h] at halike
  obtain ⟨rest, hread, hrest⟩ := halike.read_left
  -- Only blanks are left of the other text, and blanks are not left.
  obtain ⟨-, hblank⟩ := (hR.begins [] rest hrest).allBlank (.inl rfl)
  obtain ⟨-, -, -, -, hstops, -⟩ := parser_split hread
  cases rest with
  | nil => exact hread
  | cons c rest =>
    have hc : isBlank c = true := hblank c List.mem_cons_self
    rw [stops_cons.mp hstops] at hc
    exact absurd hc (by decide)

omit hR in
/-- No query makes up a text with an unclosed string. -/
theorem parser_of_dangling {nesting : Nesting} {u : List Char} (hu : Dangling u) (query : Query) :
    parser nesting u ≠ .read query [] := by
  intro h
  have halike := parser_steady outside_sameDangling nesting u u ⟨rfl, hu⟩
  rw [h] at halike
  obtain ⟨-, -, hnil⟩ := halike
  exact hnil.ne_nil rfl

omit hR in
/-- Texts that are the same but for their blanks are made up by the same query. -/
theorem parser_of_respaced {nesting : Nesting} {u u' : List Char} {query : Query}
    (hu : Respaced u u') (h : parser nesting u = .read query []) :
    parser nesting u' = .read query [] := by
  rcases hu.stretches with ⟨stretches, b, b', hstretches, hb, hb', rfl, rfl⟩ | ⟨hdangling, -⟩
  · exact parser_of_related (outside_aligned hstretches hb hb')
      (.inl ⟨stretches, List.suffix_refl _, rfl, rfl⟩) h
  · exact absurd h (parser_of_dangling hdangling query)

omit hR in
/-- Blanks at the beginning of a text are read over. -/
theorem parser_dropWhile (nesting : Nesting) (s : List Char) :
    parser nesting (s.dropWhile isBlank) = parser nesting s := by
  have hdrop : blanks (s.dropWhile isBlank) = .read () (s.dropWhile isBlank) := by
    rw [blanks_apply, dropWhile_of_stops (stops_dropWhile isBlank s)]
  rw [parser, bind_of_read hdrop, bind_of_read (blanks_apply s)]

omit hR in
/-- Of two texts that are the same but for their blanks outside of strings, either makes up a query
just when the other makes up the same. -/
theorem parse_sameButBlanks {text other : String} (h : SameButBlanks text other) (query : Query) :
    parse text = .ok query ↔ parse other = .ok query := by
  rw [parse_eq_ok, parse_eq_ok, ← parser_dropWhile _ text.toList, ← parser_dropWhile _ other.toList]
  exact ⟨parser_of_respaced h, parser_of_respaced (Respaced.symm h)⟩

omit hR in
/-- Two words in a row, with other blanks around them and the blank inside the second word kept. -/
theorem parse_sameButBlanks_words :
    SameButBlanks "\"a\" \"b c\"" "\n\"a\"\t \"b c\" " ∧
      ∃ query, parse "\"a\" \"b c\"" = .ok query ∧ parse "\n\"a\"\t \"b c\" " = .ok query := by
  have hfirst : Enclosed ['a'] := .plain (by decide) (by decide) .nil
  have hsecond : Enclosed ['b', ' ', 'c'] := .plain (by decide) (by decide)
    (.plain (by decide) (by decide) (.plain (by decide) (by decide) .nil))
  have hsame : SameButBlanks "\"a\" \"b c\"" "\n\"a\"\t \"b c\" " :=
    @Respaced.string ['a'] _ _ hfirst (@Respaced.run [' '] ['\t', ' '] _ _ (by decide) (by decide)
      (by decide) (by decide) (@Respaced.string ['b', ' ', 'c'] [] [' '] hsecond
        (.ending (by decide) (by decide))))
  refine ⟨hsame, ?_⟩
  have hsome : (parse "\"a\" \"b c\"").toOption.isSome = true := by decide +kernel
  cases hparse : parse "\"a\" \"b c\"" with
  | error error => simp [hparse, Except.toOption] at hsome
  | ok query => exact ⟨query, rfl, (parse_sameButBlanks hsame query).mp hparse⟩

end Query

end CorpusCost
