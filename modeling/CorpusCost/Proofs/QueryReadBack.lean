import CorpusCost.Proofs.GroupReadBack
import CorpusCost.Query.Reading

/-!
# Queries read back

The canonical text of every query that a text makes up is read again, as the query with its
expressions fused. Each part of a query is told by what it begins with: conditions across tokens by
an ampersand, a block by its word, and the sequence by neither.
-/

set_option autoImplicit false

namespace CorpusCost

open CorpusCost.Parser
open Text (natural joined)

/-! ## Conditions across tokens -/

/-- How a condition across tokens is written; it comes back unchanged. -/
def GlobalCondition.form : Form GlobalCondition where
  written := GlobalCondition.written
  renewed condition := condition
  Begins := Stops isBlank
  Follows := Stops isNameChar

/-- An attribute of a labelled token is read back. -/
theorem labelledAttribute_readBack {s rest rest' : List Char} {label : Nat} {attr : String}
    (h : labelledAttribute s = .read (label, attr) rest) (hrest : Stops isNameChar rest') :
    labelledAttribute (natural label ++ '.' :: (attr.toList ++ rest')) =
      .read (label, attr) rest' := by
  rw [labelledAttribute] at h ⊢
  simp only [bind_eq_read, pure_eq_read] at h ⊢
  obtain ⟨label, _, hlabel, _, _, -, attr, _, hattr, heq, -⟩ := h
  obtain ⟨rfl, rfl⟩ := Prod.mk.inj heq
  exact ⟨label, _, number_readBack hlabel (stops_cons.mpr rfl), '.', _, char_cons _ _, attr, rest',
    name_readBack hattr hrest, rfl, rfl⟩

/-- The sign between two attributes. -/
def agreementSign : Parser Bool :=
  firstOf [
    (fun _ => true) <$> text "!=",
    (fun _ => false) <$> text "==",
    (fun _ => false) <$> text "="]

theorem agreementSign_eq (s : List Char) : agreementSign s =
    ((fun _ => true) <$> text "!=" <|> ((fun _ => false) <$> text "==" <|>
      (fun _ => false) <$> text "=") : Parser Bool) s := rfl

theorem agreementSign_written (negated : Bool) {s : List Char} (h : Stops isBlank s) :
    spaced agreementSign ((if negated then " != " else " = ").toList ++ s) = .read negated s := by
  refine spaced_eq_read.mpr ⟨' ' :: s, ?_, by rw [dropWhile_space, dropWhile_of_stops h]⟩
  cases negated with
  | true =>
    have hdrop : ((if true then " != " else " = ").toList ++ s).dropWhile isBlank =
        "!=".toList ++ ' ' :: s := by
      change (" != ".toList ++ s).dropWhile isBlank = _
      simp [isBlank]
    rw [hdrop, agreementSign_eq, orElse_eq_read, map_eq_read]
    exact .inl ⟨(), rfl, text_eq_read.mpr rfl⟩
  | false =>
    have hdrop : ((if false then " != " else " = ").toList ++ s).dropWhile isBlank =
        "=".toList ++ ' ' :: s := by
      change (" = ".toList ++ s).dropWhile isBlank = _
      simp [isBlank]
    rw [hdrop, agreementSign_eq]
    refine orElse_eq_read.mpr (.inr ⟨?_, orElse_eq_read.mpr (.inr ⟨?_, ?_⟩)⟩)
    · exact map_eq_miss.mpr (text_eq_miss.mpr (by simp))
    · exact map_eq_miss.mpr (text_eq_miss.mpr (by simp))
    · exact map_eq_read.mpr ⟨(), rfl, text_eq_read.mpr rfl⟩

theorem FrequencyComparison.parser_eq (s : List Char) : FrequencyComparison.parser s =
    ((fun _ => .atMost) <$> text "<=" <|> ((fun _ => .atLeast) <$> text ">=" <|>
      ((fun _ => .equal) <$> char '=' <|> ((fun _ => .less) <$> char '<' <|>
        (fun _ => .greater) <$> char '>'))) : Parser FrequencyComparison) s := rfl

theorem FrequencyComparison.parser_written (comparison : FrequencyComparison) (s : List Char) :
    FrequencyComparison.parser (comparison.written ++ ' ' :: s) = .read comparison (' ' :: s) := by
  simp only [FrequencyComparison.parser_eq, orElse_eq_read, map_eq_miss, map_eq_read, text_eq_miss,
    text_eq_read, char_eq_miss, char_eq_read]
  cases comparison <;> simp [FrequencyComparison.written]

/-- The frequency of an attribute, compared with a number. -/
def frequencyParser : Parser GlobalCondition := do
  keyword "f"
  let (label, attr) ← parenthesized labelledAttribute
  let negated ← afterBlanks bang
  let comparison ← FrequencyComparison.parser
  let value ← afterBlanks number
  pure (.frequency label attr negated comparison value)

/-- The agreement of two attributes. -/
def agreementParser : Parser GlobalCondition := do
  let (left, leftAttr) ← labelledAttribute
  let negated ← spaced agreementSign
  let (right, rightAttr) ← labelledAttribute
  pure (.agreement left leftAttr negated right rightAttr)

theorem GlobalCondition.parser_eq (s : List Char) :
    GlobalCondition.parser s = (frequencyParser <|> agreementParser : Parser GlobalCondition) s :=
  rfl

/-- The frequency of an attribute is read back. -/
theorem frequencyParser_readBack {s rest rest' : List Char} {condition : GlobalCondition}
    (h : frequencyParser s = .read condition rest) (hrest : Stops isNameChar rest') :
    Stops isBlank (condition.written ++ rest') ∧
      frequencyParser (condition.written ++ rest') = .read condition rest' := by
  rw [frequencyParser] at h ⊢
  simp only [bind_eq_read, pure_eq_read] at h ⊢
  obtain ⟨_, _, -, ⟨label, attr⟩, _, hattr, negated, _, -, comparison, _, -, value, _, hvalue,
    rfl, -⟩ := h
  obtain ⟨_, _, hinside⟩ := parenthesized_eq_read hattr
  obtain ⟨c, cs, hsign⟩ : ∃ c cs, comparison.written = c :: cs ∧ isBlank c = false ∧ c ≠ '!' := by
    cases comparison <;> exact ⟨_, _, rfl, rfl, by decide⟩
  let sign := comparison.written ++ ' ' :: (natural value ++ rest')
  have hblank : Stops isBlank sign := by
    simp only [sign, hsign.1]
    exact stops_cons.mpr hsign.2.1
  have hbang : sign.head? ≠ some '!' := by
    simpa [sign, hsign.1] using hsign.2.2
  have hwritten : (GlobalCondition.frequency label attr negated comparison value).written ++
      rest' = "f".toList ++ '(' :: (natural label ++ '.' :: (attr.toList ++
        ')' :: ' ' :: (bangText negated ++ sign))) := by
    change ['f', '('] ++ natural label ++ '.' :: attr.toList ++ [')', ' '] ++ bangText negated ++
      comparison.written ++ ' ' :: natural value ++ rest' = _
    simp [sign]
  have hsigned : Stops isBlank (bangText negated ++ sign) := stops_bangText hblank rfl
  rw [hwritten]
  refine ⟨stops_cons.mpr rfl, (), _, keyword_written (stops_cons.mpr rfl), (label, attr),
    ' ' :: (bangText negated ++ sign), ?_, negated, sign, ?_, comparison,
    ' ' :: (natural value ++ rest'), FrequencyComparison.parser_written comparison _, value, rest',
    ?_, rfl, rfl⟩
  · refine parenthesized_written (stops_isBlank_natural _ _) ?_
    exact labelledAttribute_readBack hinside (stops_cons.mpr rfl)
  · rw [afterBlanks_apply, dropWhile_space, dropWhile_of_stops hsigned]
    exact bang_bangText hblank fun _ => hbang
  · rw [afterBlanks_apply, dropWhile_space, dropWhile_of_stops (stops_isBlank_natural _ _)]
    exact number_readBack hvalue (hrest.mono fun _ => isNameChar_of_isDigit)

/-- The agreement of two attributes is read back. -/
theorem agreementParser_readBack {s rest rest' : List Char} {condition : GlobalCondition}
    (h : agreementParser s = .read condition rest) (hrest : Stops isNameChar rest') :
    Stops isBlank (condition.written ++ rest') ∧
      frequencyParser (condition.written ++ rest') = .miss ∧
      agreementParser (condition.written ++ rest') = .read condition rest' := by
  rw [agreementParser] at h ⊢
  simp only [bind_eq_read, pure_eq_read] at h ⊢
  obtain ⟨⟨left, leftAttr⟩, _, hleft, negated, _, -, ⟨right, rightAttr⟩, _, hright, rfl, -⟩ := h
  have hwritten : (GlobalCondition.agreement left leftAttr negated right rightAttr).written ++
      rest' = natural left ++ '.' :: (leftAttr.toList ++
        ((if negated then " != " else " = ").toList ++
          (natural right ++ '.' :: (rightAttr.toList ++ rest')))) := by
    change natural left ++ '.' :: leftAttr.toList ++ (if negated then " != " else " = ").toList ++
      natural right ++ '.' :: rightAttr.toList ++ rest' = _
    simp
  have hspace : Stops isNameChar ((if negated then " != " else " = ").toList ++
      (natural right ++ '.' :: (rightAttr.toList ++ rest'))) := by
    cases negated <;> exact stops_cons.mpr rfl
  rw [hwritten]
  refine ⟨stops_isBlank_natural _ _, ?_, (left, leftAttr), _,
    labelledAttribute_readBack hleft hspace, negated, _,
    agreementSign_written negated (stops_isBlank_natural _ _), (right, rightAttr), rest',
    labelledAttribute_readBack hright hrest, rfl, rfl⟩
  obtain ⟨d, ds, hn, hd⟩ := natural_eq_cons left
  rw [frequencyParser, bind_eq_miss, hn]
  refine .inl ((opensWith_keyword 'f' rfl).miss ?_)
  intro hhead
  obtain rfl : d = 'f' := by simpa using hhead
  simp at hd

/-- Conditions across tokens are restored. -/
theorem GlobalCondition.restores :
    Restores GlobalCondition.parser (fun _ => GlobalCondition.parser) GlobalCondition.form := by
  intro s condition rest hread rest' hfollows
  change Stops isBlank (condition.written ++ rest') ∧ ∀ n,
    (condition.written ++ rest').length < n →
      GlobalCondition.parser (condition.written ++ rest') = .read condition rest'
  simp only [GlobalCondition.parser_eq, orElse_eq_read] at hread ⊢
  rcases hread with hfrequency | ⟨-, hagreement⟩
  · obtain ⟨hblank, hback⟩ := frequencyParser_readBack hfrequency hfollows
    exact ⟨hblank, fun _ _ => .inl hback⟩
  · obtain ⟨hblank, hmiss, hback⟩ := agreementParser_readBack hagreement hfollows
    exact ⟨hblank, fun _ _ => .inr ⟨hmiss, hback⟩⟩

/-! ## Parts of a query -/

/-- Texts as they follow one another, with a blank before each. -/
def behindBlanks (parts : List (List Char)) : List Char := parts.flatMap ([' '] ++ ·)

theorem dropWhile_joined (parts : List (List Char)) :
    (joined [' '] parts).dropWhile isBlank = (behindBlanks parts).dropWhile isBlank := by
  cases parts with
  | nil => rfl
  | cons part parts =>
    rw [joined_cons, behindBlanks, List.flatMap_cons, List.append_assoc, List.singleton_append,
      dropWhile_space]

theorem Block.written_ne_nil (block : Block) : block.written ≠ [] := by
  have hstarts := block.written_starts []
  intro hnil
  rw [hnil] at hstarts
  obtain ⟨negated, c, t, ht, -⟩ := hstarts
  simp at ht

/-- The conditions across tokens as they follow a sequence. -/
def globalsText (globals : Option (List GlobalCondition)) : List Char :=
  behindBlanks (globals.map fun conditions =>
    ['&', ' '] ++ GlobalCondition.writtenAll conditions).toList

theorem Query.dropWhile_written (query : Query) :
    query.written.dropWhile isBlank =
      (behindBlanks (query.sequence.map Sequence.written).toList ++
        (globalsText query.globals ++ Block.writtenEach query.blocks)).dropWhile isBlank := by
  rw [Query.written, dropWhile_joined, behindBlanks, List.flatMap_append, List.flatMap_append,
    List.append_assoc, Block.writtenEach_eq_flatMap, List.flatMap_map]
  rfl

/-- Conditions across tokens, behind an ampersand. -/
def globalsParser : Parser (List GlobalCondition) := do
  let _ ← spaced (char '&')
  sepBy1 (spaced (char '&')) GlobalCondition.parser

theorem Query.parts_eq (nesting : Nesting) (s : List Char) :
    Query.parts nesting s = (optional (Sequence.parser nesting) >>= fun sequence =>
      optional globalsParser >>= fun globals =>
        many (afterBlanks (Block.parser nesting)) >>= fun blocks =>
          pure ⟨sequence, globals, blocks⟩ : Parser Query) s := rfl

theorem endsBefore_nil (ends : List Char) : EndsBefore ends [] := ⟨ends_nil _, ends_nil _⟩

theorem Block.writtenEach_ends (blocks : List Block) :
    EndsBefore [')', 'w', 'c', '!'] (Block.writtenEach blocks) := by
  have hends := Block.writtenEach_endsBefore blocks (endsBefore_nil [')'])
  rwa [List.append_nil] at hends

/-- What conditions across tokens begin with, and what blocks begin with. -/
theorem tail_starts (globals : Option (List GlobalCondition)) (blocks : List Block) :
    EndsBefore sequenceEnds (globalsText globals ++ Block.writtenEach blocks) ∧
      ∃ negated t, (globalsText globals ++ Block.writtenEach blocks).dropWhile isBlank =
        bangText negated ++ t ∧ Ends ['&', 'w', 'c'] t := by
  cases globals with
  | some conditions =>
    exact ⟨endsBefore_space (by decide) rfl _, false, _, rfl, ends_cons.mpr (by decide)⟩
  | none =>
    change EndsBefore sequenceEnds (Block.writtenEach blocks) ∧ ∃ negated t,
      (Block.writtenEach blocks).dropWhile isBlank = bangText negated ++ t ∧ Ends ['&', 'w', 'c'] t
    cases blocks with
    | nil => exact ⟨⟨ends_nil _, ends_nil _⟩, false, [], rfl, ends_nil _⟩
    | cons block blocks =>
      have hstarts := Block.written_starts block (Block.writtenEach blocks)
      rw [Block.writtenEach, List.cons_append, dropWhile_space,
        dropWhile_of_stops hstarts.stops_isBlank]
      refine ⟨hstarts.endsBefore.mono (by decide), ?_⟩
      obtain ⟨negated, c, t, ht, hc⟩ := hstarts
      have hletters : blockLetters ⊆ ['&', 'w', 'c'] := by decide
      exact ⟨negated, c :: t, ht, ends_cons.mpr (hletters hc)⟩

/-- No sequence stands where conditions across tokens or blocks do. -/
theorem Sequence.parser_of_tail {nesting : Nesting} {negated : Bool} {s t : List Char}
    (hbang : bang s = .read negated t) (h : Ends sequenceEnds (t.dropWhile isBlank)) :
    Sequence.parser nesting s = .miss := by
  have hends : Ends chainEnds (t.dropWhile isBlank) := h.mono (by decide)
  have helement : Element.parserOf (Atom.parser nesting) nesting (t.dropWhile isBlank) = .miss :=
    Element.parserOf_of_ends hends (Atom.parser_of_ends hends)
  rw [Sequence.parser, Sequence.parserOf, map_eq_miss, sepBy1_eq_miss, Chain.parserOf,
    bind_of_read hbang, bind_eq_miss, many1_eq_miss, afterBlanks_apply]
  exact .inl helement

section

variable {nesting : Nesting} {s rest t : List Char}

/-- A sequence that may be left out is read back in front of the other parts. -/
theorem optional_sequence_readBack {sequence : Option Sequence}
    (h : optional (Sequence.parser nesting) s = .read sequence rest)
    (globals : Option (List GlobalCondition)) (blocks : List Block)
    (ht : t = (behindBlanks (sequence.map Sequence.written).toList ++
      (globalsText globals ++ Block.writtenEach blocks)).dropWhile isBlank) :
    ∃ left, optional (Sequence.parser nesting) t =
        .read (sequence.map (Sequence.mapRegexes Regex.fused)) left ∧
      left.dropWhile isBlank =
        (globalsText globals ++ Block.writtenEach blocks).dropWhile isBlank := by
  obtain ⟨hends, negated, u, htail, hu⟩ := tail_starts globals blocks
  rcases optional_eq_read.mp h with ⟨written, rfl, hwritten⟩ | ⟨rfl, -, -⟩
  · obtain ⟨hstarts, hback⟩ := Sequence.restores nesting _ written _ hwritten _ hends
    have htext : t = written.written ++ (globalsText globals ++ Block.writtenEach blocks) := by
      rw [ht]
      change (' ' :: (written.written ++ []) ++ (globalsText globals ++
        Block.writtenEach blocks)).dropWhile isBlank = _
      rw [List.append_nil, List.cons_append, dropWhile_space]
      exact dropWhile_of_stops hstarts.stops_isBlank
    refine ⟨_, optional_eq_read.mpr (.inl ⟨_, rfl, ?_⟩), rfl⟩
    rw [htext]
    exact hback _ (Nat.lt_succ_self _)
  · change t = (globalsText globals ++ Block.writtenEach blocks).dropWhile isBlank at ht
    have hmiss : Sequence.parser nesting t = .miss := by
      rw [ht, htail]
      refine Sequence.parser_of_tail (bang_bangText (hu.stops (by decide)) fun _ =>
        hu.head?_ne (by decide)) ?_
      rw [dropWhile_of_stops (hu.stops (by decide))]
      exact hu.mono (by decide)
    refine ⟨t, optional_eq_read.mpr (.inr ⟨rfl, hmiss, rfl⟩), ?_⟩
    rw [ht]
    exact dropWhile_of_stops (stops_dropWhile isBlank _)

/-- Conditions across tokens that may be left out are read back in front of the blocks. -/
theorem optional_globals_readBack {globals : Option (List GlobalCondition)}
    (h : optional globalsParser s = .read globals rest) (blocks : List Block)
    (ht : t.dropWhile isBlank =
      (globalsText globals ++ Block.writtenEach blocks).dropWhile isBlank) :
    ∃ left, optional globalsParser t = .read globals left ∧
      left.dropWhile isBlank = (Block.writtenEach blocks).dropWhile isBlank := by
  have hblocks := Block.writtenEach_ends blocks
  rcases optional_eq_read.mp h with ⟨conditions, rfl, hconditions⟩ | ⟨rfl, -, -⟩
  · have hlist : Restores (sepBy1 (spaced (char '&')) GlobalCondition.parser)
        (fun _ => sepBy1 (spaced (char '&')) GlobalCondition.parser)
        (GlobalCondition.form.listed [' ', '&', ' '] (EndsBefore [')', 'w', 'c', '!'])) := by
      refine GlobalCondition.restores.sepBy1 (x := '&') (List.cons_ne_nil _ _) ?_ ?_ ?_
      · intro u hu
        exact spaced_char_written rfl hu
      · intro u _
        exact stops_cons.mpr rfl
      · intro _ u hu
        exact bind_of_miss (spaced_char_of_head?_ne (hu.2.head?_ne (by decide))) _
    rw [globalsParser] at hconditions
    obtain ⟨_, mid, -, hmore⟩ := bind_eq_read.mp hconditions
    obtain ⟨hblank, hback⟩ := hlist mid conditions _ hmore _ ⟨hblocks.1.stops (by decide), hblocks⟩
    let text := joined [' ', '&', ' '] (conditions.map GlobalCondition.written) ++
      Block.writtenEach blocks
    change Stops isBlank text at hblank
    have hamp : t.dropWhile isBlank = '&' :: ' ' :: text := by
      rw [ht]
      change (' ' :: (['&', ' '] ++ GlobalCondition.writtenAll conditions ++ []) ++
        Block.writtenEach blocks).dropWhile isBlank = _
      simp [text, GlobalCondition.writtenAll, isBlank]
    refine ⟨Block.writtenEach blocks, optional_eq_read.mpr (.inl ⟨conditions, rfl, ?_⟩), rfl⟩
    have hsep : spaced (char '&') t = .read '&' text := by
      refine spaced_eq_read.mpr ⟨' ' :: text, by rw [hamp, char_cons], ?_⟩
      rw [dropWhile_space, dropWhile_of_stops hblank]
    have hread := hback _ (Nat.lt_succ_self _)
    rw [globalsParser, bind_of_read hsep]
    refine hread.trans ?_
    rw [Form.listed]
    simp [GlobalCondition.form]
  · change t.dropWhile isBlank = (Block.writtenEach blocks).dropWhile isBlank at ht
    refine ⟨t, optional_eq_read.mpr (.inr ⟨rfl, ?_, rfl⟩), ht⟩
    rw [globalsParser, bind_eq_miss, spaced_eq_miss, ht]
    exact .inl (char_eq_miss.mpr (hblocks.2.head?_ne (by decide)))

/-- The blocks of a query are read back. -/
theorem blocks_readBack {blocks : List Block}
    (h : many (afterBlanks (Block.parser nesting)) s = .read blocks rest)
    (ht : t.dropWhile isBlank = (Block.writtenEach blocks).dropWhile isBlank) :
    ∃ left, many (afterBlanks (Block.parser nesting)) t =
        .read (Block.mapRegexesOfAll Regex.fused blocks) left ∧ left.dropWhile isBlank = [] := by
  cases blocks with
  | nil =>
    refine ⟨t, many_of_miss ?_, ht⟩
    rw [afterBlanks_apply, ht]
    exact Block.parserOf_of_ends (ends_nil _)
  | cons block blocks =>
    obtain ⟨mid, hblock, -, hmore⟩ := many_eq_read_cons.mp h
    obtain ⟨hstarts, hback⟩ := Block.parserOf_restores (Sequence.restores nesting) _ block _ hblock
      _ ((Block.writtenEach_ends blocks).mono (by decide))
    have htext : t.dropWhile isBlank = block.written ++ Block.writtenEach blocks := by
      rw [ht, Block.writtenEach, List.cons_append, dropWhile_space]
      exact dropWhile_of_stops hstarts.stops_isBlank
    have hshort : (Block.writtenEach blocks).length < t.length := by
      have hle := (List.dropWhile_sublist isBlank (l := t)).length_le
      have hlt := length_lt_append block.written_ne_nil (Block.writtenEach blocks)
      rw [htext] at hle
      omega
    have hrest := Block.many_readBack (Sequence.restores nesting) hmore (endsBefore_nil [')'])
      (Nat.lt_succ_self _)
    rw [List.append_nil] at hrest
    refine ⟨[], many_eq_read_cons.mpr ⟨Block.writtenEach blocks, ?_, hshort, hrest⟩, rfl⟩
    rw [afterBlanks_apply, htext]
    exact hback _ (Nat.lt_succ_self _)

end

/-! ## Queries -/

/-- A query is read back from its canonical text. -/
theorem Query.parser_readBack {nesting : Nesting} {s rest : List Char} {query : Query}
    (h : Query.parser nesting s = .read query rest) :
    Query.parser nesting query.written = .read (query.mapRegexes Regex.fused) [] := by
  rw [Query.parser] at h ⊢
  simp only [bind_eq_read, pure_eq_read] at h ⊢
  obtain ⟨_, _, -, parsed, _, hparts, _, _, -, rfl, -⟩ := h
  rw [Query.parts_eq] at hparts
  simp only [bind_eq_read, pure_eq_read] at hparts
  obtain ⟨sequence, _, hsequence, globals, _, hglobals, blocks, _, hblocks, rfl, -⟩ := hparts
  obtain ⟨t, hsequenceBack, ht⟩ := optional_sequence_readBack hsequence globals blocks rfl
  obtain ⟨u, hglobalsBack, hu⟩ := optional_globals_readBack hglobals blocks ht
  obtain ⟨v, hblocksBack, hv⟩ := blocks_readBack hblocks hu
  refine ⟨(), _, blanks_apply _, _, v, ?_, (), [], ?_, rfl, rfl⟩
  · rw [Query.dropWhile_written, Query.parts_eq]
    simp only [bind_eq_read, pure_eq_read]
    exact ⟨_, t, hsequenceBack, _, u, hglobalsBack, _, v, hblocksBack, rfl, rfl⟩
  · rw [blanks_apply, hv]

/-- A text that makes up a query is read to its end. -/
theorem Query.parse_eq_ok {text : String} {query : Query} :
    Query.parse text = .ok query ↔
      Query.parser ⟨0, some Query.maxDepth⟩ text.toList = .read query [] := by
  rw [Query.parse, Query.parseWithin]
  split
  · next parsed hread => simp [hread]
  · next hrest hread =>
    simp only [hread, Outcome.read.injEq, reduceCtorEq, false_iff, not_and]
    intro _ hnil
    exact hrest hnil
  · next hread => simp [hread]
  · next rest hread => simp [hread]

/-- The canonical text of a query that a text makes up is read as the query with its expressions
fused. -/
theorem Query.parse_text {text : String} {query : Query} (h : Query.parse text = .ok query) :
    Query.parse query.text = .ok (query.mapRegexes Regex.fused) := by
  rw [Query.parse_eq_ok] at h ⊢
  rw [Query.toList_text]
  exact Query.parser_readBack h

/-- The canonical text of every query that a text makes up is a query again, and it is the same
query exactly where no escape `\p` or `\P` stands directly before bounds with equal ends. -/
theorem Query.text_roundTrip {text : String} {query : Query} (h : Query.parse text = .ok query) :
    ∃ again, Query.parse query.text = .ok again ∧ again = query.mapRegexes Regex.fused ∧
      (again = query ↔ ∀ regex ∈ query.regexes, regex.KeptApart) := by
  refine ⟨query.mapRegexes Regex.fused, Query.parse_text h, rfl, ?_⟩
  rw [Query.mapRegexes_eq_self_iff]
  exact forall₂_congr fun _ _ => Regex.fused_eq_self_iff

/-- One word, with nothing around it. -/
def Query.ofWord (regex : Regex) : Query :=
  ⟨some ⟨[⟨false, [.atom (.position ⟨none, .word regex⟩) none]⟩]⟩, none, []⟩

/-- The bounds behind an escape come back as the name of a property. -/
theorem Query.text_roundTrip_property : ∃ query again,
    Query.parse "\"\\p\x7b4,4\x7d\"" = .ok query ∧ Query.parse query.text = .ok again ∧
      again ≠ query := by
  let row : List Regex.Atom := [.symbol (.literal "\\p" false), .bounds ⟨4, some 4⟩]
  have hparse : Query.parse "\"\\p\x7b4,4\x7d\"" = .ok (.ofWord ⟨[[.row row]]⟩) :=
    Query.parse_eq_ok.mpr (by decide +kernel)
  obtain ⟨again, hagain, -, hsame⟩ := Query.text_roundTrip hparse
  refine ⟨_, again, hparse, hagain, ?_⟩
  intro heq
  have hapart := hsame.mp heq ⟨[[.row row]]⟩ List.mem_cons_self row List.mem_cons_self _ _
    ⟨[], [], rfl⟩
  exact absurd hapart (by decide)

end CorpusCost
