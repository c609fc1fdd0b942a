import CorpusCost.Proofs.PositionReadBack

/-!
# Sequences read back

Elements, chains, sequences and blocks are restored with their expressions fused. A sequence ends
where no further element, no bar and nothing that would repeat its last atom follows: at the end of
the text, before a closing bracket, or before the blank in front of a block or a condition across
tokens.
-/

set_option autoImplicit false

namespace CorpusCost

open CorpusCost.Parser
open Text (natural joined)

/-! ## Repetitions -/

/-- The signs of a repetition. -/
def repetitionSigns : List Char := ['*', '+', '?', '\x7b']

theorem Repetition.parser_eq (s : List Char) :
    Repetition.parser s = ((fun _ => .zeroOrMore) <$> char '*' <|>
      ((fun _ => .oneOrMore) <$> char '+' <|> ((fun _ => .zeroOrOne) <$> char '?' <|>
        .bounds <$> Parser.bounds)) : Parser Repetition) s := rfl

theorem Repetition.parser_of_stops {s : List Char} (h : Stops repetitionSigns.contains s) :
    Repetition.parser s = .miss := by
  have hne : ∀ c ∈ repetitionSigns, s.head? ≠ some c := by
    intro c hc hhead
    have hsign := h c hhead
    simp [hc] at hsign
  simp only [Repetition.parser_eq, orElse_eq_miss, map_eq_miss, char_eq_miss]
  exact ⟨hne _ (by decide), hne _ (by decide), hne _ (by decide),
    Regex.opensWith_bounds.miss (hne _ (by decide))⟩

/-- A repetition is read back, whatever follows it. -/
theorem Repetition.readBack {s rest : List Char} {repetition : Repetition}
    (h : Repetition.parser s = .read repetition rest) (rest' : List Char) :
    (∃ c t, repetition.written ++ rest' = c :: t ∧ c ∈ repetitionSigns) ∧
      Repetition.parser (repetition.written ++ rest') = .read repetition rest' := by
  simp only [Repetition.parser_eq, orElse_eq_read, map_eq_read, map_eq_miss, char_eq_read,
    char_eq_miss] at h ⊢
  rcases h with ⟨_, rfl, -⟩ | ⟨-, ⟨_, rfl, -⟩ | ⟨-, ⟨_, rfl, -⟩ | ⟨-, range, rfl, hrange⟩⟩⟩
  · exact ⟨⟨'*', rest', rfl, by decide⟩, .inl ⟨'*', rfl, rfl, rfl⟩⟩
  · exact ⟨⟨'+', rest', rfl, by decide⟩, .inr ⟨by simp [written], .inl ⟨'+', rfl, rfl, rfl⟩⟩⟩
  · exact ⟨⟨'?', rest', rfl, by decide⟩, .inr ⟨by simp [written], .inr ⟨by simp [written],
      .inl ⟨'?', rfl, rfl, rfl⟩⟩⟩⟩
  · obtain ⟨-, t, ht⟩ := Regex.bounds_eq_cons hrange
    have hwritten : (Repetition.bounds range).written ++ rest' = '\x7b' :: (t ++ rest') := by
      change range.written ++ rest' = _
      rw [ht]
      rfl
    refine ⟨⟨'\x7b', _, hwritten, by decide⟩, ?_⟩
    rw [hwritten]
    refine .inr ⟨by simp, .inr ⟨by simp, .inr ⟨by simp, range, rfl, ?_⟩⟩⟩
    rw [← hwritten]
    exact bounds_readBack hrange rest'

/-! ## Structures -/

/-- A structure without conditions is its name. -/
theorem Structure.parser_of_name {nesting : Nesting} {s rest rest' : List Char} {x : String}
    (h : Parser.name s = .read x rest) (hends : Ends ['>', '/'] rest') :
    Structure.parser nesting (x.toList ++ rest') = .read ⟨x, none⟩ rest' := by
  have hmiss : afterBlanks (Disjunction.parser nesting) rest' = .miss := by
    rw [afterBlanks_apply, dropWhile_of_stops (hends.stops (by decide))]
    exact Disjunction.parser_of_ends (hends.mono (by decide))
  rw [Structure.parser]
  simp only [bind_eq_read]
  exact ⟨x, _, name_readBack h (hends.stops (by decide)), none, rest',
    optional_eq_read.mpr (.inr ⟨rfl, hmiss, rfl⟩), rfl⟩

/-- A structure is read back before a slash or a closing angle bracket. -/
theorem Structure.readBack {nesting : Nesting} {s rest rest' : List Char} {struct : Structure}
    (h : Structure.parser nesting s = .read struct rest) (hends : Ends ['>', '/'] rest') :
    (∃ c t, struct.written ++ rest' = c :: t ∧ isNameStart c = true) ∧
      Structure.parser nesting (struct.written ++ rest') =
        .read (struct.mapRegexes Regex.fused) rest' := by
  rw [Structure.parser] at h
  simp only [bind_eq_read, pure_eq_read] at h
  obtain ⟨name, _, hname, conditions, _, hconditions, rfl, -⟩ := h
  obtain ⟨c, cs, htext, hc, -, -, -⟩ := name_eq_read.mp hname
  rcases optional_eq_read.mp hconditions with ⟨alternatives, rfl, halternatives⟩ | ⟨rfl, -, -⟩
  · rw [afterBlanks_apply] at halternatives
    obtain ⟨hblank, hback⟩ := Disjunction.parser_readBack halternatives
      (show Ends [')', ']', '>', '/'] rest' from hends.mono (by decide))
    have hwritten : (Structure.mk name (some alternatives)).written ++ rest' =
        name.toList ++ ' ' :: (Disjunction.written alternatives ++ rest') := by
      simp [Structure.written]
    rw [hwritten, Structure.parser]
    simp only [bind_eq_read]
    refine ⟨⟨c, _, by rw [htext]; rfl, hc⟩, name, _, name_readBack hname (stops_cons.mpr rfl),
      some (Disjunction.mapRegexes Regex.fused alternatives), rest', ?_, rfl⟩
    refine optional_eq_read.mpr (.inl ⟨_, rfl, ?_⟩)
    rw [afterBlanks_apply, dropWhile_space, dropWhile_of_stops hblank]
    exact hback
  · exact ⟨⟨c, cs ++ rest', by simp [Structure.written, htext], hc⟩,
      Structure.parser_of_name hname hends⟩

/-! ## Elements -/

/-- No token begins like a structure. -/
theorem Starts.head?_ne_angle {s : List Char} (h : Starts tokenSigns s) :
    s.head? ≠ some '<' := by
  rcases h with ⟨c, t, rfl, hc⟩ | ⟨n, t, hn⟩ | ⟨t, rfl, -, -⟩
  · intro hhead
    obtain rfl : c = '<' := by simpa using hhead
    simp [tokenSigns] at hc
  · obtain ⟨d, u, rfl, hd⟩ := number_eq_cons hn
    intro hhead
    obtain rfl : d = '<' := by simpa using hhead
    simp at hd
  · simp

/-- What may follow an element. -/
def EndsElement (s : List Char) : Prop := EndsToken s ∧ Stops repetitionSigns.contains s

/-- How an atom is written and comes back. -/
def Atom.form : Form Atom where
  written := Atom.written
  renewed := Atom.mapRegexes Regex.fused
  Begins := Starts tokenSigns
  Follows := EndsToken

/-- How an element is written and comes back. -/
def Element.form : Form Element where
  written := Element.written
  renewed := Element.mapRegexes Regex.fused
  Begins := Starts elementSigns
  Follows := EndsElement

/-- The end of a structure is read from its name. -/
theorem Element.closingParser_of_name {s rest : List Char} {x : String}
    (h : name s = .read x rest) (rest' : List Char) :
    Element.closingParser ('<' :: '/' :: (x.toList ++ '>' :: rest')) =
      .read (.closing ⟨x, none⟩) rest' := by
  rw [Element.closingParser]
  simp only [bind_eq_read]
  refine ⟨'<', _, char_cons _ _, (), _, blanks_apply _, '/', _, char_cons _ _, (), _,
    blanks_apply _, x, '>' :: rest', ?_, '>', rest', afterBlanks_char rfl rest', rfl⟩
  rw [dropWhile_of_stops (stops_isBlank_name h _)]
  exact name_readBack h (stops_cons.mpr rfl)

/-- The end of a structure is read back. -/
theorem Element.closingParser_readBack {s rest : List Char} {element : Element}
    (h : Element.closingParser s = .read element rest) (rest' : List Char) :
    (∃ t, element.written ++ rest' = '<' :: t) ∧
      Element.closingParser (element.written ++ rest') =
        .read (element.mapRegexes Regex.fused) rest' := by
  rw [Element.closingParser] at h
  simp only [bind_eq_read, pure_eq_read] at h
  obtain ⟨_, _, _, _, _, _, _, _, _, _, _, _, name, _, hname, _, _, _, rfl, _⟩ := h
  have hwritten : (Element.closing ⟨name, none⟩).written ++ rest' =
      '<' :: '/' :: (name.toList ++ '>' :: rest') := by
    change ['<', '/'] ++ name.toList ++ ['>'] ++ rest' = _
    simp
  rw [hwritten]
  exact ⟨⟨_, rfl⟩, Element.closingParser_of_name hname rest'⟩

/-- How a tag ends that begins a structure or is a whole one. -/
def tagEnd (selfClosing : Bool) : List Char := if selfClosing then ['/', '>'] else ['>']

theorem ends_tagEnd (selfClosing : Bool) (rest : List Char) :
    Ends ['>', '/'] (tagEnd selfClosing ++ rest) := by
  cases selfClosing with
  | true => exact ends_cons.mpr (by decide)
  | false => exact ends_cons.mpr (by decide)

/-- The beginning of a structure is read from what the structure is read from, and the end of one is
not. -/
theorem Element.openingParser_of_structure {nesting : Nesting} {s rest : List Char}
    {struct : Structure} {selfClosing : Bool} (hstart : ∃ c t, s = c :: t ∧ isNameStart c = true)
    (h : Structure.parser nesting s = .read struct (tagEnd selfClosing ++ rest)) :
    Element.closingParser ('<' :: s) = .miss ∧
      Element.openingParser nesting ('<' :: s) = .read (.opening struct selfClosing) rest := by
  obtain ⟨c, t, rfl, hc⟩ := hstart
  have hskip : (c :: t).dropWhile isBlank = c :: t :=
    dropWhile_of_stops (stops_cons.mpr (isBlank_of_isNameStart hc))
  have hslash : c ≠ '/' := by
    rintro rfl
    simp [isNameStart] at hc
  have hclose : present (afterBlanks (char '/')) (tagEnd selfClosing ++ rest) =
      .read selfClosing ('>' :: rest) := by
    cases selfClosing with
    | true => exact present_eq_read.mpr (.inl ⟨rfl, '/', afterBlanks_char rfl _⟩)
    | false =>
      refine present_eq_read.mpr (.inr ⟨rfl, ?_, rfl⟩)
      rw [afterBlanks_apply]
      exact char_eq_miss.mpr (by simp [tagEnd, isBlank])
  constructor
  · rw [Element.closingParser, bind_of_read (char_cons _ _), bind_of_read (blanks_apply _), hskip]
    exact bind_of_miss (char_eq_miss.mpr (by simpa using hslash)) _
  · rw [Element.openingParser]
    simp only [bind_eq_read]
    refine ⟨'<', _, char_cons _ _, struct, _, ?_, selfClosing, '>' :: rest, hclose, '>', rest,
      afterBlanks_char rfl rest, rfl⟩
    rw [afterBlanks_apply, hskip]
    exact h

/-- The beginning of a structure is read back. -/
theorem Element.openingParser_readBack {nesting : Nesting} {s rest : List Char}
    {element : Element} (h : Element.openingParser nesting s = .read element rest)
    (rest' : List Char) :
    (∃ t, element.written ++ rest' = '<' :: t) ∧
      Element.closingParser (element.written ++ rest') = .miss ∧
        Element.openingParser nesting (element.written ++ rest') =
          .read (element.mapRegexes Regex.fused) rest' := by
  rw [Element.openingParser] at h
  simp only [bind_eq_read, pure_eq_read, afterBlanks_apply] at h
  obtain ⟨_, _, _, struct, _, hstruct, selfClosing, _, _, _, _, _, rfl, _⟩ := h
  have hwritten : (Element.opening struct selfClosing).written ++ rest' =
      '<' :: (struct.written ++ (tagEnd selfClosing ++ rest')) := by
    change '<' :: struct.written ++ tagEnd selfClosing ++ rest' = _
    simp
  obtain ⟨hstart, hback⟩ := Structure.readBack hstruct (ends_tagEnd selfClosing rest')
  rw [hwritten]
  exact ⟨⟨_, rfl⟩, Element.openingParser_of_structure hstart hback⟩

/-- A repetition as written, or nothing. -/
def repetitionText : Option Repetition → List Char
  | none => []
  | some repetition => repetition.written

/-- A repetition that may be left out is read back behind an atom. -/
theorem optional_repetition_readBack {s rest rest' : List Char} {repetition : Option Repetition}
    (h : optional Repetition.parser s = .read repetition rest) (hends : EndsToken rest')
    (hstop : Stops repetitionSigns.contains rest') :
    EndsToken (repetitionText repetition ++ rest') ∧
      optional Repetition.parser (repetitionText repetition ++ rest') =
        .read repetition rest' := by
  rcases optional_eq_read.mp h with ⟨sign, rfl, hsign⟩ | ⟨rfl, -, -⟩
  · obtain ⟨⟨c, t, ht, hc⟩, hagain⟩ := Repetition.readBack hsign rest'
    have hname : isNameChar c = false := eq_false_of_any hc (by decide)
    have hblank : isBlank c = false := eq_false_of_any hc (by decide)
    have hcolon : c ≠ ':' := by
      rintro rfl
      exact absurd hc (by decide)
    refine ⟨?_, optional_eq_read.mpr (.inl ⟨sign, rfl, hagain⟩)⟩
    rw [repetitionText, ht]
    refine ⟨stops_cons.mpr hname, ?_⟩
    rw [dropWhile_of_stops (stops_cons.mpr hblank)]
    simpa using hcolon
  · exact ⟨hends, optional_eq_read.mpr (.inr ⟨rfl, Repetition.parser_of_stops hstop, rfl⟩)⟩

/-- An atom with its repetition, given how to read the atom. -/
def repeatedParser (atom : Parser Atom) : Parser Element := do
  let atom ← atom
  let repetition ← optional Repetition.parser
  pure (.atom atom repetition)

theorem Element.parserOf_eq (atom : Parser Atom) (nesting : Nesting) (s : List Char) :
    Element.parserOf atom nesting s = (Element.closingParser <|>
      (Element.openingParser nesting <|> repeatedParser atom) : Parser Element) s := rfl

theorem Element.opensWith_closingParser : OpensWith ['<'] Element.closingParser :=
  (opensWith_char '<').bind _

theorem Element.opensWith_openingParser {nesting : Nesting} :
    OpensWith ['<'] (Element.openingParser nesting) :=
  (opensWith_char '<').bind _

section

variable {p : Parser Atom} {again : Nat → Parser Atom} (h : Restores p again Atom.form)

include h

/-- An atom with its repetition is restored when atoms are. -/
theorem repeatedParser_restores :
    Restores (repeatedParser p) (fun n => repeatedParser (again n))
      { Element.form with Begins := Starts tokenSigns } := by
  refine restores_of_written ?_
  intro s element rest hread rest' hfollows
  obtain ⟨hends, hstop⟩ := hfollows
  rw [repeatedParser] at hread
  simp only [bind_eq_read, pure_eq_read] at hread
  obtain ⟨atom, _, hatom, repetition, _, hrepetition, rfl, -⟩ := hread
  obtain ⟨hnext, hagain⟩ := optional_repetition_readBack hrepetition hends hstop
  obtain ⟨hstarts, hback⟩ := h _ atom _ hatom _ hnext
  refine ⟨atom.written ++ (repetitionText repetition ++ rest'), ?_, hstarts, ?_⟩
  · cases repetition with
    | none => rfl
    | some repetition =>
      change atom.written ++ repetition.written ++ rest' = _
      rw [List.append_assoc]
      rfl
  · intro n hn
    rw [repeatedParser]
    simp only [bind_eq_read]
    exact ⟨_, _, hback n hn, repetition, rest', hagain, rfl⟩

/-- An element is restored when atoms are. -/
theorem Element.parserOf_restores (nesting : Nesting) :
    Restores (Element.parserOf p nesting) (fun n => Element.parserOf (again n) nesting)
      Element.form := by
  intro s element rest hread rest' hfollows
  change Starts elementSigns (element.written ++ rest') ∧ ∀ n,
    (element.written ++ rest').length < n →
      Element.parserOf (again n) nesting (element.written ++ rest') =
        .read (element.mapRegexes Regex.fused) rest'
  simp only [Element.parserOf_eq, orElse_eq_read] at hread ⊢
  rcases hread with hclosing | ⟨-, hopening | ⟨-, hatom⟩⟩
  · obtain ⟨⟨t, ht⟩, hback⟩ := Element.closingParser_readBack hclosing rest'
    exact ⟨.inl ⟨'<', t, ht, by decide⟩, fun n _ => .inl hback⟩
  · obtain ⟨⟨t, ht⟩, hclosing, hback⟩ := Element.openingParser_readBack hopening rest'
    exact ⟨.inl ⟨'<', t, ht, by decide⟩, fun n _ => .inr ⟨hclosing, .inl hback⟩⟩
  · obtain ⟨hstarts, hback⟩ := repeatedParser_restores h _ element _ hatom rest' hfollows
    have hangle := hstarts.head?_ne_angle
    exact ⟨hstarts.element, fun n hn => .inr ⟨Element.opensWith_closingParser.miss hangle,
      .inr ⟨Element.opensWith_openingParser.miss hangle, hback n hn⟩⟩⟩

end

/-! ## Chains -/

/-- The characters a chain ends before, where blanks may stand in between. -/
def chainEnds : List Char := ['|', ')', '&', 'w', 'c', '!']

/-- The characters a sequence ends before. -/
def sequenceEnds : List Char := [')', '&', 'w', 'c', '!']

/-- A word ends here, and one of `ends` is the next character that is no blank. -/
def EndsBefore (ends s : List Char) : Prop :=
  Ends [' ', ')'] s ∧ Ends ends (s.dropWhile isBlank)

theorem EndsBefore.mono {ends more s : List Char} (h : EndsBefore ends s)
    (hmore : ends ⊆ more) : EndsBefore more s :=
  ⟨h.1, h.2.mono hmore⟩

/-- What `ends` lists may stand behind a blank. -/
theorem endsBefore_space {ends : List Char} {c : Char} (hc : c ∈ ends) (hblank : isBlank c = false)
    (s : List Char) : EndsBefore ends (' ' :: c :: s) := by
  refine ⟨ends_cons.mpr (by decide), ?_⟩
  rw [dropWhile_space, dropWhile_of_stops (stops_cons.mpr hblank)]
  exact ends_cons.mpr hc

theorem EndsBefore.endsElement {s : List Char} (h : EndsBefore chainEnds s) : EndsElement s :=
  ⟨⟨h.1.stops (by decide), h.2.head?_ne (by decide)⟩, h.1.stops (by decide)⟩

/-- An element may follow another one behind a blank. -/
theorem Starts.endsElement {s : List Char} (h : Starts elementSigns s) : EndsElement (' ' :: s) :=
  ⟨h.endsToken, stops_cons.mpr rfl⟩

/-- A text begins like an element, perhaps behind the sign of an excluded chain. -/
def StartsChain (s : List Char) : Prop :=
  ∃ negated t, bang s = .read negated t ∧ Starts elementSigns t

/-- A chain begins with the sign of an excluded one, or like an element. -/
theorem StartsChain.cases {s : List Char} (h : StartsChain s) :
    (∃ t, s = '!' :: t) ∨ Starts elementSigns s := by
  obtain ⟨negated, t, hbang, hstarts⟩ := h
  rcases bang_eq_read.mp hbang with ⟨-, u, rfl, -⟩ | ⟨-, -, rfl⟩
  · exact .inl ⟨u, rfl⟩
  · exact .inr hstarts

theorem StartsChain.stops_isBlank {s : List Char} (h : StartsChain s) : Stops isBlank s := by
  rcases h.cases with ⟨t, rfl⟩ | hstarts
  · exact stops_cons.mpr rfl
  · exact hstarts.stops_isBlank

/-- The sign of an excluded chain is read in front of an element. -/
theorem Starts.bang_written {t : List Char} (h : Starts elementSigns t) (negated : Bool) :
    bang (bangText negated ++ t) = .read negated t :=
  bang_bangText h.stops_isBlank fun _ => h.head?_ne (by decide) (by decide)

/-- How a chain is written and comes back. -/
def Chain.form : Form Chain where
  written := Chain.written
  renewed := Chain.mapRegexes Regex.fused
  Begins := StartsChain
  Follows := EndsBefore chainEnds

/-- How a sequence is written and comes back. -/
def Sequence.form : Form Sequence where
  written := Sequence.written
  renewed := Sequence.mapRegexes Regex.fused
  Begins := StartsChain
  Follows := EndsBefore sequenceEnds

theorem Element.writtenRow_eq_joined (elements : List Element) :
    Element.writtenRow elements = joined [' '] (elements.map Element.written) := by
  induction elements with
  | nil => rfl
  | cons element elements ih =>
    cases elements with
    | nil => rfl
    | cons next elements =>
      rw [Element.writtenRow, ih, List.map_cons, List.map_cons, List.map_cons,
        Text.joined_cons_cons, List.append_assoc]
      · rfl
      · simp

theorem Chain.writtenChoice_eq_joined (chains : List Chain) :
    Chain.writtenChoice chains = joined [' ', '|', ' '] (chains.map Chain.written) := by
  induction chains with
  | nil => rfl
  | cons chain chains ih =>
    cases chains with
    | nil => rfl
    | cons next chains =>
      rw [Chain.writtenChoice, ih, List.map_cons, List.map_cons, List.map_cons,
        Text.joined_cons_cons]
      simp

/-- No element stands where a chain ends and no atom stands. -/
theorem Element.parserOf_of_ends {atom : Parser Atom} {nesting : Nesting} {s : List Char}
    (hends : Ends chainEnds s) (hmiss : atom s = .miss) :
    Element.parserOf atom nesting s = .miss := by
  have hangle : s.head? ≠ some '<' := hends.head?_ne (by decide)
  simp only [Element.parserOf_eq, orElse_eq_miss]
  exact ⟨Element.opensWith_closingParser.miss hangle, Element.opensWith_openingParser.miss hangle,
    bind_eq_miss.mpr (.inl hmiss)⟩

section

variable {p : Parser Atom} {again : Nat → Parser Atom} (h : Restores p again Atom.form)
  (hmiss : ∀ n s, Ends chainEnds s → again n s = .miss)

include h hmiss

/-- A chain is restored when atoms are, and where a chain ends no atom stands. -/
theorem Chain.parserOf_restores (nesting : Nesting) :
    Restores (Chain.parserOf p nesting) (fun n => Chain.parserOf (again n) nesting)
      Chain.form := by
  have hrow : Restores (many1 (afterBlanks (Element.parserOf p nesting)))
      (fun n => many1 (afterBlanks (Element.parserOf (again n) nesting)))
      (Element.form.listed [' '] fun t => Ends chainEnds (t.dropWhile isBlank)) :=
    (Element.parserOf_restores h nesting).many1_afterBlanks (fun _ ht => ht.stops_isBlank)
      (fun _ ht => ht.endsElement) fun n _ ht => Element.parserOf_of_ends ht (hmiss n _ ht)
  refine restores_of_written ?_
  intro s chain rest hread rest' hfollows
  rw [Chain.parserOf] at hread
  simp only [bind_eq_read, pure_eq_read] at hread
  obtain ⟨negated, _, -, elements, _, helements, rfl, -⟩ := hread
  obtain ⟨hstarts, hback⟩ := hrow _ elements _ helements rest' ⟨hfollows.endsElement, hfollows.2⟩
  let row := joined [' '] (elements.map Element.written) ++ rest'
  change Starts elementSigns row at hstarts
  refine ⟨bangText negated ++ row, ?_, ⟨negated, row, hstarts.bang_written negated, hstarts⟩, ?_⟩
  · change bangText negated ++ Element.writtenRow elements ++ rest' = _
    rw [Element.writtenRow_eq_joined, List.append_assoc]
  · intro n hn
    have hlt : row.length < n := by
      rw [List.length_append] at hn
      omega
    change Chain.parserOf (again n) nesting (bangText negated ++ row) =
      .read ⟨negated, Element.mapRegexesOfAll Regex.fused elements⟩ rest'
    rw [Chain.parserOf, Element.mapRegexesOfAll_eq_map]
    simp only [bind_eq_read]
    exact ⟨negated, row, hstarts.bang_written negated, _, rest', hback n hlt, rfl⟩

/-- A sequence is restored when atoms are, and where a chain ends no atom stands. -/
theorem Sequence.parserOf_restores (nesting : Nesting) :
    Restores (Sequence.parserOf p nesting) (fun n => Sequence.parserOf (again n) nesting)
      Sequence.form := by
  have hchoice : Restores (sepBy1 (spaced (char '|')) (Chain.parserOf p nesting))
      (fun n => sepBy1 (spaced (char '|')) (Chain.parserOf (again n) nesting))
      (Chain.form.listed [' ', '|', ' '] (EndsBefore sequenceEnds)) := by
    refine (Chain.parserOf_restores h hmiss nesting).sepBy1 (x := '|') (List.cons_ne_nil _ _)
      ?_ ?_ ?_
    · intro t ht
      exact spaced_char_written rfl ht.stops_isBlank
    · intro t _
      exact endsBefore_space (by decide) rfl _
    · intro n t ht
      exact bind_of_miss (spaced_char_of_head?_ne (ht.2.head?_ne (by decide))) _
  refine restores_of_written ?_
  intro s sequence rest hread rest' hfollows
  obtain ⟨chains, rfl, hchains⟩ := map_eq_read.mp hread
  obtain ⟨hstarts, hback⟩ := hchoice _ chains _ hchains rest'
    ⟨hfollows.mono (by decide), hfollows⟩
  refine ⟨joined [' ', '|', ' '] (chains.map Chain.written) ++ rest', ?_, hstarts, ?_⟩
  · change Chain.writtenChoice chains ++ rest' = _
    rw [Chain.writtenChoice_eq_joined]
  · intro n hn
    refine map_eq_read.mpr ⟨_, ?_, hback n hn⟩
    change _ = Sequence.mk (Chain.mapRegexesOfAll Regex.fused chains)
    rw [Chain.mapRegexesOfAll_eq_map]
    rfl

end

end CorpusCost
