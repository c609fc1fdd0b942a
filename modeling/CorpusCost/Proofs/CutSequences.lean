import CorpusCost.Proofs.CutConditions
import CorpusCost.Proofs.QueryReadBack

/-!
# Sequences of cut texts

Tokens, tags, chains, sequences, blocks and groups are read from a cut text as they were from the
whole one. A token closes itself; an element must not be repeated by what the cut leaves, and a
chain, a sequence and a block end before the signs and words that end them. What a sequence begins
with tells it from a scope that is a number or names a corpus, and a group from a pairing, with or
without the cut.
-/

set_option autoImplicit false

namespace CorpusCost

open CorpusCost.Parser

variable {y : List Char} {Φ : List Char → Prop} {nesting : Nesting}

/-! ## Tokens -/

theorem cut_windowParser : Cut y Φ windowParser windowParser :=
  cut_signed.spaced.seq fun first => cut_signed.map (Prod.mk first)

/-- No window stands before the closing bracket of a pairing. -/
theorem windowParser_of_ahead {s : List Char} (h : Ahead [')'] s) : windowParser s = .miss := by
  refine bind_of_miss (spaced_eq_miss.mpr ?_) _
  exact signed_of_stops (Ends.stops h (by decide)) h

/-- A pairing is read from cut texts when positions are. -/
theorem Pairing.cut_parserOf {p q : Parser Position} (h : Cut y Anything p q) :
    Cut y (Ahead [')']) (parserOf p) (parserOf q) := by
  have hwindow : Cut y (Ahead [')']) (optional windowParser) (optional windowParser) :=
    cut_windowParser.optional fun _ _ hx => windowParser_of_ahead hx
  exact Cut.orElse_of_opensWith
    ((cut_keyword "meet").seq fun _ => h.afterBlanks.seq fun left =>
      h.afterBlanks.seq fun right => hwindow.map (Pairing.meet left right))
    ((cut_keyword "union").seq fun _ => h.afterBlanks.seq fun left =>
      h.afterBlanks.of_anything.map (Pairing.union left))
    ((opensWith_keyword 'm' rfl).bind _) ((opensWith_keyword 'u' rfl).bind _) (by decide)

/-- The characters that tokens in brackets, similar tokens, pairings, `mu` and words begin with. -/
theorem Token.opensWith (position : Nesting → Parser Position) (nesting : Nesting) :
    OpensWith ['['] (conditionsParser nesting) ∧ OpensWith ['~'] (anchoredParser nesting) ∧
      OpensWith ['('] (pairingParser position nesting) ∧
      OpensWith ['m'] ((fun _ => Token.mu) <$> keyword "mu") ∧
      OpensWith ['"'] (Token.word <$> Regex.quoted nesting) :=
  ⟨opensWith_conditionsParser, opensWith_anchoredParser, opensWith_pairingParser,
    (opensWith_keyword 'm' rfl).map _, Regex.opensWith_quoted.map _⟩

/-- A token is read from cut texts when the positions nested in it are. -/
theorem Token.cut_parserOf {p q : Nesting → Parser Position}
    (h : ∀ nesting, Cut y Anything (p nesting) (q nesting)) (nesting : Nesting) :
    Cut y Φ (parserOf p nesting) (parserOf q nesting) := by
  have hconditions : Cut y Φ (conditionsParser nesting) (conditionsParser nesting) := by
    refine Cut.map _ (Cut.bracketed (Cut.optional ?_ fun _ _ hx => ?_))
    · exact (Disjunction.parser_cut nesting).imp fun _ hx => hx.mono (by decide)
    · exact Disjunction.parser_of_ahead (hx.mono (by decide))
  have hanchored : Cut y Φ (anchoredParser nesting) (anchoredParser nesting) := by
    have hnumber : Cut y (Ends ['"']) (optional number) (optional number) :=
      cut_optional_number fun _ hx => hx.stops (by decide)
    refine (cut_char '~').seq fun _ => hnumber.bind (fun _ => (cut_quoted nesting).map _) ?_
    intro n u token x hread _
    obtain ⟨regex, -, hregex⟩ := map_eq_read.mp hread
    exact Regex.opensWith_quoted.ends hregex
  have hpairing : Cut y Φ (pairingParser p nesting) (pairingParser q nesting) :=
    Cut.map _ (Cut.bracketed (Cut.nested (fun deeper => Pairing.cut_parserOf (h deeper)) nesting))
  obtain ⟨hopen₁, hopen₂, hopen₃, hopen₄, hopen₅⟩ := Token.opensWith q nesting
  exact hconditions.orElse_of_opensWith (hanchored.orElse_of_opensWith
    (hpairing.orElse_of_opensWith (((cut_keyword "mu").map _).orElse_of_opensWith
      ((cut_quoted nesting).map _) hopen₄ hopen₅ (by decide))
      hopen₃ (hopen₄.orElse hopen₅) (by decide))
    hopen₂ (hopen₃.orElse (hopen₄.orElse hopen₅)) (by decide))
    hopen₁ (hopen₂.orElse (hopen₃.orElse (hopen₄.orElse hopen₅))) (by decide)

/-- What a token or an atom that leaves `rest` begins with: one of the signs of tokens, a label, or
the word `mu`. -/
def StartsAtom (rest s : List Char) : Prop :=
  (∃ c t, s = c :: t ∧ c ∈ tokenSigns) ∨ (∃ n t, number s = .read n (':' :: t)) ∨
    s = 'm' :: 'u' :: rest ∧ Stops isNameChar rest

/-- Where no colon stands ahead of what is left, an atom begins as the atom of a sequence does. -/
theorem StartsAtom.starts {s rest : List Char} (h : StartsAtom rest s)
    (hcolon : (rest.dropWhile isBlank).head? ≠ some ':') : Starts tokenSigns s := by
  rcases h with hsign | hlabel | ⟨rfl, hstop⟩
  · exact .inl hsign
  · exact .inr (.inl hlabel)
  · exact .inr (.inr ⟨rest, rfl, hstop, hcolon⟩)

/-- A character that may begin an element. -/
def beginsElement (c : Char) : Bool := c.isDigit || ('m' :: elementSigns).contains c

/-- An atom begins as an element does, but not with an angle bracket. -/
theorem StartsAtom.eq_cons {s rest : List Char} (h : StartsAtom rest s) :
    ∃ c t, s = c :: t ∧ beginsElement c = true ∧ c ≠ '<' := by
  rcases h with ⟨c, t, rfl, hc⟩ | ⟨n, t, hn⟩ | ⟨rfl, -⟩
  · have hsigns : tokenSigns.all (fun d => beginsElement d && d != '<') = true := by decide
    exact ⟨c, t, rfl, by simpa using List.all_eq_true.mp hsigns c hc⟩
  · obtain ⟨d, u, rfl, hd⟩ := number_eq_cons hn
    refine ⟨d, u, rfl, by simp [beginsElement, hd], ?_⟩
    rintro rfl
    simp at hd
  · exact ⟨'m', 'u' :: rest, rfl, by decide, by decide⟩

/-- How a token begins. -/
theorem Token.starts_of_read {position : Nesting → Parser Position} {s rest : List Char}
    {token : Token} (h : parserOf position nesting s = .read token rest) :
    (∃ c t, s = c :: t ∧ c ∈ tokenSigns) ∨ s = 'm' :: 'u' :: rest ∧ Stops isNameChar rest := by
  obtain ⟨hopen₁, hopen₂, hopen₃, -, hopen₅⟩ := Token.opensWith position nesting
  have hsign : ∀ {p : Parser Token} {c : Char}, OpensWith [c] p → c ∈ tokenSigns →
      p s = .read token rest → ∃ c t, s = c :: t ∧ c ∈ tokenSigns := by
    intro p c hopen hc hread
    obtain ⟨t, rfl⟩ := hopen.eq_cons hread
    exact ⟨c, t, rfl, hc⟩
  simp only [Token.parserOf_eq, orElse_eq_read] at h
  rcases h with h | ⟨-, h | ⟨-, h | ⟨-, h | ⟨-, h⟩⟩⟩⟩
  · exact .inl (hsign hopen₁ (by decide) h)
  · exact .inl (hsign hopen₂ (by decide) h)
  · exact .inl (hsign hopen₃ (by decide) h)
  · obtain ⟨_, -, hmu⟩ := map_eq_read.mp h
    obtain ⟨hs, hstop⟩ := keyword_eq_read.mp hmu
    exact .inr ⟨hs, hstop⟩
  · exact .inl (hsign hopen₅ (by decide) h)

/-- A position is read from cut texts when the positions nested in it are. -/
theorem Position.cut_parserOf {p q : Nesting → Parser Position}
    (h : ∀ nesting, Cut y Anything (p nesting) (q nesting)) (nesting : Nesting) :
    Cut y Φ (parserOf p nesting) (parserOf q nesting) := by
  refine Cut.orElse (cut_number.seq fun label => (cut_char ':').seq fun _ =>
    (Token.cut_parserOf h nesting).map (Position.mk (some label)))
    ((Token.cut_parserOf h nesting).map (Position.mk none)) ?_
  intro t position x _ hread _
  obtain ⟨token, -, htoken⟩ := map_eq_read.mp hread
  refine bind_of_miss (number_of_stops ?_) _
  rcases Token.starts_of_read htoken with ⟨c, u, rfl, hc⟩ | ⟨rfl, -⟩
  · exact stops_cons.mpr (eq_false_of_any hc (by decide))
  · exact stops_cons.mpr rfl

theorem Position.parser_cut (nesting : Nesting) :
    Cut y Φ (parser nesting) (parser nesting) :=
  (cut_recursive (fun _ _ h _ => Position.cut_parserOf h) nesting).of_anything

theorem Position.starts_of_read {s rest : List Char} {position : Position}
    (h : parser nesting s = .read position rest) : StartsAtom rest s := by
  rw [Position.parser, recursive_eq, Position.parserOf, orElse_eq_read] at h
  rcases h with h | ⟨-, h⟩
  · obtain ⟨label, mid, hlabel, h⟩ := bind_eq_read.mp h
    obtain ⟨_, t, hcolon, -⟩ := bind_eq_read.mp h
    obtain ⟨-, rfl⟩ := char_eq_read.mp hcolon
    exact .inr (.inl ⟨label, t, hlabel⟩)
  · obtain ⟨token, mid, htoken, h⟩ := bind_eq_read.mp h
    obtain ⟨-, rfl⟩ := pure_eq_read.mp h
    rcases Token.starts_of_read htoken with hsign | hmu
    · exact .inl hsign
    · exact .inr (.inr hmu)

/-! ## Elements -/

theorem Repetition.parser_cut : Cut y Φ Repetition.parser Repetition.parser :=
  ((cut_char '*').map _).orElse_of_fades ((fades_char _).map _) <|
  ((cut_char '+').map _).orElse_of_fades ((fades_char _).map _) <|
  ((cut_char '?').map _).orElse_of_fades ((fades_char _).map _) <| cut_bounds.map _

theorem Repetition.opensWith : OpensWith repetitionSigns Repetition.parser := by
  intro s hs
  refine Repetition.parser_of_stops fun c hc => ?_
  rw [List.contains_eq_mem, decide_eq_false_iff_not]
  exact fun hmem => hs c hmem hc

/-- A structure is read before a slash and before the end of its tag. -/
theorem Structure.parser_cut (nesting : Nesting) :
    Cut y (Ahead ['/', '>']) (parser nesting) (parser nesting) := by
  refine cut_name.seq fun name => Cut.map (Structure.mk name) (Cut.optional ?_ ?_)
  · exact ((Disjunction.parser_cut nesting).imp fun _ hx => hx.mono (by decide)).afterBlanks
  · intro x _ hx
    exact Disjunction.parser_of_ends (hx.mono (by decide))

theorem Element.cut_closingParser : Cut y Φ closingParser closingParser :=
  (cut_char '<').seq fun _ => cut_blanks.seq fun _ => (cut_char '/').seq fun _ =>
    cut_blanks.seq fun _ => cut_name.seq fun _ => (cut_char '>').afterBlanks.map _

theorem Element.cut_openingParser (nesting : Nesting) :
    Cut y Φ (openingParser nesting) (openingParser nesting) := by
  refine (cut_char '<').seq fun _ => (Structure.parser_cut nesting).afterBlanks.bind
    (fun struct => (cut_present_afterBlanks '/').seq fun selfClosing =>
      (cut_char '>').afterBlanks.map _) ?_
  intro struct u element x hread _
  obtain ⟨selfClosing, mid, hslash, hclose⟩ := bind_eq_read.mp hread
  rcases present_eq_read.mp hslash with ⟨-, _, hslash⟩ | ⟨-, -, rfl⟩
  · exact (ahead_of_afterBlanks hslash).mono (by decide)
  · obtain ⟨_, -, hclose⟩ := map_eq_read.mp hclose
    exact (ahead_of_afterBlanks hclose).mono (by decide)

/-- The beginning of a structure is not the end of one. -/
theorem Element.closingParser_of_opening {s rest : List Char} {element : Element}
    (h : openingParser nesting s = .read element rest) : closingParser s = .miss := by
  obtain ⟨_, t, hopen, hinside⟩ := bind_eq_read.mp h
  obtain ⟨-, rfl⟩ := char_eq_read.mp hopen
  obtain ⟨struct, _, hstruct, -⟩ := bind_eq_read.mp hinside
  rw [afterBlanks_apply] at hstruct
  obtain ⟨name, _, hname, -⟩ := bind_eq_read.mp hstruct
  obtain ⟨c, cs, -, hc, -, -, ht⟩ := name_eq_read.mp hname
  rw [Element.closingParser, bind_of_read (char_cons _ _), bind_of_read (blanks_apply t), ht]
  refine bind_of_miss (char_eq_miss.mpr ?_) _
  intro hhead
  obtain rfl : c = '/' := by simpa using hhead
  exact absurd hc (by decide)

/-- What is known of a reader of atoms before its grammar is: how its atoms begin, and that there
are none where a chain ends. -/
structure ReadsAtoms (q : Parser Atom) : Prop where
  starts : ∀ {s rest : List Char} {atom : Atom}, q s = .read atom rest → StartsAtom rest s
  miss : ∀ {s : List Char}, Ends chainEnds s → q s = .miss

section

variable {q : Parser Atom} (hq : ReadsAtoms q)

include hq

/-- How an element begins. -/
theorem Element.cases_of_read {s rest : List Char} {element : Element}
    (h : parserOf q nesting s = .read element rest) :
    (∃ t, s = '<' :: t) ∨ ∃ mid repetition, StartsAtom mid s ∧
      optional Repetition.parser mid = .read repetition rest := by
  simp only [Element.parserOf_eq, orElse_eq_read] at h
  rcases h with hclosing | ⟨-, hopening | ⟨-, hrepeated⟩⟩
  · exact .inl (Element.opensWith_closingParser.eq_cons hclosing)
  · exact .inl (Element.opensWith_openingParser.eq_cons hopening)
  · obtain ⟨atom, mid, hatom, hmore⟩ := bind_eq_read.mp hrepeated
    obtain ⟨repetition, last, hrepetition, hlast⟩ := bind_eq_read.mp hmore
    obtain ⟨-, rfl⟩ := pure_eq_read.mp hlast
    exact .inr ⟨mid, repetition, hq.starts hatom, hrepetition⟩

theorem Element.eq_cons_of_read {s rest : List Char} {element : Element}
    (h : parserOf q nesting s = .read element rest) :
    ∃ c t, s = c :: t ∧ beginsElement c = true := by
  rcases Element.cases_of_read hq h with ⟨t, rfl⟩ | ⟨mid, _, hatom, -⟩
  · exact ⟨'<', t, rfl, by decide⟩
  · obtain ⟨c, t, hs, hc, -⟩ := hatom.eq_cons
    exact ⟨c, t, hs, hc⟩

/-- No colon stands ahead of a row of elements, unless it stands behind it. -/
theorem Element.no_colon_of_many {s rest : List Char} {elements : List Element}
    (h : many (afterBlanks (parserOf q nesting)) s = .read elements rest)
    (hcolon : (rest.dropWhile isBlank).head? ≠ some ':') :
    (s.dropWhile isBlank).head? ≠ some ':' := by
  have hnext : ∀ t element x, afterBlanks (parserOf q nesting) t = .read element x →
      (x.dropWhile isBlank).head? ≠ some ':' → (t.dropWhile isBlank).head? ≠ some ':' := by
    intro t element x hread _ hhead
    obtain ⟨c, u, ht, hc⟩ := Element.eq_cons_of_read hq hread
    obtain rfl : c = ':' := by simpa [ht] using hhead
    exact absurd hc (by decide)
  exact of_many hnext h hcolon

/-- Where no colon stands ahead of what is left, an element begins as the element of a sequence
does. -/
theorem Element.starts_of_read {s rest : List Char} {element : Element}
    (h : parserOf q nesting s = .read element rest)
    (hcolon : (rest.dropWhile isBlank).head? ≠ some ':') : Starts elementSigns s := by
  rcases Element.cases_of_read hq h with ⟨t, rfl⟩ | ⟨mid, repetition, hatom, hrepetition⟩
  · exact .inl ⟨'<', t, rfl, by decide⟩
  · refine (hatom.starts ?_).element
    rcases optional_eq_read.mp hrepetition with ⟨_, -, hsign⟩ | ⟨-, -, rfl⟩
    · obtain ⟨c, t, rfl, hc⟩ := Repetition.opensWith.read hsign
      have hblank : isBlank c = false := eq_false_of_any hc (by decide)
      have hother : c ≠ ':' := by
        rintro rfl
        exact absurd hc (by decide)
      rw [dropWhile_of_stops (stops_cons.mpr hblank)]
      simpa using hother
    · exact hcolon

/-- Where no colon stands ahead of what is left, a sequence begins as a chain does. -/
theorem Sequence.starts_of_read {s rest : List Char} {sequence : Sequence}
    (h : parserOf q nesting s = .read sequence rest) (hblank : Stops isBlank s)
    (hcolon : (rest.dropWhile isBlank).head? ≠ some ':') : StartsChain s := by
  obtain ⟨chains, -, hchains⟩ := map_eq_read.mp h
  obtain ⟨chain, mid, more, -, hchain, hmore⟩ := sepBy1_eq_read.mp hchains
  obtain ⟨negated, t, hbang, hrow⟩ := bind_eq_read.mp hchain
  obtain ⟨elements, last, helements, hlast⟩ := bind_eq_read.mp hrow
  obtain ⟨-, rfl⟩ := pure_eq_read.mp hlast
  obtain ⟨element, after, others, -, helement, hothers⟩ := many1_eq_read.mp helements
  have hbar : ∀ u chain x, (spaced (char '|') >>= fun _ => Chain.parserOf q nesting) u =
      .read chain x → (x.dropWhile isBlank).head? ≠ some ':' →
        (u.dropWhile isBlank).head? ≠ some ':' := by
    intro u chain x hread _
    obtain ⟨_, v, hsign, -⟩ := bind_eq_read.mp hread
    exact Ends.head?_ne (ahead_of_spaced hsign) (by decide)
  have ht : t.dropWhile isBlank = t := by
    rcases bang_eq_read.mp hbang with ⟨-, u, -, rfl⟩ | ⟨-, -, rfl⟩
    · exact dropWhile_of_stops (stops_dropWhile isBlank u)
    · exact dropWhile_of_stops hblank
  rw [afterBlanks_apply, ht] at helement
  have hafter := Element.no_colon_of_many hq hothers (of_many hbar hmore hcolon)
  exact ⟨negated, t, hbang, Element.starts_of_read hq helement hafter⟩

end

/-! ## Chains and sequences -/

section

variable {p q : Parser Atom} (h : Cut y Anything p q) (hq : ReadsAtoms q)

include h

theorem Element.cut_repeatedParser :
    Cut y (Stops repetitionSigns.contains) (repeatedParser p) (repeatedParser q) :=
  h.seq fun atom => (Repetition.parser_cut.optional fun _ _ hx =>
    Repetition.parser_of_stops hx).map (Element.atom atom)

include hq

/-- An element is read from cut texts when atoms are, where no repetition is left. -/
theorem Element.cut_parserOf (nesting : Nesting) :
    Cut y (Stops repetitionSigns.contains) (parserOf p nesting) (parserOf q nesting) := by
  have hangle : ∀ {s rest : List Char} {element : Element},
      repeatedParser q s = .read element rest → s.head? ≠ some '<' := by
    intro s rest element hread
    obtain ⟨atom, mid, hatom, -⟩ := bind_eq_read.mp hread
    obtain ⟨c, t, rfl, -, hangle⟩ := (hq.starts hatom).eq_cons
    simpa using hangle
  refine Element.cut_closingParser.orElse
    ((Element.cut_openingParser nesting).orElse (Element.cut_repeatedParser h) ?_) ?_
  · intro t element x _ hread _
    exact Element.opensWith_openingParser.miss (hangle hread)
  · intro t element x _ hread _
    rcases orElse_eq_read.mp hread with hopening | ⟨-, hrepeated⟩
    · exact Element.closingParser_of_opening hopening
    · exact Element.opensWith_closingParser.miss (hangle hrepeated)

/-- A chain is read from cut texts when atoms are. -/
theorem Chain.cut_parserOf (nesting : Nesting) :
    Cut y (Ahead chainEnds) (parserOf p nesting) (parserOf q nesting) := by
  refine cut_bang.seq fun negated => Cut.map (Chain.mk negated)
    ((Element.cut_parserOf h hq nesting).afterBlanks.many1 ?_ ?_)
  · intro t element x hread _
    obtain ⟨c, u, ht, hc⟩ := Element.eq_cons_of_read hq hread
    refine stops_of_dropWhile ?_ (by decide)
    rw [ht, stops_cons, List.contains_eq_mem, decide_eq_false_iff_not]
    intro hmem
    have hother : beginsElement c = false := eq_false_of_any hmem (by decide)
    simp [hc] at hother
  · intro x hx
    exact ⟨hx.stops (by decide) (by decide), Element.parserOf_of_ends hx (hq.miss hx)⟩

/-- A sequence is read from cut texts when atoms are. -/
theorem Sequence.cut_parserOf (nesting : Nesting) :
    Cut y (Ahead sequenceEnds) (parserOf p nesting) (parserOf q nesting) :=
  Cut.map Sequence.mk <| Cut.sepBy1 (cut_char '|').spaced (Chain.cut_parserOf h hq nesting)
    (fun _ _ _ hbar => (ahead_of_spaced hbar).mono (by decide))
    fun _ hx => ⟨hx.mono (by decide), hx.spaced_char (by decide)⟩

end

/-! ## Scopes and blocks -/

theorem blockKeyword_opensWith : OpensWith ['w', 'c'] blockKeyword :=
  ((opensWith_keyword 'w' rfl).map _).orElse ((opensWith_keyword 'c' rfl).map _)

/-- What is known of a reader of sequences: how its sequences begin. -/
def ReadsSequences (q : Parser Sequence) : Prop :=
  ∀ {s rest : List Char} {sequence : Sequence}, q s = .read sequence rest → Stops isBlank s →
    (rest.dropWhile isBlank).head? ≠ some ':' → StartsChain s

/-- Neither of the other scopes stands where a blank does. -/
theorem Scope.others_of_blank (q : Parser Sequence) {c : Char} (hc : isBlank c = true)
    (s : List Char) : numberParser (c :: s) = .miss ∧ alignedParser q (c :: s) = .miss := by
  have hsign : c.isDigit = false ∧ c ≠ '!' ∧ isNameStart c = false := by
    rcases isBlank_cases hc with rfl | rfl | rfl | rfl <;> decide
  have hbang : bang (c :: s) = .read false (c :: s) :=
    bang_eq_read.mpr (.inr ⟨rfl, by simpa using hsign.2.1, rfl⟩)
  refine ⟨bind_of_miss (number_of_stops (stops_cons.mpr hsign.1)) _, ?_⟩
  rw [Scope.alignedParser, bind_of_read hbang]
  exact bind_of_miss (name_of_stops (stops_cons.mpr hsign.2.2)) _

/-- Where a sequence stands, neither of the other scopes does. -/
theorem Scope.others_of_sequence {q : Parser Sequence} (hq : ReadsSequences q)
    {s rest : List Char} {sequence : Sequence} (h : q s = .read sequence rest)
    (hcolon : (rest.dropWhile isBlank).head? ≠ some ':') :
    numberParser s = .miss ∧ alignedParser q s = .miss := by
  by_cases hblank : Stops isBlank s
  · have hstarts := hq h hblank hcolon
    exact ⟨hstarts.numberParser, hstarts.alignedParser⟩
  · cases s with
    | nil => exact absurd (stops_nil isBlank) hblank
    | cons c t =>
      rw [stops_cons, Bool.not_eq_false] at hblank
      exact Scope.others_of_blank q hblank t

/-- A scope in an aligned corpus is no number. -/
theorem Scope.numberParser_of_aligned {q : Parser Sequence} {s rest : List Char} {scope : Scope}
    (h : alignedParser q s = .read scope rest) : numberParser s = .miss := by
  obtain ⟨negated, t, hbang, hcorpus⟩ := bind_eq_read.mp h
  refine bind_of_miss (number_of_stops ?_) _
  rcases bang_eq_read.mp hbang with ⟨-, u, rfl, -⟩ | ⟨-, -, rfl⟩
  · exact stops_cons.mpr rfl
  · obtain ⟨corpus, mid, hname, -⟩ := bind_eq_read.mp hcorpus
    obtain ⟨c, cs, -, hc, -, -, rfl⟩ := name_eq_read.mp hname
    exact stops_cons.mpr (isDigit_of_isNameStart hc)

/-- A block begins with its sign or its word. -/
theorem Block.ends_of_read {q : Parser Sequence} {s rest : List Char} {block : Block}
    (h : parserOf q s = .read block rest) :
    ∃ negated t, bang s = .read negated t ∧ Ends ['w', 'c'] t := by
  obtain ⟨negated, t, hbang, hblock⟩ := bind_eq_read.mp h
  obtain ⟨kind, mid, hkind, -⟩ := bind_eq_read.mp hblock
  exact ⟨negated, t, hbang, blockKeyword_opensWith.ends hkind⟩

theorem Block.ahead_of_read {q : Parser Sequence} {s rest : List Char} {block : Block}
    (h : afterBlanks (parserOf q) s = .read block rest) : Ahead ['!', 'w', 'c'] s := by
  obtain ⟨negated, t, hbang, ht⟩ := Block.ends_of_read h
  rcases bang_eq_read.mp hbang with ⟨-, u, hs, -⟩ | ⟨-, -, hs⟩
  · rw [Ahead, hs]
    exact ends_cons.mpr (by decide)
  · rw [Ahead, hs]
    exact ht.mono (by decide)

section

variable {p q : Parser Sequence} (h : Cut y (Ahead sequenceEnds) p q) (hq : ReadsSequences q)

include h hq

/-- A scope is read from cut texts when sequences are. -/
theorem Scope.cut_parserOf : Cut y (Ahead sequenceEnds) (parserOf p) (parserOf q) := by
  have hnumber : Cut y (Ahead sequenceEnds) numberParser numberParser :=
    cut_number.seq fun n => (cut_absent fun x hmiss _ => fades_char ':' x hmiss).map
      fun _ => Scope.number n
  have haligned : Cut y (Ahead sequenceEnds) (alignedParser p) (alignedParser q) :=
    cut_bang.seq fun negated => cut_name.seq fun corpus => (cut_char ':').spaced.seq fun _ =>
      h.map (Scope.aligned negated corpus)
  refine hnumber.orElse (haligned.orElse (h.map Scope.sequence) ?_) ?_
  · intro t scope x _ hread hx
    obtain ⟨sequence, -, hsequence⟩ := map_eq_read.mp hread
    exact (Scope.others_of_sequence hq hsequence (Ends.head?_ne hx (by decide))).2
  · intro t scope x _ hread hx
    rcases orElse_eq_read.mp hread with haligned | ⟨-, hsequence⟩
    · exact Scope.numberParser_of_aligned haligned
    · obtain ⟨sequence, -, hsequence⟩ := map_eq_read.mp hsequence
      exact (Scope.others_of_sequence hq hsequence (Ends.head?_ne hx (by decide))).1

/-- Blocks are read from cut texts when sequences are. -/
theorem Block.cut_many :
    Cut y (Ahead [')']) (many (afterBlanks (parserOf p))) (many (afterBlanks (parserOf q))) := by
  have hkeyword : Cut y Anything blockKeyword blockKeyword :=
    ((cut_keyword "within").map _).orElse_of_opensWith ((cut_keyword "containing").map _)
      ((opensWith_keyword 'w' rfl).map _) ((opensWith_keyword 'c' rfl).map _) (by decide)
  have hblock : Cut y (Ahead sequenceEnds) (parserOf p) (parserOf q) :=
    cut_bang.seq fun negated => hkeyword.seq fun kind =>
      (Scope.cut_parserOf h hq).afterBlanks.map (Block.mk negated kind)
  refine hblock.afterBlanks.many ?_ ?_
  · intro t block x hread _
    exact (Block.ahead_of_read hread).mono (by decide)
  · intro x hx
    exact ⟨hx.mono (by decide), Block.parserOf_of_ends hx⟩

end

/-! ## Groups -/

theorem Atom.starts_of_read {s rest : List Char} {atom : Atom}
    (h : parser nesting s = .read atom rest) : StartsAtom rest s := by
  rw [Atom.parser, recursive_eq, Atom.parserOf, orElse_eq_read] at h
  rcases h with hposition | ⟨-, hgroup⟩
  · obtain ⟨position, -, hread⟩ := map_eq_read.mp hposition
    exact Position.starts_of_read hread
  · obtain ⟨_, _, _, _, hopen, -, -⟩ := between_eq_read.mp hgroup
    obtain ⟨_, t, hsign, -⟩ := bind_eq_read.mp hopen
    obtain ⟨-, rfl⟩ := char_eq_read.mp hsign
    exact .inl ⟨'(', t, rfl, by decide⟩

/-- A part of the grammar of atoms reads atoms. -/
theorem readsAtoms_of_partly {q : Parser Atom} (h : Partly q (Atom.parser nesting)) :
    ReadsAtoms q where
  starts hread := Atom.starts_of_read (h.read hread)
  miss hs := h.miss (Atom.parser_of_ends hs)

theorem ReadsAtoms.sequences {q : Parser Atom} (hq : ReadsAtoms q) (nesting : Nesting) :
    ReadsSequences (Sequence.parserOf q nesting) :=
  fun hread hblank hcolon => Sequence.starts_of_read hq hread hblank hcolon

/-- Blocks stand where a sequence may end. -/
theorem Block.ahead_of_many {q : Parser Sequence} {s rest : List Char} {blocks : List Block}
    (h : many (afterBlanks (parserOf q)) s = .read blocks rest) (hrest : Ahead [')'] rest) :
    Ahead [')', '!', 'w', 'c'] s := by
  refine of_many ?_ h (hrest.mono (by decide))
  intro t block x hread _
  exact (Block.ahead_of_read hread).mono (by decide)

/-- No token stands where a group does. -/
theorem Position.parser_of_group {q : Nesting → Parser Atom}
    (hq : ∀ nesting, ReadsAtoms (q nesting)) {s rest : List Char} {atom : Atom}
    (h : Atom.groupParserOf q nesting s = .read atom rest) : parser nesting s = .miss := by
  obtain ⟨_, inside, _, after, hopen, hnested, hclose⟩ := between_eq_read.mp h
  obtain ⟨_, t, hsign, hblanks⟩ := bind_eq_read.mp hopen
  obtain ⟨-, rfl⟩ := char_eq_read.mp hsign
  obtain rfl : t.dropWhile isBlank = inside := by simpa using hblanks
  obtain ⟨hfull, hgroup⟩ := nested_eq_read.mp hnested
  obtain ⟨sequence, mid, hsequence, hmore⟩ := bind_eq_read.mp hgroup
  obtain ⟨blocks, last, hblocks, hlast⟩ := bind_eq_read.mp hmore
  obtain ⟨-, rfl⟩ := pure_eq_read.mp hlast
  have hmid := Block.ahead_of_many hblocks (ahead_of_afterBlanks hclose)
  exact Position.parser_of_open hfull <| Sequence.starts_of_read (hq _) hsequence
    (stops_dropWhile isBlank t) (Ends.head?_ne hmid (by decide))

/-- An atom is read from cut texts when the atoms nested in it are. -/
theorem Atom.cut_parserOf {p q : Nesting → Parser Atom}
    (h : ∀ nesting, Cut y Anything (p nesting) (q nesting))
    (hq : ∀ nesting, ReadsAtoms (q nesting)) (nesting : Nesting) :
    Cut y Anything (parserOf p nesting) (parserOf q nesting) := by
  have hgroup : Cut y Anything (groupParserOf p nesting) (groupParserOf q nesting) := by
    refine Cut.bracketed (Cut.nested (fun deeper => ?_) nesting)
    have hsequence := Sequence.cut_parserOf (h deeper) (hq deeper) deeper
    refine hsequence.bind (fun sequence =>
      (Block.cut_many hsequence ((hq deeper).sequences deeper)).map (Atom.group sequence)) ?_
    intro sequence u atom x hread hx
    obtain ⟨blocks, -, hblocks⟩ := map_eq_read.mp hread
    exact (Block.ahead_of_many hblocks hx).mono (by decide)
  refine ((Position.parser_cut nesting).map Atom.position).orElse hgroup ?_
  intro t atom x _ hread _
  exact map_eq_miss.mpr (Position.parser_of_group hq hread)

theorem Atom.parser_cut (nesting : Nesting) :
    Cut y Anything (parser nesting) (parser nesting) :=
  cut_recursive (fun _ _ h hq => Atom.cut_parserOf h fun deeper => readsAtoms_of_partly (hq deeper))
    nesting

theorem Atom.readsAtoms (nesting : Nesting) : ReadsAtoms (parser nesting) :=
  readsAtoms_of_partly fun _ => .inl rfl

theorem Sequence.parser_cut (nesting : Nesting) :
    Cut y (Ahead sequenceEnds) (parser nesting) (parser nesting) :=
  Sequence.cut_parserOf (Atom.parser_cut nesting) (Atom.readsAtoms nesting) nesting

end CorpusCost
