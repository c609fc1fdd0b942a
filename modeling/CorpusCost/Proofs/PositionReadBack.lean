import CorpusCost.Proofs.ConditionReadBack
import CorpusCost.Query.Parser
import CorpusCost.Query.Printer

/-!
# Tokens read back

Positions are restored with their expressions fused. What they begin with tells them from all that
may stand in their place: from structures and blocks, from the keywords of a pairing, from a number
that is a scope, and from the name of an aligned corpus, which a colon follows.
-/

set_option autoImplicit false

namespace CorpusCost

open CorpusCost.Parser
open Text (natural integer)

/-! ## Beginnings -/

/-- A text begins with one of `signs`, with a label, or with the word `mu`, which is neither
continued nor followed by a colon. -/
def Starts (signs : List Char) (s : List Char) : Prop :=
  (∃ c t, s = c :: t ∧ c ∈ signs) ∨ (∃ n t, number s = .read n (':' :: t)) ∨
    ∃ t, s = 'm' :: 'u' :: t ∧ Stops isNameChar t ∧ (t.dropWhile isBlank).head? ≠ some ':'

/-- The signs a token begins with. -/
def tokenSigns : List Char := ['[', '~', '(', '"']

/-- The signs an element begins with. -/
def elementSigns : List Char := '<' :: tokenSigns

theorem Starts.element {s : List Char} (h : Starts tokenSigns s) : Starts elementSigns s := by
  rcases h with ⟨c, t, rfl, hc⟩ | hlabel | hmu
  · exact .inl ⟨c, t, rfl, List.mem_cons_of_mem _ hc⟩
  · exact .inr (.inl hlabel)
  · exact .inr (.inr hmu)

/-- The first character of an element. -/
theorem Starts.eq_cons {s : List Char} (h : Starts elementSigns s) :
    ∃ c t, s = c :: t ∧ (c ∈ elementSigns ∨ c.isDigit = true ∨ c = 'm') := by
  rcases h with ⟨c, t, rfl, hc⟩ | ⟨n, t, hn⟩ | ⟨t, rfl, -, -⟩
  · exact ⟨c, t, rfl, .inl hc⟩
  · obtain ⟨d, u, rfl, hd⟩ := number_eq_cons hn
    exact ⟨d, u, rfl, .inr (.inl hd)⟩
  · exact ⟨'m', 'u' :: t, rfl, .inr (.inr rfl)⟩

/-- An element begins with no character that is neither a sign, a digit nor an `m`. -/
theorem Starts.stops {s : List Char} (h : Starts elementSigns s) {test : Char → Bool}
    (hsigns : ('m' :: elementSigns).any test = false)
    (hdigit : ∀ c, c.isDigit = true → test c = false) : Stops test s := by
  obtain ⟨c, t, rfl, hc | hc | rfl⟩ := h.eq_cons
  · exact stops_cons.mpr (eq_false_of_any (List.mem_cons_of_mem _ hc) hsigns)
  · exact stops_cons.mpr (hdigit c hc)
  · exact stops_cons.mpr (eq_false_of_any List.mem_cons_self hsigns)

theorem Starts.stops_isBlank {s : List Char} (h : Starts elementSigns s) : Stops isBlank s :=
  h.stops (by decide) fun _ hc => isBlank_of_isNameChar (isNameChar_of_isDigit hc)

theorem Starts.head?_ne {s : List Char} (h : Starts elementSigns s) {d : Char}
    (hsigns : d ∉ 'm' :: elementSigns) (hdigit : d.isDigit = false) : s.head? ≠ some d := by
  obtain ⟨c, t, rfl, hc⟩ := h.eq_cons
  intro hhead
  obtain rfl : c = d := by simpa using hhead
  rcases hc with hc | hc | rfl
  · exact hsigns (List.mem_cons_of_mem _ hc)
  · rw [hc] at hdigit
    simp at hdigit
  · exact hsigns List.mem_cons_self

/-- Neither keyword of a pairing stands where an element begins. -/
theorem Starts.keyword_pairing {s : List Char} (h : Starts elementSigns s) :
    keyword "meet" s = .miss ∧ keyword "union" s = .miss := by
  refine ⟨?_, (opensWith_keyword 'u' rfl).miss (h.head?_ne (by decide) (by decide))⟩
  rcases h with ⟨c, t, rfl, hc⟩ | ⟨n, t, hn⟩ | ⟨t, rfl, -, -⟩
  · refine (opensWith_keyword 'm' rfl).miss ?_
    intro hhead
    obtain rfl : c = 'm' := by simpa using hhead
    simp [elementSigns, tokenSigns] at hc
  · obtain ⟨d, u, rfl, hd⟩ := number_eq_cons hn
    refine (opensWith_keyword 'm' rfl).miss ?_
    intro hhead
    obtain rfl : d = 'm' := by simpa using hhead
    simp at hd
  · refine keyword_of_not_isPrefix ?_
    simp

/-! ## Pairings -/

/-- How a position is written and comes back. -/
def Position.form : Form Position where
  written := Position.written
  renewed := Position.mapRegexes Regex.fused
  Begins := Starts tokenSigns
  Follows t := Stops isNameChar t ∧ (t.dropWhile isBlank).head? ≠ some ':'

/-- What may follow a token. -/
def EndsToken (s : List Char) : Prop :=
  Stops isNameChar s ∧ (s.dropWhile isBlank).head? ≠ some ':'

theorem Position.readBack {p : Parser Position} {again : Nat → Parser Position}
    (h : Restores p again Position.form) {s rest rest' : List Char} {position : Position}
    (hread : p s = .read position rest) (hfollows : EndsToken rest') :
    Starts tokenSigns (position.written ++ rest') ∧
      ∀ n, (position.written ++ rest').length < n →
        again n (position.written ++ rest') =
          .read (position.mapRegexes Regex.fused) rest' :=
  h s position rest hread rest' hfollows

/-- A position may follow another one behind a blank. -/
theorem Starts.endsToken {s : List Char} (h : Starts elementSigns s) : EndsToken (' ' :: s) := by
  refine ⟨stops_cons.mpr rfl, ?_⟩
  rw [dropWhile_space, dropWhile_of_stops h.stops_isBlank]
  exact h.head?_ne (by decide) (by decide)

/-- The window of distances of a meeting. -/
def windowParser : Parser (Int × Int) := do
  let first ← spaced signed
  let last ← signed
  pure (first, last)

theorem stops_isBlank_integer (z : Int) (rest : List Char) :
    Stops isBlank (integer z ++ rest) := by
  cases z with
  | ofNat n => exact stops_isBlank_natural n rest
  | negSucc n => exact stops_cons.mpr rfl

/-- The window of a meeting is read back before a closing bracket. -/
theorem window_readBack {s rest : List Char} {window : Option (Int × Int)}
    (h : optional windowParser s = .read window rest) (rest' : List Char) :
    EndsToken (windowText window ++ ')' :: rest') ∧
      optional windowParser (windowText window ++ ')' :: rest') = .read window (')' :: rest') := by
  rcases optional_eq_read.mp h with ⟨_, rfl, hwindow⟩ | ⟨rfl, -, -⟩
  · rw [windowParser] at hwindow
    simp only [bind_eq_read, pure_eq_read, spaced_eq_read] at hwindow
    obtain ⟨first, _, ⟨_, hfirst, -⟩, last, _, hlast, rfl, -⟩ := hwindow
    have hwritten : windowText (some (first, last)) ++ ')' :: rest' =
        ' ' :: (integer first ++ ' ' :: (integer last ++ ')' :: rest')) := by
      simp [windowText]
    have hblank := stops_isBlank_integer first (' ' :: (integer last ++ ')' :: rest'))
    rw [hwritten]
    refine ⟨⟨stops_cons.mpr rfl, ?_⟩, optional_eq_read.mpr (.inl ⟨_, rfl, ?_⟩)⟩
    · rw [dropWhile_space, dropWhile_of_stops hblank]
      cases first with
      | ofNat n =>
        obtain ⟨d, ds, hn, hd⟩ := natural_eq_cons n
        rw [integer, hn]
        intro hhead
        obtain rfl : d = ':' := by simpa using hhead
        simp at hd
      | negSucc n => simp [integer]
    · rw [windowParser]
      simp only [bind_eq_read, spaced_eq_read]
      refine ⟨first, integer last ++ ')' :: rest',
        ⟨' ' :: (integer last ++ ')' :: rest'), ?_, ?_⟩, last, ')' :: rest',
        signed_readBack hlast (stops_cons.mpr rfl), rfl⟩
      · rw [dropWhile_space, dropWhile_of_stops hblank]
        exact signed_readBack hfirst (stops_cons.mpr rfl)
      · rw [dropWhile_space, dropWhile_of_stops (stops_isBlank_integer last _)]
  · refine ⟨⟨stops_cons.mpr rfl, by simp [windowText, isBlank]⟩,
      optional_eq_read.mpr (.inr ⟨rfl, ?_, rfl⟩)⟩
    rw [windowParser, bind_eq_miss, spaced_eq_miss]
    exact .inl (signed_of_stops (stops_cons.mpr rfl) (ends_cons.mpr (by decide)))

theorem Pairing.parserOf_eq (position : Parser Position) (s : List Char) :
    Pairing.parserOf position s =
      ((keyword "meet" >>= fun _ => afterBlanks position >>= fun left =>
          afterBlanks position >>= fun right => optional windowParser >>= fun window =>
            pure (.meet left right window)) <|>
        (keyword "union" >>= fun _ => afterBlanks position >>= fun left =>
          afterBlanks position >>= fun right => pure (.union left right)) : Parser Pairing) s := rfl

/-- No pairing stands in the brackets of a group. -/
theorem Pairing.parserOf_of_starts {position : Parser Position} {s : List Char}
    (h : Starts elementSigns s) : Pairing.parserOf position s = .miss := by
  rw [Pairing.parserOf_eq, orElse_eq_miss, bind_eq_miss, bind_eq_miss]
  exact ⟨.inl h.keyword_pairing.1, .inl h.keyword_pairing.2⟩

/-- Two positions behind the keyword of a pairing are read back. -/
theorem positions_readBack {p : Parser Position} {again : Nat → Parser Position}
    (h : Restores p again Position.form) {s mid mid' last rest' : List Char}
    {left right : Position} (hleft : afterBlanks p s = .read left mid)
    (hright : afterBlanks p mid' = .read right last) (hrest : EndsToken rest') {n : Nat}
    (hn : (left.written ++ ' ' :: (right.written ++ rest')).length < n) :
    afterBlanks (again n) (' ' :: (left.written ++ ' ' :: (right.written ++ rest'))) =
        .read (left.mapRegexes Regex.fused) (' ' :: (right.written ++ rest')) ∧
      afterBlanks (again n) (' ' :: (right.written ++ rest')) =
        .read (right.mapRegexes Regex.fused) rest' := by
  rw [afterBlanks_apply] at hleft hright
  obtain ⟨hrightStarts, hrightBack⟩ := Position.readBack h hright hrest
  obtain ⟨hleftStarts, hleftBack⟩ :=
    Position.readBack h hleft hrightStarts.element.endsToken
  simp only [afterBlanks_apply, dropWhile_space]
  rw [dropWhile_of_stops hleftStarts.element.stops_isBlank,
    dropWhile_of_stops hrightStarts.element.stops_isBlank]
  refine ⟨hleftBack n hn, hrightBack n ?_⟩
  simp only [List.length_append, List.length_cons] at hn ⊢
  omega

/-- A pairing is read back before a closing bracket. -/
theorem Pairing.readBack {p : Parser Position} {again : Nat → Parser Position}
    (h : Restores p again Position.form) {s rest : List Char} {pairing : Pairing}
    (hread : Pairing.parserOf p s = .read pairing rest) (rest' : List Char) :
    ∃ inside, pairing.written ++ rest' = '(' :: inside ∧ Stops isBlank inside ∧
      ∀ n, inside.length < n → Pairing.parserOf (again n) inside =
        .read (pairing.mapRegexes Regex.fused) (')' :: rest') := by
  simp only [Pairing.parserOf_eq, orElse_eq_read, bind_eq_read, pure_eq_read] at hread
  rcases hread with ⟨_, _, -, left, _, hleft, right, _, hright, window, _, hwindow, rfl, -⟩ |
    ⟨-, _, _, -, left, _, hleft, right, _, hright, rfl, -⟩
  · obtain ⟨hends, hback⟩ := window_readBack hwindow rest'
    refine ⟨"meet".toList ++ ' ' :: (left.written ++ ' ' :: (right.written ++
      (windowText window ++ ')' :: rest'))), ?_, stops_cons.mpr rfl, ?_⟩
    · change "(meet ".toList ++ left.written ++ ' ' :: right.written ++ windowText window ++
        [')'] ++ rest' = _
      simp
    · intro n hn
      obtain ⟨hleftBack, hrightBack⟩ := positions_readBack (n := n) h hleft hright hends (by
        simp only [List.length_append, List.length_cons] at hn ⊢
        omega)
      simp only [Pairing.parserOf_eq, orElse_eq_read, bind_eq_read]
      exact .inl ⟨(), _, keyword_written (stops_cons.mpr rfl), _, _, hleftBack, _, _, hrightBack,
        window, _, hback, rfl⟩
  · have hends : EndsToken (')' :: rest') := ⟨stops_cons.mpr rfl, by simp [isBlank]⟩
    refine ⟨"union".toList ++ ' ' :: (left.written ++ ' ' :: (right.written ++ ')' :: rest')), ?_,
      stops_cons.mpr rfl, ?_⟩
    · change "(union ".toList ++ left.written ++ ' ' :: right.written ++ [')'] ++ rest' = _
      simp
    · intro n hn
      obtain ⟨hleftBack, hrightBack⟩ := positions_readBack (n := n) h hleft hright hends (by
        simp only [List.length_append, List.length_cons] at hn ⊢
        omega)
      simp only [Pairing.parserOf_eq, orElse_eq_read, bind_eq_read, bind_eq_miss]
      refine .inr ⟨.inl ((opensWith_keyword 'm' rfl).miss (by simp)), (), _,
        keyword_written (stops_cons.mpr rfl), _, _, hleftBack, _, _, hrightBack, rfl⟩

/-! ## Tokens -/

/-- The conditions of a token in square brackets. -/
def conditionsParser (nesting : Nesting) : Parser Token :=
  .conditions <$>
    between (do let _ ← char '['; blanks) (afterBlanks (char ']'))
      (optional (Disjunction.parser nesting))

/-- A token that is similar to the matching ones. -/
def anchoredParser (nesting : Nesting) : Parser Token := do
  let _ ← char '~'
  let n ← optional number
  let regex ← Regex.quoted nesting
  pure (.anchored n regex)

/-- A pairing in its brackets, given how to read positions. -/
def pairingParser (position : Nesting → Parser Position) (nesting : Nesting) : Parser Token :=
  .pairing <$>
    between (do let _ ← char '('; blanks) (afterBlanks (char ')'))
      (nested nesting fun deeper => Pairing.parserOf (position deeper))

theorem Token.parserOf_eq (position : Nesting → Parser Position) (nesting : Nesting)
    (s : List Char) :
    Token.parserOf position nesting s = (conditionsParser nesting <|>
      (anchoredParser nesting <|> (pairingParser position nesting <|>
        ((fun _ => .mu) <$> keyword "mu" <|> .word <$> Regex.quoted nesting))) :
          Parser Token) s := rfl

theorem opensWith_conditionsParser {nesting : Nesting} :
    OpensWith ['['] (conditionsParser nesting) :=
  (((opensWith_char '[').bind _).between _ _).map _

theorem opensWith_anchoredParser {nesting : Nesting} : OpensWith ['~'] (anchoredParser nesting) :=
  (opensWith_char '~').bind _

theorem opensWith_pairingParser {position : Nesting → Parser Position} {nesting : Nesting} :
    OpensWith ['('] (pairingParser position nesting) :=
  (((opensWith_char '(').bind _).between _ _).map _

/-- The conditions of a token are read back. -/
theorem conditionsParser_readBack {nesting : Nesting} {s rest : List Char} {token : Token}
    (h : conditionsParser nesting s = .read token rest) (rest' : List Char) :
    (∃ t, token.written ++ rest' = '[' :: t) ∧
      conditionsParser nesting (token.written ++ rest') =
        .read (token.mapRegexes Regex.fused) rest' := by
  obtain ⟨alternatives, rfl, hbrackets⟩ := map_eq_read.mp h
  obtain ⟨_, inside, _, after, _, hinside, _⟩ := between_eq_read.mp hbrackets
  rcases optional_eq_read.mp hinside with ⟨d, rfl, hd⟩ | ⟨rfl, -, -⟩
  · obtain ⟨hblank, hback⟩ := Disjunction.parser_readBack hd
      (show Ends [')', ']', '>', '/'] (']' :: rest') from ends_cons.mpr (by decide))
    have hwritten : (Token.conditions (some d)).written ++ rest' =
        '[' :: (Disjunction.written d ++ ']' :: rest') := by
      change '[' :: Disjunction.written d ++ [']'] ++ rest' = _
      simp
    rw [hwritten]
    refine ⟨⟨_, rfl⟩, map_eq_read.mpr ⟨some (Disjunction.mapRegexes Regex.fused d), rfl,
      between_eq_read.mpr ⟨(), _, ']', ']' :: rest', open_written hblank, ?_,
        afterBlanks_char rfl rest'⟩⟩⟩
    exact optional_eq_read.mpr (.inl ⟨_, rfl, hback⟩)
  · have hmiss : Disjunction.parser nesting (']' :: rest') = .miss :=
      Disjunction.parser_of_ends (ends_cons.mpr (by decide))
    refine ⟨⟨']' :: rest', rfl⟩, map_eq_read.mpr ⟨none, rfl, between_eq_read.mpr ⟨(),
      ']' :: rest', ']', ']' :: rest', open_written (stops_cons.mpr rfl), ?_,
        afterBlanks_char rfl rest'⟩⟩⟩
    exact optional_eq_read.mpr (.inr ⟨rfl, hmiss, rfl⟩)

/-- An anchored token is read back, whatever follows its closing quote. -/
theorem anchoredParser_readBack {nesting : Nesting} {s rest : List Char} {token : Token}
    (h : anchoredParser nesting s = .read token rest) (rest' : List Char) :
    (∃ t, token.written ++ rest' = '~' :: t) ∧
      anchoredParser nesting (token.written ++ rest') =
        .read (token.mapRegexes Regex.fused) rest' := by
  rw [anchoredParser] at h ⊢
  simp only [bind_eq_read, pure_eq_read] at h
  obtain ⟨_, _, -, number, _, hnumber, regex, _, hregex, rfl, -⟩ := h
  have hquote : Stops Char.isDigit (regex.quotedText ++ rest') := stops_cons.mpr rfl
  have hback := optional_number_readBack hnumber hquote
  have hwritten : (Token.anchored number regex).written ++ rest' =
      '~' :: ((number.map natural).getD [] ++ (regex.quotedText ++ rest')) := by
    cases number with
    | none => rfl
    | some n =>
      change '~' :: natural n ++ regex.quotedText ++ rest' = _
      simp
  rw [hwritten]
  refine ⟨⟨_, rfl⟩, ?_⟩
  simp only [bind_eq_read]
  exact ⟨'~', _, char_cons _ _, number, _, hback, regex.fused, rest',
    Regex.quoted_readBack hregex rest', rfl⟩

section

variable {p : Nesting → Parser Position} {again : Nat → Nesting → Parser Position}
  (h : ∀ nesting, Restores (p nesting) (fun n => again n nesting) Position.form)

include h

/-- A pairing in its brackets is read back. -/
theorem pairingParser_readBack {nesting : Nesting} {s rest : List Char} {token : Token}
    (hread : pairingParser p nesting s = .read token rest) (rest' : List Char) :
    (∃ t, token.written ++ rest' = '(' :: t) ∧
      ∀ n, (token.written ++ rest').length ≤ n →
        pairingParser (again n) nesting (token.written ++ rest') =
          .read (token.mapRegexes Regex.fused) rest' := by
  obtain ⟨pairing, rfl, hbrackets⟩ := map_eq_read.mp hread
  obtain ⟨_, inside, _, after, _, hinside, _⟩ := between_eq_read.mp hbrackets
  obtain ⟨hfull, hinside⟩ := nested_eq_read.mp hinside
  obtain ⟨text, htext, hblank, hback⟩ := Pairing.readBack (h nesting.deeper) hinside rest'
  change (Token.pairing pairing).written ++ rest' = '(' :: text at htext
  rw [htext]
  refine ⟨⟨_, rfl⟩, ?_⟩
  intro n hn
  rw [List.length_cons] at hn
  exact map_eq_read.mpr ⟨pairing.mapRegexes Regex.fused, rfl, between_eq_read.mpr ⟨(), text, ')',
    ')' :: rest', open_written hblank, nested_eq_read.mpr ⟨hfull, hback n hn⟩,
    afterBlanks_char rfl rest'⟩⟩

/-- A token is read back when the positions nested in it are restored. It begins with a sign or is
the word `mu`. -/
theorem Token.readBack {nesting : Nesting} {s rest rest' : List Char} {token : Token}
    (hread : Token.parserOf p nesting s = .read token rest) (hfollows : EndsToken rest') :
    ((∃ c t, token.written ++ rest' = c :: t ∧ c ∈ tokenSigns) ∨
        token.written ++ rest' = 'm' :: 'u' :: rest') ∧
      ∀ n, (token.written ++ rest').length ≤ n →
        Token.parserOf (again n) nesting (token.written ++ rest') =
          .read (token.mapRegexes Regex.fused) rest' := by
  simp only [Token.parserOf_eq, orElse_eq_read] at hread ⊢
  rcases hread with hconditions | ⟨-, hanchored | ⟨-, hpairing | ⟨-, hmu | ⟨-, hword⟩⟩⟩⟩
  · obtain ⟨⟨t, ht⟩, hback⟩ := conditionsParser_readBack hconditions rest'
    exact ⟨.inl ⟨'[', t, ht, by decide⟩, fun n _ => .inl hback⟩
  · obtain ⟨⟨t, ht⟩, hback⟩ := anchoredParser_readBack hanchored rest'
    refine ⟨.inl ⟨'~', t, ht, by decide⟩, fun n _ => .inr ⟨?_, .inl hback⟩⟩
    rw [ht]
    exact opensWith_conditionsParser.miss (by simp)
  · obtain ⟨⟨t, ht⟩, hback⟩ := pairingParser_readBack h hpairing rest'
    refine ⟨.inl ⟨'(', t, ht, by decide⟩, fun n hn => .inr ⟨?_, .inr ⟨?_, .inl (hback n hn)⟩⟩⟩
    · rw [ht]
      exact opensWith_conditionsParser.miss (by simp)
    · rw [ht]
      exact opensWith_anchoredParser.miss (by simp)
  · obtain ⟨_, rfl, -⟩ := map_eq_read.mp hmu
    have hwritten : Token.mu.written ++ rest' = 'm' :: 'u' :: rest' := rfl
    rw [hwritten]
    refine ⟨.inr rfl, fun n _ => .inr ⟨opensWith_conditionsParser.miss (by simp),
      .inr ⟨opensWith_anchoredParser.miss (by simp), .inr ⟨opensWith_pairingParser.miss (by simp),
        .inl ?_⟩⟩⟩⟩
    exact map_eq_read.mpr ⟨(), rfl, keyword_eq_read.mpr ⟨rfl, hfollows.1⟩⟩
  · obtain ⟨regex, rfl, hregex⟩ := map_eq_read.mp hword
    have hwritten : (Token.word regex).written ++ rest' =
        '"' :: (regex.written ++ '"' :: rest') := by
      change '"' :: regex.written ++ ['"'] ++ rest' = _
      simp
    refine ⟨.inl ⟨'"', _, hwritten, by decide⟩, fun n _ => .inr ⟨?_, .inr ⟨?_, .inr ⟨?_, .inr
      ⟨?_, ?_⟩⟩⟩⟩⟩
    · rw [hwritten]
      exact opensWith_conditionsParser.miss (by simp)
    · rw [hwritten]
      exact opensWith_anchoredParser.miss (by simp)
    · rw [hwritten]
      exact opensWith_pairingParser.miss (by simp)
    · rw [hwritten, map_eq_miss]
      exact (opensWith_keyword 'm' rfl).miss (by simp)
    · exact map_eq_read.mpr ⟨regex.fused, rfl, Regex.quoted_readBack hregex rest'⟩

/-- A position is restored when the positions nested in it are. -/
theorem Position.parserOf_restores (nesting : Nesting) :
    Restores (Position.parserOf p nesting) (fun n => Position.parserOf (again (n - 1)) nesting)
      Position.form := by
  intro s position rest hread rest' hfollows
  change Starts tokenSigns (position.written ++ rest') ∧ ∀ n,
    (position.written ++ rest').length < n →
      Position.parserOf (again (n - 1)) nesting (position.written ++ rest') =
        .read (position.mapRegexes Regex.fused) rest'
  rw [Position.parserOf] at hread
  rcases orElse_eq_read.mp hread with hlabelled | ⟨-, hplain⟩
  · simp only [bind_eq_read, pure_eq_read] at hlabelled
    obtain ⟨label, _, hlabel, _, _, -, token, _, htoken, rfl, -⟩ := hlabelled
    obtain ⟨-, hback⟩ := Token.readBack h htoken hfollows
    have hwritten : (Position.mk (some label) token).written ++ rest' =
        natural label ++ ':' :: (token.written ++ rest') := by
      change natural label ++ ':' :: token.written ++ rest' = _
      simp
    rw [hwritten]
    refine ⟨.inr (.inl ⟨label, _, number_readBack hlabel (stops_cons.mpr rfl)⟩), ?_⟩
    intro n hn
    rw [Position.parserOf, orElse_eq_read]
    simp only [bind_eq_read]
    refine .inl ⟨label, _, number_readBack hlabel (stops_cons.mpr rfl), ':', _, char_cons _ _,
      token.mapRegexes Regex.fused, rest', hback (n - 1) ?_, rfl⟩
    simp only [List.length_append, List.length_cons] at hn ⊢
    omega
  · simp only [bind_eq_read, pure_eq_read] at hplain
    obtain ⟨token, _, htoken, rfl, -⟩ := hplain
    obtain ⟨hsign, hback⟩ := Token.readBack h htoken hfollows
    change Starts tokenSigns (token.written ++ rest') ∧ ∀ n,
      (token.written ++ rest').length < n →
        Position.parserOf (again (n - 1)) nesting (token.written ++ rest') =
          .read ⟨none, token.mapRegexes Regex.fused⟩ rest'
    have hdigit : Stops Char.isDigit (token.written ++ rest') := by
      rcases hsign with ⟨c, t, ht, hc⟩ | ht
      · rw [ht, stops_cons]
        exact eq_false_of_any hc (by decide)
      · rw [ht]
        exact stops_cons.mpr rfl
    refine ⟨?_, ?_⟩
    · rcases hsign with hsign | ht
      · exact .inl hsign
      · rw [ht]
        exact .inr (.inr ⟨rest', rfl, hfollows.1, hfollows.2⟩)
    · intro n hn
      rw [Position.parserOf, orElse_eq_read]
      simp only [bind_eq_read, bind_eq_miss]
      exact .inr ⟨.inl (number_of_stops hdigit), token.mapRegexes Regex.fused, rest',
        hback (n - 1) (by omega), rfl⟩

end

/-- Positions are restored. -/
theorem Position.restores (nesting : Nesting) :
    Restores (Position.parser nesting) (fun _ => Position.parser nesting) Position.form := by
  refine restores_recursive (fun _ => False) (fun _ _ _ hs => hs.elim) ?_ nesting
  intro p again h _ deeper
  exact Position.parserOf_restores h deeper

end CorpusCost
