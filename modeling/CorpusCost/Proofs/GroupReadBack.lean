import CorpusCost.Proofs.ChainReadBack

/-!
# Blocks and groups read back

A scope is a number, a sequence in an aligned corpus, or a sequence, in this order: a sequence is
told from the other two by what it begins with. A group is told from a pairing the same way. With
groups restored, the grammar of atoms closes.
-/

set_option autoImplicit false

namespace CorpusCost

open CorpusCost.Parser
open Text (natural)

/-! ## Scopes -/

/-- A number as a scope, which no colon follows. -/
def Scope.numberParser : Parser Scope := do
  let n ← Parser.number
  absent (char ':')
  pure (.number n)

/-- A scope in an aligned corpus, given how to read a sequence. -/
def Scope.alignedParser (sequence : Parser Sequence) : Parser Scope := do
  let negated ← bang
  let corpus ← name
  let _ ← spaced (char ':')
  let sequence ← sequence
  pure (.aligned negated corpus sequence)

theorem Scope.parserOf_eq (sequence : Parser Sequence) (s : List Char) :
    Scope.parserOf sequence s = (Scope.numberParser <|>
      (Scope.alignedParser sequence <|> .sequence <$> sequence) : Parser Scope) s := rfl

/-- A sequence does not begin with a number that is a scope: a colon follows its label. -/
theorem StartsChain.numberParser {s : List Char} (h : StartsChain s) :
    Scope.numberParser s = .miss := by
  have hstops : Stops Char.isDigit s → Scope.numberParser s = .miss := by
    intro hs
    rw [Scope.numberParser, bind_eq_miss]
    exact .inl (number_of_stops hs)
  rcases h.cases with ⟨t, rfl⟩ | ⟨c, t, rfl, hc⟩ | ⟨n, t, hn⟩ | ⟨t, rfl, -, -⟩
  · exact hstops (stops_cons.mpr rfl)
  · exact hstops (stops_cons.mpr (eq_false_of_any hc (by decide)))
  · rw [Scope.numberParser, bind_eq_miss]
    refine .inr ⟨n, ':' :: t, hn, ?_⟩
    exact bind_eq_miss.mpr (.inl (absent_eq_miss.mpr ⟨':', t, char_cons _ _⟩))
  · exact hstops (stops_cons.mpr rfl)

/-- A sequence does not begin with the name of a corpus and a colon. -/
theorem StartsChain.alignedParser {sequence : Parser Sequence} {s : List Char}
    (h : StartsChain s) : Scope.alignedParser sequence s = .miss := by
  obtain ⟨negated, t, hbang, hstarts⟩ := h
  rw [Scope.alignedParser, bind_of_read hbang]
  rcases hstarts with ⟨c, t, rfl, hc⟩ | ⟨n, t, hn⟩ | ⟨t, rfl, hstop, hcolon⟩
  · have hstart : isNameStart c = false := eq_false_of_any hc (by decide)
    exact bind_of_miss (name_of_stops (stops_cons.mpr hstart)) _
  · obtain ⟨d, u, rfl, hd⟩ := number_eq_cons hn
    exact bind_of_miss (name_of_stops (stops_cons.mpr (isNameStart_of_isDigit hd))) _
  · have hname : name ('m' :: 'u' :: t) = .read "mu" t :=
      name_eq_read.mpr ⟨'m', ['u'], rfl, rfl, List.all_eq_true.mp rfl, hstop, rfl⟩
    rw [bind_of_read hname]
    exact bind_of_miss (spaced_char_of_head?_ne hcolon) _

section

variable {s rest : List Char} {corpus : String} (h : name s = .read corpus rest) (negated : Bool)

include h

/-- The name of a corpus stands where no blank and no number does. -/
theorem Scope.numberParser_of_name (t : List Char) :
    Stops isBlank (bangText negated ++ (corpus.toList ++ ':' :: t)) ∧
      Scope.numberParser (bangText negated ++ (corpus.toList ++ ':' :: t)) = .miss := by
  refine ⟨stops_bangText (stops_isBlank_name h _) rfl, ?_⟩
  rw [Scope.numberParser, bind_eq_miss]
  exact .inl (number_of_stops
    (stops_bangText (stops_name h (fun _ => isDigit_of_isNameStart) _) rfl))

/-- A sequence is read behind the name of its corpus. -/
theorem Scope.alignedParser_of_name {p : Parser Sequence} {t rest' : List Char}
    {sequence : Sequence} (hblank : Stops isBlank t) (hsequence : p t = .read sequence rest') :
    Scope.alignedParser p (bangText negated ++ (corpus.toList ++ ':' :: t)) =
      .read (.aligned negated corpus sequence) rest' := by
  have hbang : bang (bangText negated ++ (corpus.toList ++ ':' :: t)) =
      .read negated (corpus.toList ++ ':' :: t) :=
    bang_bangText (stops_isBlank_name h _) fun _ => name_head?_ne h rfl _
  rw [Scope.alignedParser]
  simp only [bind_eq_read]
  refine ⟨negated, _, hbang, corpus, ':' :: t, name_readBack h (stops_cons.mpr rfl), ':', t,
    spaced_eq_read.mpr ⟨t, ?_, dropWhile_of_stops hblank⟩, sequence, rest', hsequence, rfl⟩
  rw [dropWhile_of_stops (stops_cons.mpr rfl), char_cons]

end

/-- How a scope is written and comes back. -/
def Scope.form : Form Scope where
  written := Scope.written
  renewed := Scope.mapRegexes Regex.fused
  Begins := Stops isBlank
  Follows := EndsBefore sequenceEnds

section

variable {p : Parser Sequence} {again : Nat → Parser Sequence} (h : Restores p again Sequence.form)

include h

/-- A scope in an aligned corpus is read back. -/
theorem Scope.alignedParser_readBack {s rest rest' : List Char} {scope : Scope}
    (hread : Scope.alignedParser p s = .read scope rest)
    (hfollows : EndsBefore sequenceEnds rest') :
    Stops isBlank (scope.written ++ rest') ∧ Scope.numberParser (scope.written ++ rest') = .miss ∧
      ∀ n, (scope.written ++ rest').length < n →
        Scope.alignedParser (again n) (scope.written ++ rest') =
          .read (scope.mapRegexes Regex.fused) rest' := by
  rw [Scope.alignedParser] at hread
  simp only [bind_eq_read, pure_eq_read] at hread
  obtain ⟨negated, _, -, corpus, _, hcorpus, _, _, -, sequence, _, hsequence, rfl, -⟩ := hread
  obtain ⟨hstarts, hback⟩ := h _ sequence _ hsequence rest' hfollows
  let text := sequence.written ++ rest'
  change StartsChain text at hstarts
  have hwritten : (Scope.aligned negated corpus sequence).written ++ rest' =
      bangText negated ++ (corpus.toList ++ ':' :: text) := by
    change bangText negated ++ corpus.toList ++ ':' :: sequence.written ++ rest' = _
    simp [text]
  obtain ⟨hblank, hnumber⟩ := Scope.numberParser_of_name hcorpus negated text
  rw [hwritten]
  refine ⟨hblank, hnumber, fun n hn => ?_⟩
  have hlt : text.length < n := by
    simp only [List.length_append, List.length_cons] at hn
    omega
  exact Scope.alignedParser_of_name hcorpus negated hstarts.stops_isBlank (hback n hlt)

/-- A scope is restored when sequences are. -/
theorem Scope.parserOf_restores :
    Restores (Scope.parserOf p) (fun n => Scope.parserOf (again n)) Scope.form := by
  intro s scope rest hread rest' hfollows
  change Stops isBlank (scope.written ++ rest') ∧ ∀ n, (scope.written ++ rest').length < n →
    Scope.parserOf (again n) (scope.written ++ rest') =
      .read (scope.mapRegexes Regex.fused) rest'
  simp only [Scope.parserOf_eq, orElse_eq_read] at hread ⊢
  rcases hread with hnumber | ⟨-, haligned | ⟨-, hsequence⟩⟩
  · rw [Scope.numberParser] at hnumber
    simp only [bind_eq_read, pure_eq_read] at hnumber
    obtain ⟨k, _, hk, _, _, _, rfl, -⟩ := hnumber
    refine ⟨stops_isBlank_natural k rest', fun n _ => .inl ?_⟩
    rw [Scope.numberParser]
    simp only [bind_eq_read]
    refine ⟨k, rest', number_readBack hk (hfollows.1.stops (by decide)), (), rest',
      absent_eq_read.mpr ⟨char_eq_miss.mpr (hfollows.1.head?_ne (by decide)), rfl⟩, rfl⟩
  · obtain ⟨hblank, hnumber, hback⟩ := Scope.alignedParser_readBack h haligned hfollows
    exact ⟨hblank, fun n hn => .inr ⟨hnumber, .inl (hback n hn)⟩⟩
  · obtain ⟨sequence, rfl, hread⟩ := map_eq_read.mp hsequence
    obtain ⟨hstarts, hback⟩ := h _ sequence _ hread rest' hfollows
    change StartsChain ((Scope.sequence sequence).written ++ rest') at hstarts
    exact ⟨hstarts.stops_isBlank, fun n hn => .inr ⟨hstarts.numberParser,
      .inr ⟨hstarts.alignedParser, map_eq_read.mpr ⟨_, rfl, hback n hn⟩⟩⟩⟩

end

/-! ## Blocks -/

/-- The letters that begin the words of blocks. -/
def blockLetters : List Char := ['w', 'c']

/-- A text begins like a block. -/
def StartsBlock (s : List Char) : Prop :=
  ∃ negated c t, s = bangText negated ++ c :: t ∧ c ∈ blockLetters

theorem isBlank_of_mem_blockLetters {c : Char} (hc : c ∈ blockLetters) : isBlank c = false :=
  eq_false_of_any hc (by decide)

/-- A block may stand behind a blank where a sequence ends. -/
theorem StartsBlock.endsBefore {s : List Char} (h : StartsBlock s) :
    EndsBefore ['w', 'c', '!'] (' ' :: s) := by
  obtain ⟨negated, c, t, rfl, hc⟩ := h
  cases negated with
  | true => exact endsBefore_space (by decide) rfl _
  | false =>
    have hletters : blockLetters ⊆ ['w', 'c', '!'] := by decide
    exact endsBefore_space (hletters hc) (isBlank_of_mem_blockLetters hc) t

theorem StartsBlock.stops_isBlank {s : List Char} (h : StartsBlock s) : Stops isBlank s := by
  obtain ⟨negated, c, t, rfl, hc⟩ := h
  exact stops_bangText (stops_cons.mpr (isBlank_of_mem_blockLetters hc)) rfl

/-- How a block is written and comes back. -/
def Block.form : Form Block where
  written := Block.written
  renewed := Block.mapRegexes Regex.fused
  Begins := StartsBlock
  Follows := EndsBefore sequenceEnds

theorem BlockKeyword.written_eq_cons (kind : BlockKeyword) :
    ∃ c cs, kind.written = c :: cs ∧ c ∈ blockLetters := by
  cases kind with
  | within => exact ⟨'w', _, rfl, by decide⟩
  | containing => exact ⟨'c', _, rfl, by decide⟩

theorem Block.written_starts (block : Block) (rest : List Char) :
    StartsBlock (block.written ++ rest) := by
  obtain ⟨negated, kind, scope⟩ := block
  obtain ⟨c, cs, hkind, hc⟩ := kind.written_eq_cons
  refine ⟨negated, c, cs ++ ' ' :: (scope.written ++ rest), ?_, hc⟩
  change bangText negated ++ kind.written ++ ' ' :: scope.written ++ rest = _
  rw [hkind]
  simp

/-- The word of a block. -/
def blockKeyword : Parser BlockKeyword :=
  (fun _ => BlockKeyword.within) <$> Parser.keyword "within"
    <|> (fun _ => BlockKeyword.containing) <$> Parser.keyword "containing"

theorem blockKeyword_written (kind : BlockKeyword) {s : List Char} (h : Stops isNameChar s) :
    blockKeyword (kind.written ++ s) = .read kind s := by
  rw [blockKeyword, orElse_eq_read, map_eq_read, map_eq_miss, map_eq_read]
  cases kind with
  | within => exact .inl ⟨(), rfl, keyword_written h⟩
  | containing =>
    have hhead : (BlockKeyword.containing.written ++ s).head? ≠ some 'w' := by
      change ("containing".toList ++ s).head? ≠ some 'w'
      simp
    exact .inr ⟨(opensWith_keyword 'w' rfl).miss hhead, (), rfl, keyword_written h⟩

theorem bang_kind (negated : Bool) (kind : BlockKeyword) (s : List Char) :
    bang (bangText negated ++ (kind.written ++ s)) = .read negated (kind.written ++ s) := by
  obtain ⟨c, cs, hkind, hc⟩ := kind.written_eq_cons
  have hsign : c ≠ '!' := by
    rintro rfl
    exact absurd hc (by decide)
  rw [hkind]
  exact bang_bangText (stops_cons.mpr (isBlank_of_mem_blockLetters hc)) fun _ => by
    simpa using hsign

/-- A block is read from what its scope is read from. -/
theorem Block.parserOf_of_scope {sequence : Parser Sequence} (negated : Bool)
    (kind : BlockKeyword) {s rest : List Char} {scope : Scope} (hblank : Stops isBlank s)
    (h : Scope.parserOf sequence s = .read scope rest) :
    Block.parserOf sequence (bangText negated ++ (kind.written ++ ' ' :: s)) =
      .read ⟨negated, kind, scope⟩ rest := by
  rw [Block.parserOf]
  simp only [bind_eq_read]
  refine ⟨negated, _, bang_kind negated kind _, kind, ' ' :: s,
    blockKeyword_written kind (stops_cons.mpr rfl), scope, rest, ?_, rfl⟩
  rw [afterBlanks_apply, dropWhile_space, dropWhile_of_stops hblank]
  exact h

/-- No block stands where neither its words nor its sign do. -/
theorem Block.parserOf_of_ends {sequence : Parser Sequence} {s : List Char}
    (h : Ends [')'] s) : Block.parserOf sequence s = .miss := by
  have hbang : bang s = .read false s := by
    change bang (bangText false ++ s) = .read false s
    exact bang_bangText (h.stops (by decide)) fun _ => h.head?_ne (by decide)
  rw [Block.parserOf, bind_of_read hbang, bind_eq_miss, orElse_eq_miss, map_eq_miss, map_eq_miss]
  exact .inl ⟨(opensWith_keyword 'w' rfl).miss (h.head?_ne (by decide)),
    (opensWith_keyword 'c' rfl).miss (h.head?_ne (by decide))⟩

theorem Block.writtenEach_eq_flatMap (blocks : List Block) :
    Block.writtenEach blocks = blocks.flatMap (Block.form.behind [' ']).written := by
  induction blocks with
  | nil => rfl
  | cons block blocks ih =>
    rw [Block.writtenEach, ih, List.flatMap_cons]
    rfl

/-- Nothing but a block stands between a sequence and the end of its brackets. -/
theorem Block.writtenEach_endsBefore (blocks : List Block) {rest : List Char}
    (h : EndsBefore [')'] rest) :
    EndsBefore [')', 'w', 'c', '!'] (Block.writtenEach blocks ++ rest) := by
  cases blocks with
  | nil => exact h.mono (by decide)
  | cons block blocks =>
    have hwritten : Block.writtenEach (block :: blocks) ++ rest =
        ' ' :: (block.written ++ (Block.writtenEach blocks ++ rest)) := by
      rw [Block.writtenEach]
      simp
    rw [hwritten]
    exact (Block.written_starts block _).endsBefore.mono (by decide)

section

variable {p : Parser Sequence} {again : Nat → Parser Sequence} (h : Restores p again Sequence.form)

include h

/-- A block is restored when sequences are. -/
theorem Block.parserOf_restores :
    Restores (Block.parserOf p) (fun n => Block.parserOf (again n)) Block.form := by
  refine restores_of_written ?_
  intro s block rest hread rest' hfollows
  rw [Block.parserOf] at hread
  simp only [bind_eq_read, pure_eq_read, afterBlanks_apply] at hread
  obtain ⟨negated, _, -, kind, _, -, scope, _, hscope, rfl, -⟩ := hread
  obtain ⟨hblank, hback⟩ := Scope.parserOf_restores h _ scope _ hscope rest' hfollows
  let text := scope.written ++ rest'
  change Stops isBlank text at hblank
  have hwritten : (Block.mk negated kind scope).written ++ rest' =
      bangText negated ++ (kind.written ++ ' ' :: text) := by
    change bangText negated ++ kind.written ++ ' ' :: scope.written ++ rest' = _
    simp [text]
  have hstarts := Block.written_starts ⟨negated, kind, scope⟩ rest'
  rw [hwritten] at hstarts
  refine ⟨_, hwritten, hstarts, ?_⟩
  intro n hn
  have hlt : text.length < n := by
    simp only [List.length_append, List.length_cons] at hn
    omega
  exact Block.parserOf_of_scope negated kind hblank (hback n hlt)

/-- A block behind any blanks is restored behind one blank. -/
theorem Block.behind_restores : Restores (afterBlanks (Block.parserOf p))
    (fun n => afterBlanks (Block.parserOf (again n))) (Block.form.behind [' ']) := by
  refine (Block.parserOf_restores h).behind (x := ()) ?_
  intro t ht
  rw [List.singleton_append, blanks_apply, dropWhile_space, dropWhile_of_stops ht.stops_isBlank]

/-- Blocks with a blank before each are read back before a bracket or at the end of the text. -/
theorem Block.many_readBack {s rest rest' : List Char} {blocks : List Block}
    (hread : many (afterBlanks (Block.parserOf p)) s = .read blocks rest)
    (hfollows : EndsBefore [')'] rest') {n : Nat}
    (hn : (Block.writtenEach blocks ++ rest').length < n) :
    many (afterBlanks (Block.parserOf (again n))) (Block.writtenEach blocks ++ rest') =
      .read (Block.mapRegexesOfAll Regex.fused blocks) rest' := by
  have hnext : ∀ t, (Block.form.behind [' ']).Begins t →
      (Block.form.behind [' ']).Follows t := by
    rintro t ⟨u, hu, rfl⟩
    exact hu.endsBefore.mono (by decide)
  have hne : ∀ block, (Block.form.behind [' ']).written block ≠ [] := by
    intro block
    exact List.cons_ne_nil _ _
  obtain ⟨-, hback⟩ := Parser.many_readBack (Block.behind_restores h) hnext hne hread
    (hfollows.mono (by decide))
  rw [Block.writtenEach_eq_flatMap] at hn ⊢
  rw [Block.mapRegexesOfAll_eq_map]
  refine hback n hn ?_
  rw [afterBlanks_apply]
  exact Block.parserOf_of_ends hfollows.2

end

/-! ## Groups -/

/-- No pairing and no other token stands where a sequence stands in brackets. -/
theorem Position.parser_of_open {nesting : Nesting} {s : List Char} (hfull : nesting.full = false)
    (h : StartsChain (s.dropWhile isBlank)) : Position.parser nesting ('(' :: s) = .miss := by
  have hpairing : ∀ position : Parser Position,
      Pairing.parserOf position (s.dropWhile isBlank) = .miss := by
    intro position
    rcases h.cases with ⟨t, ht⟩ | hstarts
    · rw [ht, Pairing.parserOf_eq, orElse_eq_miss, bind_eq_miss, bind_eq_miss]
      exact ⟨.inl ((opensWith_keyword 'm' rfl).miss (by simp)),
        .inl ((opensWith_keyword 'u' rfl).miss (by simp))⟩
    · exact Pairing.parserOf_of_starts hstarts
  have htoken : ∀ position : Nesting → Parser Position,
      Token.parserOf position nesting ('(' :: s) = .miss := by
    intro position
    simp only [Token.parserOf_eq, orElse_eq_miss, map_eq_miss]
    refine ⟨opensWith_conditionsParser.miss (by simp), opensWith_anchoredParser.miss (by simp), ?_,
      (opensWith_keyword 'm' rfl).miss (by simp), Regex.opensWith_quoted.miss (by simp)⟩
    rw [pairingParser, map_eq_miss, between_eq_miss]
    exact .inr ⟨(), s.dropWhile isBlank, bind_of_read (char_cons '(' s) _,
      .inl (nested_eq_miss.mpr ⟨hfull, hpairing _⟩)⟩
  rw [Position.parser, recursive_eq, Position.parserOf, orElse_eq_miss, bind_eq_miss, bind_eq_miss]
  exact ⟨.inl (number_of_stops (stops_cons.mpr rfl)), .inl (htoken _)⟩

/-- No token stands where a chain ends. -/
theorem Position.parser_of_ends {nesting : Nesting} {s : List Char} (h : Ends chainEnds s) :
    Position.parser nesting s = .miss := by
  have htoken : ∀ position : Nesting → Parser Position,
      Token.parserOf position nesting s = .miss := by
    intro position
    simp only [Token.parserOf_eq, orElse_eq_miss, map_eq_miss]
    exact ⟨opensWith_conditionsParser.miss (h.head?_ne (by decide)),
      opensWith_anchoredParser.miss (h.head?_ne (by decide)),
      opensWith_pairingParser.miss (h.head?_ne (by decide)),
      (opensWith_keyword 'm' rfl).miss (h.head?_ne (by decide)),
      Regex.opensWith_quoted.miss (h.head?_ne (by decide))⟩
  rw [Position.parser, recursive_eq, Position.parserOf, orElse_eq_miss, bind_eq_miss, bind_eq_miss]
  exact ⟨.inl (number_of_stops (h.stops (by decide))), .inl (htoken _)⟩

/-- No atom stands where a chain ends. -/
theorem Atom.parserOf_of_ends {atom : Nesting → Parser Atom} {nesting : Nesting} {s : List Char}
    (h : Ends chainEnds s) : Atom.parserOf atom nesting s = .miss := by
  rw [Atom.parserOf, orElse_eq_miss, map_eq_miss, Atom.groupParserOf, between_eq_miss, bind_eq_miss]
  exact ⟨Position.parser_of_ends h, .inl (.inl (char_eq_miss.mpr (h.head?_ne (by decide))))⟩

section

variable {p : Nesting → Parser Atom} {again : Nat → Nesting → Parser Atom}
  (h : ∀ nesting, Restores (p nesting) (fun n => again n nesting) Atom.form)
  (hmiss : ∀ n nesting s, Ends chainEnds s → again n nesting s = .miss)

include h hmiss

/-- A group is read back when the atoms in it are restored. -/
theorem Atom.groupParserOf_readBack {nesting : Nesting} {s rest : List Char} {atom : Atom}
    (hread : Atom.groupParserOf p nesting s = .read atom rest) (rest' : List Char) :
    nesting.full = false ∧ ∃ inside, StartsChain inside ∧ atom.written ++ rest' = '(' :: inside ∧
      ∀ n, inside.length < n → Atom.groupParserOf (again n) nesting ('(' :: inside) =
        .read (atom.mapRegexes Regex.fused) rest' := by
  obtain ⟨_, inner, _, after, -, hinner, -⟩ := between_eq_read.mp hread
  obtain ⟨hfull, hinner⟩ := nested_eq_read.mp hinner
  simp only [bind_eq_read, pure_eq_read] at hinner
  obtain ⟨sequence, _, hsequence, blocks, _, hblocks, rfl, -⟩ := hinner
  have hrestores := Sequence.parserOf_restores (h nesting.deeper)
    (fun n => hmiss n nesting.deeper) nesting.deeper
  have hclose : EndsBefore [')'] (')' :: rest') :=
    ⟨ends_cons.mpr (by decide), ends_cons.mpr (by decide)⟩
  obtain ⟨hstarts, hback⟩ := hrestores _ sequence _ hsequence _
    ((Block.writtenEach_endsBefore blocks hclose).mono (by decide))
  change StartsChain (sequence.written ++ (Block.writtenEach blocks ++ ')' :: rest')) at hstarts
  refine ⟨hfull, sequence.written ++ (Block.writtenEach blocks ++ ')' :: rest'), hstarts, ?_, ?_⟩
  · change '(' :: sequence.written ++ Block.writtenEach blocks ++ [')'] ++ rest' = _
    simp
  · intro n hn
    have hlt : (Block.writtenEach blocks ++ ')' :: rest').length < n := by
      rw [List.length_append] at hn
      omega
    refine between_eq_read.mpr ⟨(), _, ')', ')' :: rest', open_written hstarts.stops_isBlank,
      nested_eq_read.mpr ⟨hfull, ?_⟩, afterBlanks_char rfl rest'⟩
    simp only [bind_eq_read]
    exact ⟨_, _, hback n hn, _, _, Block.many_readBack hrestores hblocks hclose hlt, rfl⟩

/-- An atom is restored when the atoms nested in it are. -/
theorem Atom.parserOf_restores (nesting : Nesting) :
    Restores (Atom.parserOf p nesting) (fun n => Atom.parserOf (again (n - 1)) nesting)
      Atom.form := by
  intro s atom rest hread rest' hfollows
  change Starts tokenSigns (atom.written ++ rest') ∧ ∀ n, (atom.written ++ rest').length < n →
    Atom.parserOf (again (n - 1)) nesting (atom.written ++ rest') =
      .read (atom.mapRegexes Regex.fused) rest'
  simp only [Atom.parserOf, orElse_eq_read] at hread ⊢
  rcases hread with hposition | ⟨-, hgroup⟩
  · obtain ⟨position, rfl, hread⟩ := map_eq_read.mp hposition
    obtain ⟨hstarts, hback⟩ := Position.restores nesting _ position _ hread rest' hfollows
    exact ⟨hstarts, fun n hn => .inl (map_eq_read.mpr ⟨_, rfl, hback n hn⟩)⟩
  · obtain ⟨hfull, inside, hstarts, hwritten, hback⟩ :=
      Atom.groupParserOf_readBack h hmiss hgroup rest'
    rw [hwritten]
    refine ⟨.inl ⟨'(', inside, rfl, by decide⟩, fun n hn => .inr ⟨?_, ?_⟩⟩
    · refine map_eq_miss.mpr (Position.parser_of_open hfull ?_)
      rw [dropWhile_of_stops hstarts.stops_isBlank]
      exact hstarts
    · rw [List.length_cons] at hn
      exact hback (n - 1) (by omega)

end

/-- Atoms are restored. -/
theorem Atom.restores (nesting : Nesting) :
    Restores (Atom.parser nesting) (fun _ => Atom.parser nesting) Atom.form := by
  refine restores_recursive (Ends chainEnds) (fun _ _ _ hs => Atom.parserOf_of_ends hs) ?_ nesting
  intro p again h hmiss deeper
  exact Atom.parserOf_restores h hmiss deeper

theorem Atom.parser_of_ends {nesting : Nesting} {s : List Char} (h : Ends chainEnds s) :
    Atom.parser nesting s = .miss := by
  rw [Atom.parser, recursive_eq]
  exact Atom.parserOf_of_ends h

/-- Sequences are restored. -/
theorem Sequence.restores (nesting : Nesting) :
    Restores (Sequence.parser nesting) (fun _ => Sequence.parser nesting) Sequence.form :=
  Sequence.parserOf_restores (Atom.restores nesting) (fun _ _ hs => Atom.parser_of_ends hs) nesting

end CorpusCost
