import CorpusCost.Proofs.VisibleEnds

/-!
# Places of syntax errors

Whatever cannot be read of a text is reported behind what was read of it, which may be nothing,
since all parts of a query may be left out. What was read is read alike when the text is cut behind
it. So the text before the place of an error, trimmed, is a query; at the place stands the word that
is reported, or, when white space is all that is left, the text ends there.
-/

set_option autoImplicit false

namespace CorpusCost

open CorpusCost.Parser

/-! ## White space at the end -/

namespace Text

/-- White space behind a visible end is all that is trimmed there. -/
theorem trimEnd_append {w tail : List Char} (hw : w = [] ∨ VisibleUpTo [] w)
    (htail : ∀ c ∈ tail, isWhiteSpace c = true) : trimEnd (w ++ tail) = w := by
  have hdrop : trimStart (w ++ tail).reverse = trimStart w.reverse := by
    rw [trimStart, List.reverse_append]
    exact List.dropWhile_append_of_pos (by simpa using htail)
  rw [trimEnd, hdrop]
  rcases hw with rfl | ⟨v, c, rfl, hc⟩
  · rfl
  · simp [trimStart, hc]

theorem isWhiteSpace_of_isBlank {c : Char} (h : isBlank c = true) : isWhiteSpace c = true := by
  rcases isBlank_cases h with rfl | rfl | rfl | rfl <;> decide

/-- A text is white space followed by what is left when it is trimmed. -/
theorem trimStart_split (s : List Char) : ∃ w, (∀ c ∈ w, isWhiteSpace c = true) ∧
    Stops isWhiteSpace (trimStart s) ∧ s = w ++ trimStart s :=
  ⟨s.takeWhile isWhiteSpace, takeWhile_eq_read.mp rfl⟩

end Text

/-! ## What is reported -/

namespace SyntaxError

/-- The end of the text is reported where only white space is left. -/
theorem ofRest_of_white (size : Nat) {rest : List Char} (h : Text.trimStart rest = []) :
    ofRest size rest = .unexpectedEnd size := by
  simp [ofRest, h, Text.firstWord]

/-- The first visible character that is left is reported with the word it begins. -/
theorem ofRest_of_visible (size : Nat) {rest : List Char} (h : Text.trimStart rest ≠ []) :
    Text.firstWord (Text.trimStart rest) ≠ [] ∧
      ofRest size rest = .unexpectedToken (size - Text.byteSize (Text.trimStart rest))
        (String.ofList (Text.firstWord (Text.trimStart rest))) := by
  obtain ⟨c, u, hvisible⟩ := List.exists_cons_of_ne_nil h
  obtain ⟨_, -, hstop, -⟩ := Text.trimStart_split rest
  rw [hvisible, stops_cons] at hstop
  simp [ofRest, hvisible, Text.firstWord, hstop]

/-- What is left is reported where it begins to be visible. -/
theorem ofRest_offset {before rest : List Char} {size : Nat}
    (hsize : size = Text.byteSize before + Text.byteSize (Text.trimStart rest)) :
    (ofRest size rest).offset = Text.byteSize before := by
  by_cases hnone : Text.trimStart rest = []
  · rw [ofRest_of_white size hnone, offset, hsize, hnone]
    rfl
  · rw [(ofRest_of_visible size hnone).2, offset, hsize]
    omega

end SyntaxError

/-! ## What is left of a text -/

namespace Query

variable {nesting : Nesting}

/-- Reading a query goes on to some end. -/
theorem parser_ne_miss (nesting : Nesting) (s : List Char) : parser nesting s ≠ .miss := by
  simp [parser, parts, bind_eq_miss, many_ne_miss]

/-- Blanks before the parts of a query are read over. -/
theorem parser_of_parts {lead w : List Char} {query : Query}
    (hlead : ∀ c ∈ lead, isBlank c = true) (hw : Stops isBlank w)
    (h : parts nesting w = .read query []) : parser nesting (lead ++ w) = .read query [] := by
  have hblanks : blanks (lead ++ w) = .read () w := by
    rw [blanks_apply, List.dropWhile_append_of_pos hlead, dropWhile_of_stops hw]
  rw [parser, bind_of_read hblanks, bind_of_read h]
  rfl

/-- What is read as a query, up to its visible end, is that query, and blanks are all that is read
behind it. -/
theorem parser_split {s rest : List Char} {query : Query}
    (h : parser nesting s = .read query rest) :
    ∃ kept gap, s = kept ++ (gap ++ rest) ∧ (∀ c ∈ gap, isBlank c = true) ∧ Stops isBlank rest ∧
      (kept = [] ∨ Text.VisibleUpTo [] kept) ∧ parser nesting kept = .read query [] := by
  obtain ⟨_, inside, hbefore, h⟩ := bind_eq_read.mp h
  obtain ⟨parsed, after, hparts, h⟩ := bind_eq_read.mp h
  obtain ⟨_, last, hbehind, h⟩ := bind_eq_read.mp h
  obtain ⟨rfl, rfl⟩ := pure_eq_read.mp h
  obtain rfl : s.dropWhile isBlank = inside := by simpa using hbefore
  obtain rfl : after.dropWhile isBlank = last := by simpa using hbehind
  obtain ⟨hlead, hstop, hs⟩ := takeWhile_eq_read.mp
    (rfl : takeWhile isBlank s = .read (s.takeWhile isBlank) (s.dropWhile isBlank))
  obtain ⟨hgap, hend, hafter⟩ := takeWhile_eq_read.mp
    (rfl : takeWhile isBlank after = .read (after.takeWhile isBlank) (after.dropWhile isBlank))
  -- Behind its visible end, the text is cut.
  have hcut : ∀ w, s.dropWhile isBlank = w ++ after → parts nesting w = .read parsed [] := by
    intro w hw
    rw [hw] at hparts
    exact (cut_parts nesting).read (x := []) hparts rfl
  rcases trails_parts nesting hparts with hnothing | ⟨v, c, hvisible, hc⟩
  · refine ⟨[], s.takeWhile isBlank ++ after.takeWhile isBlank, ?_, ?_, hend, .inl rfl, ?_⟩
    · rw [List.nil_append, List.append_assoc, ← hafter, hnothing]
      exact hs
    · intro c hmem
      rcases List.mem_append.mp hmem with hmem | hmem
      · exact hlead c hmem
      · exact hgap c hmem
    · have hlead : ∀ c ∈ ([] : List Char), isBlank c = true := by simp
      exact parser_of_parts hlead (stops_nil _) (hcut [] hnothing.symm)
  · have hsplit : s.dropWhile isBlank = (v ++ [c]) ++ after := by simpa using hvisible
    refine ⟨s.takeWhile isBlank ++ (v ++ [c]), after.takeWhile isBlank, ?_, hgap, hend,
      .inr ⟨s.takeWhile isBlank ++ v, c, by simp, hc⟩, ?_⟩
    · rw [← hafter, List.append_assoc, ← hsplit]
      exact hs
    · exact parser_of_parts hlead (Stops.of_append (hsplit ▸ hstop)) (hcut _ hsplit)

/-- A text that makes up no query is left unread at some place, or brackets nest too deeply in
it. -/
theorem parse_eq_error {text : String} {error : SyntaxError} :
    parse text = .error error ↔
      (∃ query rest, parser ⟨0, some maxDepth⟩ text.toList = .read query rest ∧ rest ≠ [] ∧
        error = .ofRest (Text.byteSize text.toList) rest) ∨
      ∃ rest, parser ⟨0, some maxDepth⟩ text.toList = .tooDeep rest ∧
        error = .tooDeep (Text.byteSize text.toList - Text.byteSize rest) := by
  rw [parse, parseWithin]
  cases hread : parser ⟨0, some maxDepth⟩ text.toList with
  | read query rest =>
    cases rest with
    | nil => simp
    | cons c rest =>
      refine ⟨fun h => .inl ⟨query, c :: rest, rfl, by simp, (Except.error.inj h).symm⟩, ?_⟩
      rintro (⟨_, _, ⟨rfl, rfl⟩, -, rfl⟩ | ⟨_, hdeep, -⟩)
      · rfl
      · simp at hdeep
  | miss => exact absurd hread (parser_ne_miss _ _)
  | tooDeep rest => simp [eq_comm]

/-- A text that makes up no query, and in which brackets do not nest too deeply, is a query, as far
as its visible end, with blanks behind it and a rest that begins with no blank. -/
theorem parse_split {text : String} {error : SyntaxError} (h : parse text = .error error)
    (hdeep : ∀ offset, error ≠ .tooDeep offset) :
    ∃ kept gap rest query, text.toList = kept ++ (gap ++ rest) ∧
      (∀ c ∈ gap, isBlank c = true) ∧ Stops isBlank rest ∧ rest ≠ [] ∧
      (kept = [] ∨ Text.VisibleUpTo [] kept) ∧ parse (String.ofList kept) = .ok query ∧
      error = .ofRest (Text.byteSize text.toList) rest := by
  rcases parse_eq_error.mp h with ⟨query, rest, hread, hne, herror⟩ | ⟨_, -, herror⟩
  · obtain ⟨kept, gap, htext, hgap, hstop, hkept, hagain⟩ := parser_split hread
    refine ⟨kept, gap, rest, query, htext, hgap, hstop, hne, hkept, ?_, herror⟩
    rw [parse_eq_ok, String.toList_ofList]
    exact hagain
  · exact absurd herror (hdeep _)

/-- The place of every syntax error but too deep nesting. Before it stands a query, with white space
behind it. At it stands the word that is reported, or the text ends there, and in the white space
behind the query there is some that is no blank. -/
theorem parse_error_place {text : String} {error : SyntaxError} (h : parse text = .error error)
    (hdeep : ∀ offset, error ≠ .tooDeep offset) :
    ∃ before rest, text.toList = before ++ rest ∧ Text.byteSize before = error.offset ∧
      (∃ query, parse (String.ofList (Text.trimEnd before)) = .ok query) ∧
      (∀ offset found, error = .unexpectedToken offset found →
        found.toList = Text.firstWord rest ∧ found ≠ "") ∧
      (∀ offset, error = .unexpectedEnd offset →
        offset = Text.byteSize text.toList ∧ ∃ tail, text.toList = Text.trimEnd before ++ tail ∧
          (∀ c ∈ tail, Text.isWhiteSpace c = true) ∧ ∃ c ∈ tail, isBlank c = false) := by
  obtain ⟨kept, gap, rest, query, htext, hgap, hstop, hne, hkept, hquery, rfl⟩ :=
    parse_split h hdeep
  obtain ⟨white, hwhite, -, hrest⟩ := Text.trimStart_split rest
  have htail : ∀ c ∈ gap ++ white, Text.isWhiteSpace c = true := by
    intro c hc
    rcases List.mem_append.mp hc with hc | hc
    · exact Text.isWhiteSpace_of_isBlank (hgap c hc)
    · exact hwhite c hc
  have htrim := Text.trimEnd_append hkept htail
  have hsplit : text.toList = kept ++ (gap ++ white) ++ Text.trimStart rest := by
    rw [htext, List.append_assoc, List.append_assoc, ← hrest]
  have hoffset := SyntaxError.ofRest_offset (hsplit ▸ Text.byteSize_append _ _)
  refine ⟨_, _, hsplit, hoffset.symm, ⟨query, by rwa [htrim]⟩, ?_⟩
  by_cases hnone : Text.trimStart rest = []
  · rw [SyntaxError.ofRest_of_white _ hnone, htrim]
    refine ⟨fun _ _ hfound => by simp at hfound, fun offset hend => ?_⟩
    refine ⟨(SyntaxError.unexpectedEnd.inj hend).symm, gap ++ white, ?_, htail, ?_⟩
    · rw [hsplit, hnone, List.append_nil]
    · -- The rest begins with a character that is no blank, and it is all white space.
      obtain ⟨c, u, rfl⟩ := List.exists_cons_of_ne_nil hne
      rw [hnone, List.append_nil] at hrest
      exact ⟨c, List.mem_append_right gap (hrest ▸ List.mem_cons_self), stops_cons.mp hstop⟩
  · obtain ⟨hword, herror⟩ := SyntaxError.ofRest_of_visible (Text.byteSize text.toList) hnone
    rw [herror]
    refine ⟨fun offset found hfound => ?_, fun _ hend => by simp at hend⟩
    obtain ⟨-, rfl⟩ := SyntaxError.unexpectedToken.inj hfound
    exact ⟨String.toList_ofList, fun hempty => hword (String.ofList_eq_empty_iff.mp hempty)⟩

/-- A closing bracket that nothing opened is reported behind the word before it. -/
theorem parse_error_place_bracket : ∃ before rest, "\"a\" ]".toList = before ++ rest ∧
    Text.byteSize before = 4 ∧
    (∃ query, parse (String.ofList (Text.trimEnd before)) = .ok query) ∧
    "]".toList = Text.firstWord rest := by
  have herror : parse "\"a\" ]" = .error (.unexpectedToken 4 "]") :=
    parse_eq_error.mpr <| .inl ⟨.ofWord ⟨[[.row [.symbol (.literal "a" false)]]]⟩, [']'],
      by decide +kernel, by simp, by decide⟩
  obtain ⟨before, rest, htext, hsize, hquery, hword, -⟩ := parse_error_place herror (by simp)
  exact ⟨before, rest, htext, hsize, hquery, (hword 4 "]" rfl).1⟩

-- A no-break space is white space, but no blank of the language.
example : parse "\"a\" \u00a0" = .error (.unexpectedEnd 6) :=
  parse_eq_error.mpr <| .inl ⟨.ofWord ⟨[[.row [.symbol (.literal "a" false)]]]⟩, ['\u00a0'],
    by decide +kernel, by simp, by decide⟩

end Query

end CorpusCost
