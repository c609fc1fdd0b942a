import CorpusCost.Proofs.ErrorPlaces
import CorpusCost.Proofs.GuardTransparency
import CorpusCost.Score

/-!
# Where diagnostics point

The diagnostic of a text that is no query points at a part of this text, by its first byte and its
number of bytes. The part always lies in the text and begins with a character; a word that is
reported is exactly this part. It ends where a character ends, but for one case: where nesting is
too deep one byte is pointed at, whatever the character there.

Boundaries between characters are those of the library's strings. A place is one just when the text
can be taken apart there (`Text.isValid_iff`), which is how the places of errors are known.
-/

set_option autoImplicit false

namespace CorpusCost

/-! ## Boundaries between characters -/

namespace Text

theorem utf8ByteSize_ofList (cs : List Char) : (String.ofList cs).utf8ByteSize = byteSize cs := by
  induction cs with
  | nil => rfl
  | cons c cs ih =>
    have hsplit : String.ofList (c :: cs) = String.ofList [c] ++ String.ofList cs := by
      rw [← String.ofList_append, List.singleton_append]
    rw [hsplit, String.utf8ByteSize_append, ← String.singleton_eq_ofList,
      String.utf8ByteSize_singleton, ih, byteSize_cons]

theorem byteSize_toList (text : String) : byteSize text.toList = text.utf8ByteSize := by
  rw [← utf8ByteSize_ofList, String.ofList_toList]

/-- A place is a boundary between characters just when the text can be taken apart there. -/
theorem isValid_iff {text : String} {place : Nat} :
    String.Pos.Raw.IsValid text ⟨place⟩ ↔
      ∃ before after, text.toList = before ++ after ∧ byteSize before = place := by
  rw [String.Pos.Raw.isValid_iff_exists_append]
  constructor
  · rintro ⟨before, after, rfl, hplace⟩
    refine ⟨before.toList, after.toList, String.toList_append, ?_⟩
    rw [byteSize_toList]
    exact (congrArg String.Pos.Raw.byteIdx hplace).symm
  · rintro ⟨before, after, htext, hplace⟩
    refine ⟨String.ofList before, String.ofList after, ?_, ?_⟩
    · rw [← String.ofList_append, ← htext, String.ofList_toList]
    · rw [String.Pos.Raw.ext_iff, String.byteIdx_rawEndPos, utf8ByteSize_ofList, hplace]

/-- Behind the first byte of a character there is a boundary just when it is the only one. -/
theorem isValid_succ_iff {text : String} {before after : List Char} {c : Char}
    (htext : text.toList = before ++ c :: after) :
    String.Pos.Raw.IsValid text ⟨byteSize before + 1⟩ ↔ c.utf8Size = 1 := by
  rw [isValid_iff]
  constructor
  · rintro ⟨other, rest, hother, hsize⟩
    rw [htext] at hother
    rcases List.append_eq_append_iff.mp hother with ⟨more, rfl, hmore⟩ | ⟨more, rfl, -⟩
    · cases more with
      | nil => simp at hsize
      | cons d more =>
        obtain ⟨rfl, -⟩ := List.cons.inj hmore
        have hpos := c.utf8Size_pos
        rw [byteSize_append, byteSize_cons] at hsize
        omega
    · rw [byteSize_append] at hsize
      omega
  · intro hone
    exact ⟨before ++ [c], after, by simp [htext], by simp [hone]⟩

end Text

/-! ## Places of errors -/

namespace Query

/-- Where nesting is too deep, the text can be taken apart. -/
theorem tooDeep_place {text : String} {offset : Nat}
    (h : parse text = .error (.tooDeep offset)) :
    ∃ before rest, text.toList = before ++ rest ∧ Text.byteSize before = offset := by
  obtain ⟨rest, hdeep, hoffset⟩ := parseWithin_eq_tooDeep.mp h
  have hguard : Parser.Guards ⟨0, some maxDepth⟩ text.toList
      (parser ⟨0, some maxDepth⟩ text.toList) (parser ⟨0, none⟩ text.toList) :=
    parser_transparent rfl text.toList
  rw [hdeep] at hguard
  obtain ⟨-, before, -, hs, -⟩ := hguard.exists_before
  refine ⟨before, rest, hs.symm, ?_⟩
  rw [← hoffset, ← hs, Text.byteSize_append, Nat.add_sub_cancel]

/-- At the place of a word that is reported stands this word, and it has a character. -/
theorem unexpectedToken_place {text found : String} {offset : Nat}
    (h : parse text = .error (.unexpectedToken offset found)) :
    ∃ before after, text.toList = before ++ (found.toList ++ after) ∧
      Text.byteSize before = offset ∧ found.toList ≠ [] := by
  obtain ⟨kept, gap, rest, query, htext, -, -, -, -, -, herror⟩ := parse_split h (by simp)
  obtain ⟨white, -, -, hrest⟩ := Text.trimStart_split rest
  have hsplit : text.toList = (kept ++ (gap ++ white)) ++ Text.trimStart rest := by
    rw [htext, List.append_assoc, List.append_assoc, ← hrest]
  have hoffset := SyntaxError.ofRest_offset (hsplit ▸ Text.byteSize_append _ _)
  by_cases hnone : Text.trimStart rest = []
  · rw [SyntaxError.ofRest_of_white _ hnone] at herror
    exact absurd herror (by simp)
  · obtain ⟨hword, hreported⟩ :=
      SyntaxError.ofRest_of_visible (Text.byteSize text.toList) hnone
    rw [← herror] at hoffset
    rw [hreported] at herror
    obtain ⟨-, rfl⟩ := SyntaxError.unexpectedToken.inj herror
    refine ⟨_, (Text.trimStart rest).dropWhile fun c => !Text.isWhiteSpace c, ?_, hoffset.symm, ?_⟩
    · rw [String.toList_ofList, Text.firstWord, List.takeWhile_append_dropWhile]
      exact hsplit
    · rwa [String.toList_ofList]

theorem read_eq_error {text : String} {diagnostic : Diagnostic} :
    read text = .error diagnostic ↔
      ∃ error, parse text = .error error ∧ diagnostic = .of text (.query error) := by
  unfold read
  cases parse text with
  | error error => simp [eq_comm]
  | ok query => simp

end Query

/-! ## Spans -/

namespace Diagnostic

/-- Whether the part that a diagnostic points at ends inside a character: nesting is too deep, and
the character at the place has more than one byte. -/
def CutsCharacter (diagnostic : Diagnostic) : Prop :=
  ∃ offset before c after, diagnostic.cause = .query (.tooDeep offset) ∧
    diagnostic.source.toList = before ++ c :: after ∧ Text.byteSize before = offset ∧
    1 < c.utf8Size

/-- What holds of the part of a text that a diagnostic points at: it lies in the text, begins with a
character, and ends with one unless the one character at its beginning is cut. -/
structure PointsInto (diagnostic : Diagnostic) (text : String) : Prop where
  /-- The part lies in the text. -/
  bounded : diagnostic.start + diagnostic.length ≤ text.utf8ByteSize
  /-- It begins with a character, or where the text ends. -/
  start : String.Pos.Raw.IsValid text ⟨diagnostic.start⟩
  /-- It ends where a character ends, unless it cuts one. -/
  stop : String.Pos.Raw.IsValid text ⟨diagnostic.start + diagnostic.length⟩ ↔
    ¬ diagnostic.CutsCharacter

variable {text found : String} {offset : Nat}

/-- A word that is reported is pointed at as a whole. -/
theorem pointsInto_unexpectedToken (h : Query.parse text = .error (.unexpectedToken offset found)) :
    (of text (.query (.unexpectedToken offset found))).PointsInto text ∧
      ∃ before after, text = before ++ found ++ after ∧
        before.utf8ByteSize = (of text (.query (.unexpectedToken offset found))).start ∧
        found.utf8ByteSize = (of text (.query (.unexpectedToken offset found))).length := by
  obtain ⟨before, after, htext, hoffset, hne⟩ := Query.unexpectedToken_place h
  have hsize : text.utf8ByteSize =
      offset + (found.utf8ByteSize + Text.byteSize after) := by
    rw [← Text.byteSize_toList text, htext, Text.byteSize_append, Text.byteSize_append,
      Text.byteSize_toList, hoffset]
  have hfound : 0 < found.utf8ByteSize := by
    obtain ⟨c, word, hword⟩ := List.exists_cons_of_ne_nil hne
    have hpos := c.utf8Size_pos
    rw [← Text.byteSize_toList, hword, Text.byteSize_cons]
    omega
  have hstart : (of text (.query (.unexpectedToken offset found))).start = offset := by
    simp only [of, syntaxSpan]
    omega
  have hlength :
      (of text (.query (.unexpectedToken offset found))).length = found.utf8ByteSize := by
    simp only [of, syntaxSpan]
    omega
  refine ⟨⟨?_, ?_, ?_⟩, String.ofList before, String.ofList after, ?_, ?_, hlength.symm⟩
  · rw [hstart, hlength]
    omega
  · rw [hstart]
    exact Text.isValid_iff.mpr ⟨before, _, htext, hoffset⟩
  · refine iff_of_true ?_ ?_
    · rw [hstart, hlength]
      refine Text.isValid_iff.mpr ⟨before ++ found.toList, after, by simp [htext], ?_⟩
      rw [Text.byteSize_append, Text.byteSize_toList, hoffset]
    · rintro ⟨_, _, _, _, hcause, -⟩
      simp [of] at hcause
  · rw [← String.ofList_toList (s := text), htext]
    simp [String.ofList_append, String.append_assoc]
  · rw [hstart, Text.utf8ByteSize_ofList, hoffset]

/-- At the end of the text nothing is pointed at. -/
theorem pointsInto_unexpectedEnd (text : String) (offset : Nat) :
    (of text (.query (.unexpectedEnd offset))).PointsInto text := by
  have hstart : (of text (.query (.unexpectedEnd offset))).start = text.utf8ByteSize := rfl
  have hlength : (of text (.query (.unexpectedEnd offset))).length = 0 := Nat.sub_self _
  have hvalid : String.Pos.Raw.IsValid text ⟨text.utf8ByteSize⟩ :=
    Text.isValid_iff.mpr ⟨text.toList, [], by simp, Text.byteSize_toList text⟩
  refine ⟨?_, ?_, iff_of_true ?_ ?_⟩
  · rw [hstart, hlength]
    omega
  · rwa [hstart]
  · rwa [hstart, hlength]
  · rintro ⟨_, _, _, _, hcause, -⟩
    simp [of] at hcause

/-- Where nesting is too deep, one byte is pointed at, if there is one left. -/
theorem pointsInto_tooDeep (h : Query.parse text = .error (.tooDeep offset)) :
    (of text (.query (.tooDeep offset))).PointsInto text := by
  obtain ⟨before, rest, htext, hoffset⟩ := Query.tooDeep_place h
  have hsize : text.utf8ByteSize = offset + Text.byteSize rest := by
    rw [← Text.byteSize_toList text, htext, Text.byteSize_append, hoffset]
  have hstart : (of text (.query (.tooDeep offset))).start = offset := by
    simp only [of, syntaxSpan]
    omega
  have hvalid : String.Pos.Raw.IsValid text ⟨offset⟩ :=
    Text.isValid_iff.mpr ⟨before, rest, htext, hoffset⟩
  have hcuts : (of text (.query (.tooDeep offset))).CutsCharacter →
      offset < text.utf8ByteSize ∧ ¬ String.Pos.Raw.IsValid text ⟨offset + 1⟩ := by
    rintro ⟨place, upTo, c, after, hcause, hsource, hplace, hwide⟩
    obtain rfl : offset = place := by simpa [of] using hcause
    have htext : text.toList = upTo ++ c :: after := hsource
    refine ⟨?_, ?_⟩
    · rw [← Text.byteSize_toList, htext, Text.byteSize_append, Text.byteSize_cons]
      omega
    · rw [← hplace, Text.isValid_succ_iff htext]
      exact Nat.ne_of_gt hwide
  cases rest with
  | nil =>
    have hend : text.utf8ByteSize = offset := hsize
    have hlength : (of text (.query (.tooDeep offset))).length = 0 := by
      simp only [of, syntaxSpan]
      omega
    refine ⟨?_, by rwa [hstart], iff_of_true (by rwa [hstart, hlength]) ?_⟩
    · rw [hstart, hlength]
      omega
    · intro hcut
      exact Nat.ne_of_gt (hcuts hcut).1 hend
  | cons c after =>
    have hpos := c.utf8Size_pos
    rw [Text.byteSize_cons] at hsize
    have hlength : (of text (.query (.tooDeep offset))).length = 1 := by
      simp only [of, syntaxSpan]
      omega
    refine ⟨?_, by rwa [hstart], ?_⟩
    · rw [hstart, hlength]
      omega
    · rw [hstart, hlength]
      refine ⟨fun hstop hcut => (hcuts hcut).2 hstop, fun hwhole => ?_⟩
      rw [← hoffset, Text.isValid_succ_iff htext]
      by_contra hwide
      exact hwhole ⟨offset, before, c, after, rfl, htext, hoffset, by omega⟩

end Diagnostic

/-! ## Diagnostics of texts -/

/-- A text that is no query is the source of its diagnostic, and the part that the diagnostic points
at lies in it and begins with a character. The part ends where a character ends, but for the case
that nesting is too deep and the one byte pointed at does not make up the character there. A word
that is reported is exactly the part. -/
theorem Query.read_span {text : String} {diagnostic : Diagnostic}
    (h : read text = .error diagnostic) :
    diagnostic.source = text ∧
      diagnostic.start + diagnostic.length ≤ text.utf8ByteSize ∧
      String.Pos.Raw.IsValid text ⟨diagnostic.start⟩ ∧
      (String.Pos.Raw.IsValid text ⟨diagnostic.start + diagnostic.length⟩ ↔
        ¬ diagnostic.CutsCharacter) ∧
      ∀ offset found, diagnostic.cause = .query (.unexpectedToken offset found) →
        ∃ before after, text = before ++ found ++ after ∧
          before.utf8ByteSize = diagnostic.start ∧ found.utf8ByteSize = diagnostic.length := by
  obtain ⟨error, herror, rfl⟩ := read_eq_error.mp h
  cases error with
  | unexpectedToken offset found =>
    obtain ⟨hpoints, hword⟩ := Diagnostic.pointsInto_unexpectedToken herror
    refine ⟨rfl, hpoints.bounded, hpoints.start, hpoints.stop, ?_⟩
    rintro _ _ hcause
    obtain ⟨rfl, rfl⟩ : offset = _ ∧ found = _ := by simpa [Diagnostic.of] using hcause
    exact hword
  | unexpectedEnd offset =>
    have hpoints := Diagnostic.pointsInto_unexpectedEnd text offset
    exact ⟨rfl, hpoints.bounded, hpoints.start, hpoints.stop, by simp [Diagnostic.of]⟩
  | tooDeep offset =>
    have hpoints := Diagnostic.pointsInto_tooDeep herror
    exact ⟨rfl, hpoints.bounded, hpoints.start, hpoints.stop, by simp [Diagnostic.of]⟩

/-- A letter of two bytes behind one bracket more than may be open is cut, and so the part that is
pointed at ends inside it. -/
theorem Query.read_span_cut :
    let text := String.ofList (List.replicate 33 '(' ++ ['é'])
    ∃ diagnostic, read text = .error diagnostic ∧ diagnostic.start = 33 ∧ diagnostic.length = 1 ∧
      diagnostic.CutsCharacter ∧ text.utf8ByteSize = 35 ∧
      ¬ String.Pos.Raw.IsValid text ⟨diagnostic.start + diagnostic.length⟩ := by
  intro text
  have hparse : parse text = .error (.tooDeep 33) :=
    parseWithin_eq_tooDeep.mpr ⟨['é'], by decide +kernel, by decide +kernel⟩
  have hread : read text = .error (.of text (.query (.tooDeep 33))) :=
    read_eq_error.mpr ⟨_, hparse, rfl⟩
  have hcut : (Diagnostic.of text (.query (.tooDeep 33))).CutsCharacter :=
    ⟨33, List.replicate 33 '(', 'é', [], rfl, String.toList_ofList, by decide, by decide⟩
  obtain ⟨-, -, -, hstop, -⟩ := Query.read_span hread
  exact ⟨_, hread, by decide +kernel, by decide +kernel, hcut, by decide +kernel,
    fun hvalid => hstop.mp hvalid hcut⟩

end CorpusCost
