import Mathlib.Data.List.Basic
import CorpusCost.Inputs
import CorpusCost.Proofs.EncodedTexts

/-!
# Samples in files

A file of samples is made of lines: a text, a `;`, and the seconds the text took. The lines are
ended by carriage returns and line feeds, and the text may hold any number of `;` of its own. No
byte of another character is one of these signs, so what is cut at the bytes is what could be cut at
the characters (`Records.fields_ofText`, `Joined.lines_start`). Every line comes back as the pair
of its text and its seconds, and lines without a finite number of seconds are left out.
-/

set_option autoImplicit false

namespace CorpusCost

namespace Records

/-! ## Fields -/

theorem splitOn_append_of_not_mem {bytes : Bytes} {sign : UInt8} (h : sign ∉ bytes)
    (rest : Bytes) :
    (bytes ++ rest).splitOn sign = (rest.splitOn sign).modifyHead (bytes ++ ·) := by
  induction bytes with
  | nil =>
    rw [List.nil_append]
    cases rest.splitOn sign <;> rfl
  | cons byte bytes ih =>
    obtain ⟨hbyte, hbytes⟩ := List.ne_and_not_mem_of_not_mem_cons h
    rw [List.cons_append, List.splitOn_cons_eq_if_modifyHead, if_neg (by simpa using Ne.symm hbyte),
      ih hbytes]
    cases rest.splitOn sign <;> rfl

/-- A text cut at every `;`. -/
def pieces (text : String) : List String := (text.toList.splitOn ';').map String.ofList

theorem splitOn_flatMap_ofChar (cs : List Char) :
    (cs.flatMap Bytes.ofChar).splitOn delimiter =
      (cs.splitOn ';').map (·.flatMap Bytes.ofChar) := by
  induction cs with
  | nil => rfl
  | cons c cs ih =>
    rw [List.flatMap_cons, List.splitOn_cons_eq_if_modifyHead c]
    by_cases hc : c = ';'
    · subst hc
      have hsign : Bytes.ofChar ';' = [delimiter] := by decide
      rw [if_pos (by simp), hsign, List.singleton_append, List.splitOn_cons_eq_if_modifyHead,
        if_pos (by simp), ih]
      rfl
    -- No other character has the byte of a `;` among its own.
    · have hsign : delimiter ∉ Bytes.ofChar c :=
        fun hmem => hc ((Bytes.mem_ofChar_iff ';' (by decide)).mp hmem)
      rw [if_neg (by simpa using hc), splitOn_append_of_not_mem hsign, ih]
      cases cs.splitOn ';' <;> rfl

/-- The fields of a line are the bytes of the pieces of its text. -/
theorem fields_ofText (line : String) :
    fields (Bytes.ofText line) = (pieces line).map Bytes.ofText := by
  rw [fields, Bytes.ofText_eq_flatMap, splitOn_flatMap_ofChar, pieces, List.map_map]
  simp [Function.comp_def, Bytes.ofText_eq_flatMap]

theorem pieces_append_delimiter (text : String) {seconds : String} (h : ';' ∉ seconds.toList) :
    pieces (text ++ ";" ++ seconds) = pieces text ++ [seconds] := by
  have hlist : (text ++ ";" ++ seconds).toList = text.toList ++ ';' :: seconds.toList := by
    simp
  rw [pieces, hlist, List.splitOn_append_cons_self, List.splitOn_eq_singleton h, List.map_append]
  simp [pieces]

theorem intercalate_pieces (text : String) : ";".intercalate (pieces text) = text := by
  apply String.toList_inj.mp
  rw [String.toList_intercalate]
  simp [pieces, Function.comp_def]

theorem pieces_ne_nil (text : String) : pieces text ≠ [] := by
  simp [pieces]

/-! ## Lines -/

/-- The bytes of a line that holds a record are gathered until the line ends. -/
theorem lines_record_append {bytes : Bytes} (hbytes : ∀ byte ∈ bytes, endsLine byte = false)
    (reversed rest : Bytes) :
    lines (.record reversed) (bytes ++ rest) =
      lines (.record (bytes.reverse ++ reversed)) rest := by
  induction bytes generalizing reversed with
  | nil => rfl
  | cons byte bytes ih =>
    obtain ⟨hbyte, hbytes⟩ := List.forall_mem_cons.mp hbytes
    rw [List.cons_append, lines, hbyte]
    simp only [Bool.false_eq_true, if_false]
    rw [ih hbytes, List.reverse_cons, List.append_assoc, List.singleton_append]

theorem lines_start_ending {ending : Bytes} (hending : ∀ byte ∈ ending, endsLine byte = true)
    (rest : Bytes) : lines .start (ending ++ rest) = lines .start rest := by
  induction ending with
  | nil => rfl
  | cons byte ending ih =>
    obtain ⟨hbyte, hending⟩ := List.forall_mem_cons.mp hending
    rw [List.cons_append, lines, if_pos hbyte, ih hending]

/-- A line that is neither empty nor a comment holds a record. -/
theorem lines_start_append {bytes : Bytes} (hsome : bytes ≠ [])
    (hcomment : bytes.head? ≠ some commentSign) (hbytes : ∀ byte ∈ bytes, endsLine byte = false)
    (rest : Bytes) : lines .start (bytes ++ rest) = lines (.record bytes.reverse) rest := by
  obtain ⟨first, others, rfl⟩ := List.exists_cons_of_ne_nil hsome
  obtain ⟨hfirst, hothers⟩ := List.forall_mem_cons.mp hbytes
  have hsign : first ≠ commentSign := fun heq => hcomment (heq ▸ rfl)
  rw [List.cons_append, lines, hfirst]
  simp only [Bool.false_eq_true, if_false, beq_iff_eq, hsign]
  rw [lines_record_append hothers, List.reverse_cons]

theorem lines_record_ending {ending : Bytes} (hsome : ending ≠ [])
    (hending : ∀ byte ∈ ending, endsLine byte = true) (reversed rest : Bytes) :
    lines (.record reversed) (ending ++ rest) = reversed.reverse :: lines .start rest := by
  obtain ⟨byte, ending, rfl⟩ := List.exists_cons_of_ne_nil hsome
  obtain ⟨hbyte, hending⟩ := List.forall_mem_cons.mp hending
  rw [List.cons_append, lines, if_pos hbyte, lines_start_ending hending]

/-! ## Texts -/

/-- Whether a character ends a line. -/
def IsBreak (c : Char) : Prop := c = '\r' ∨ c = '\n'

theorem endsLine_ofText {text : String} (h : ∀ c ∈ text.toList, ¬IsBreak c) :
    ∀ byte ∈ Bytes.ofText text, endsLine byte = false := by
  intro byte hbyte
  rw [Bytes.ofText_eq_flatMap] at hbyte
  obtain ⟨c, hc, hbyte⟩ := List.mem_flatMap.mp hbyte
  rw [Bool.eq_false_iff, endsLine, ne_eq, Bool.or_eq_true, beq_iff_eq, beq_iff_eq]
  rintro (rfl | rfl)
  · exact h c hc (.inr ((Bytes.mem_ofChar_iff '\n' (by decide)).mp hbyte))
  · exact h c hc (.inl ((Bytes.mem_ofChar_iff '\r' (by decide)).mp hbyte))

theorem endsLine_ofText_of_isBreak {ending : String} (h : ∀ c ∈ ending.toList, IsBreak c) :
    ∀ byte ∈ Bytes.ofText ending, endsLine byte = true := by
  intro byte hbyte
  rw [Bytes.ofText_eq_flatMap] at hbyte
  obtain ⟨c, hc, hbyte⟩ := List.mem_flatMap.mp hbyte
  have hreturn : Bytes.ofChar '\r' = [carriageReturn] := by decide
  have hfeed : Bytes.ofChar '\n' = [lineFeed] := by decide
  rcases h c hc with rfl | rfl
  · rw [hreturn, List.mem_singleton] at hbyte
    exact hbyte ▸ rfl
  · rw [hfeed, List.mem_singleton] at hbyte
    exact hbyte ▸ rfl

/-- The byte order mark. -/
def mark : Char := '\uFEFF'

/-- Nothing is taken off a text that does not begin with a byte order mark. -/
theorem withoutMark_ofText {text : String} (h : text.toList.head? ≠ some mark) :
    withoutMark (Bytes.ofText text) = Bytes.ofText text := by
  unfold withoutMark
  split
  · rename_i rest hbytes
    have hmark : Bytes.ofChar mark = [0xEF, 0xBB, 0xBF] := by decide
    rw [Bytes.ofText_eq_flatMap] at hbytes
    cases htext : text.toList with
    | nil => simp [htext] at hbytes
    | cons c cs =>
      rw [htext, List.flatMap_cons] at hbytes
      -- The three bytes of the mark are those of a whole character, so it is the first one.
      have hc : c = mark := Bytes.ofChar_append_inj (hbytes.trans (by rw [hmark]; rfl))
      exact absurd (by rw [htext, hc, List.head?_cons]) h
  · rfl

end Records

namespace Dataset

open Records

/-! ## Lines of a file of samples -/

/-- A text and the seconds it took, as a file has them. -/
structure Line where
  /-- The text. -/
  text : String
  /-- What stands for the seconds. -/
  seconds : String
  deriving DecidableEq, Repr

namespace Line

/-- How a file has the line. -/
def written (line : Line) : String := line.text ++ ";" ++ line.seconds

/-- A line that is one line of a file, no comment, and has its seconds in the last field. -/
structure WellFormed (line : Line) : Prop where
  /-- The text is on one line. -/
  text_unbroken : ∀ c ∈ line.text.toList, ¬IsBreak c
  /-- The line is no comment. -/
  text_head : line.text.toList.head? ≠ some '#'
  /-- The seconds are on the same line. -/
  seconds_unbroken : ∀ c ∈ line.seconds.toList, ¬IsBreak c
  /-- The seconds are one field. -/
  seconds_field : ';' ∉ line.seconds.toList

/-- The text with its seconds, if they are a finite number. -/
def pair? (line : Line) : Option (String × Float) :=
  (duration? line.seconds).map fun seconds => (line.text, seconds)

theorem toList_written (line : Line) :
    line.written.toList = line.text.toList ++ ';' :: line.seconds.toList := by
  simp [written]

/-- A line begins with its text, and with a `;` if that is empty. -/
theorem head?_written_ne {line : Line} {c : Char} (hc : c ≠ ';')
    (h : line.text.toList.head? ≠ some c) : line.written.toList.head? ≠ some c := by
  rw [toList_written]
  cases htext : line.text.toList with
  | nil => simpa using hc.symm
  | cons first others => simpa [htext] using h

theorem endsLine_written {line : Line} (hline : line.WellFormed) :
    ∀ byte ∈ Bytes.ofText line.written, endsLine byte = false := by
  refine endsLine_ofText ?_
  rw [toList_written]
  intro c hc
  rcases List.mem_append.mp hc with htext | hrest
  · exact hline.text_unbroken c htext
  · rcases List.mem_cons.mp hrest with rfl | hseconds
    · simp [IsBreak]
    · exact hline.seconds_unbroken c hseconds

theorem ofText_written_ne_nil (line : Line) : Bytes.ofText line.written ≠ [] := by
  rw [Bytes.ofText_eq_flatMap, toList_written]
  simp [Bytes.ofChar_ne_nil]

/-- The bytes of a line are gathered as those of one record. -/
theorem lines_start_written {line : Line} (hline : line.WellFormed) (rest : Bytes) :
    lines .start (Bytes.ofText line.written ++ rest) =
      lines (.record (Bytes.ofText line.written).reverse) rest :=
  lines_start_append line.ofText_written_ne_nil
    (Bytes.head?_ofText_ne '#' (by decide)
      (head?_written_ne (by decide) hline.text_head))
    (endsLine_written hline) rest

/-- The pieces of a line are put together again to its text, apart from the last one. -/
theorem pair?_pieces {line : Line} (hline : line.WellFormed) :
    Dataset.pair? (pieces line.written) = line.pair? := by
  obtain ⟨field, others, hreverse⟩ :=
    List.exists_cons_of_ne_nil (List.reverse_ne_nil_iff.mpr (pieces_ne_nil line.text))
  rw [written, pieces_append_delimiter _ hline.seconds_field, Dataset.pair?, List.reverse_append,
    hreverse]
  simp only [List.reverse_singleton, List.singleton_append]
  rw [← hreverse, List.reverse_reverse, intercalate_pieces]
  rfl

end Line

/-- What stands between two lines, or after the last one: carriage returns and line feeds, at least
one of them. -/
def IsTerminator (ending : String) : Prop :=
  ending ≠ "" ∧ ∀ c ∈ ending.toList, IsBreak c

/-- A file made of lines: a terminator stands between any two, and may stand after the last one. -/
inductive Joined : List Line → String → Prop where
  | nil : Joined [] ""
  | last (line : Line) : Joined [line] line.written
  | cons (line : Line) {ending : String} (hending : IsTerminator ending) {lines : List Line}
      {file : String} (hfile : Joined lines file) :
      Joined (line :: lines) (line.written ++ ending ++ file)

/-- The lines of a file are the lines it is made of. -/
theorem Joined.lines_start {lines : List Line} {file : String} (hfile : Joined lines file)
    (hlines : ∀ line ∈ lines, line.WellFormed) :
    Records.lines .start (Bytes.ofText file) =
      lines.map fun line => Bytes.ofText line.written := by
  induction hfile with
  | nil => rfl
  | last line =>
    have hline := hlines line List.mem_cons_self
    have hgather := Line.lines_start_written hline []
    rw [List.append_nil] at hgather
    rw [hgather, Records.lines, List.reverse_reverse]
    rfl
  | cons line hending hfile ih =>
    obtain ⟨hline, hlines⟩ := List.forall_mem_cons.mp hlines
    obtain ⟨hsome, hbreaks⟩ := hending
    have hending := Bytes.ofText_ne_nil hsome
    rw [Bytes.ofText_append, Bytes.ofText_append, List.append_assoc, Line.lines_start_written hline,
      lines_record_ending hending (endsLine_ofText_of_isBreak hbreaks), List.reverse_reverse,
      ih hlines, List.map_cons]

theorem Joined.head?_ne {lines : List Line} {file : String} (hfile : Joined lines file)
    (hmark : ∀ line ∈ lines.head?, line.text.toList.head? ≠ some mark) :
    file.toList.head? ≠ some mark := by
  cases hfile with
  | nil => simp
  | last line => exact Line.head?_written_ne (by decide) (hmark line rfl)
  | cons line hending hfile =>
    have hline := Line.head?_written_ne (by decide) (hmark line rfl)
    have hsome : line.written.toList ≠ [] := by simp [Line.toList_written]
    obtain ⟨first, others, hwritten⟩ := List.exists_cons_of_ne_nil hsome
    rw [hwritten] at hline
    simpa [hwritten] using hline

/-- The records of a file are the pieces of its lines. -/
theorem Joined.records {lines : List Line} {file : String} (hfile : Joined lines file)
    (hlines : ∀ line ∈ lines, line.WellFormed)
    (hmark : ∀ line ∈ lines.head?, line.text.toList.head? ≠ some mark) :
    Records.ofBytes (Bytes.ofText file) =
      lines.map fun line => (pieces line.written).map Bytes.ofText := by
  rw [Records.ofBytes, withoutMark_ofText (hfile.head?_ne hmark), hfile.lines_start hlines,
    List.map_map]
  exact List.map_congr_left fun line _ => fields_ofText line.written

/-- A file made of lines is read as the texts of its lines with the seconds beside them, in the same
order and as often, those lines left out whose seconds are no finite number: any signs that end a
line may stand between the lines, and a text is all before the last `;` of its line. -/
theorem ofBytes_joined {lines : List Line} {file : String} (hfile : Joined lines file)
    (hlines : ∀ line ∈ lines, line.WellFormed)
    (hmark : ∀ line ∈ lines.head?, line.text.toList.head? ≠ some mark) :
    ofBytes (Bytes.ofText file) = .ok (ofPairs (lines.filterMap Line.pair?)) := by
  have hrecords : (Records.ofBytes (Bytes.ofText file)).mapM
      (fun record => record.mapM Bytes.text?) =
        some (lines.map fun line => pieces line.written) := by
    rw [hfile.records hlines hmark, List.mapM_map]
    simp only [Function.comp_def, Bytes.mapM_text?_ofText]
    exact List.mapM_pure
  have hpairs : (lines.map fun line => pieces line.written).filterMap Dataset.pair? =
      lines.filterMap Line.pair? := by
    rw [List.filterMap_map]
    exact List.filterMap_congr fun line hline => Line.pair?_pieces (hlines line hline)
  have hread : ofBytes? (Bytes.ofText file) = some (ofPairs (lines.filterMap Line.pair?)) := by
    rw [ofBytes?, hrecords, ← hpairs]
    rfl
  rw [ofBytes, hread]

/-- Three lines with three kinds of ends, the second one without a number. -/
theorem ofBytes_joined_semicolons :
    let first : Line := ⟨"[word=\"a;b\"] \"#;\"", "1.5"⟩
    let second : Line := ⟨";#1:[]", "slow"⟩
    let third : Line := ⟨";;", " 2 "⟩
    let file := "[word=\"a;b\"] \"#;\";1.5\r\n;#1:[];slow\n;;; 2 \r"
    Joined [first, second, third] file ∧ (∀ line ∈ [first, second, third], line.WellFormed) ∧
      first.text.toList.head? ≠ some mark ∧
      ofBytes (Bytes.ofText file) =
        .ok (ofPairs [("[word=\"a;b\"] \"#;\"", 1.5), (";;", 2.0)]) := by
  intro first second third file
  have hterminator : IsTerminator "\r\n" ∧ IsTerminator "\n" ∧ IsTerminator "\r" := by
    simp [IsTerminator, IsBreak]
  obtain ⟨hboth, hfeed, hreturn⟩ := hterminator
  have hfile : Joined [first, second, third] file :=
    .cons first hboth (.cons second hfeed (.cons third hreturn .nil))
  have hlines : ∀ line ∈ [first, second, third], line.WellFormed := by
    simp only [List.forall_mem_cons]
    refine ⟨?_, ?_, ?_, by simp⟩ <;> constructor <;> simp [first, second, third, IsBreak]
  have hmark : first.text.toList.head? ≠ some mark := by decide
  have hpairs : [first, second, third].filterMap Line.pair? =
      [("[word=\"a;b\"] \"#;\"", 1.5), (";;", 2.0)] := by
    decide +kernel
  have hread := ofBytes_joined hfile hlines (by simpa using hmark)
  exact ⟨hfile, hlines, hmark, hpairs ▸ hread⟩

end Dataset

end CorpusCost
