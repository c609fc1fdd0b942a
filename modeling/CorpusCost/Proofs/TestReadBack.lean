import CorpusCost.Proofs.RegexReadBack
import CorpusCost.Proofs.Regexes
import CorpusCost.Condition.Parser

/-!
# Tests read back

The written form of a single test of a token. No name is reserved, so that a test of an attribute
may begin like a look-up: it is told apart by what follows the name, which is no opening bracket.
-/

set_option autoImplicit false

namespace CorpusCost

open CorpusCost.Parser

variable {α : Type}

/-! ## Brackets -/

/-- Round brackets are written without blanks. -/
theorem parenthesized_written {p : Parser α} {s rest : List Char} {a : α} (hs : Stops isBlank s)
    (h : p s = .read a (')' :: rest)) : parenthesized p ('(' :: s) = .read a rest := by
  refine between_eq_read.mpr ⟨'(', s, ')', ')' :: rest, ?_, h, afterBlanks_char rfl rest⟩
  exact spaced_eq_read.mpr ⟨s, char_cons _ _, dropWhile_of_stops hs⟩

theorem parenthesized_of_head?_ne {p : Parser α} {s : List Char}
    (h : (s.dropWhile isBlank).head? ≠ some '(') : parenthesized p s = .miss := by
  rw [parenthesized, between_eq_miss, spaced_eq_miss]
  exact .inl (char_eq_miss.mpr h)

theorem parenthesized_eq_read {p : Parser α} {s rest : List Char} {a : α}
    (h : parenthesized p s = .read a rest) : ∃ inside after, p inside = .read a after := by
  obtain ⟨_, inside, _, after, _, hinside, _⟩ := between_eq_read.mp h
  exact ⟨inside, after, hinside⟩

/-- A keyword that an opening bracket must follow does not claim the name of an attribute. -/
theorem keyword_parenthesized_name {word : String} {cs rest : List Char} {p : Parser α}
    (hcs : ∀ c ∈ cs, isNameChar c = true) (hword : word.toList.all isNameChar = true)
    (hrest : Stops isNameChar rest) (hbracket : (rest.dropWhile isBlank).head? ≠ some '(') :
    (keyword word >>= fun _ => parenthesized p) (cs ++ rest) = .miss := by
  rw [bind_eq_miss]
  by_cases hne : cs = word.toList
  · subst hne
    exact .inr ⟨(), rest, keyword_eq_read.mpr ⟨rfl, hrest⟩, parenthesized_of_head?_ne hbracket⟩
  · exact .inl (keyword_name hcs hword hrest hne)

/-- A comma behind a number. -/
theorem number_comma_written {s rest rest' : List Char} {n : Nat} (h : number s = .read n rest) :
    number (Text.natural n ++ ',' :: rest') = .read n (',' :: rest') :=
  number_readBack h (stops_cons.mpr rfl)

theorem stops_isBlank_natural (n : Nat) (rest : List Char) :
    Stops isBlank (Text.natural n ++ rest) := by
  obtain ⟨d, ds, hn, hd⟩ := natural_eq_cons n
  rw [hn]
  exact stops_cons.mpr (isBlank_of_isNameChar (isNameChar_of_isDigit hd))

/-! ## Literal texts -/

/-- A letter of a literal text; a backslash makes the next character stand for itself. -/
def literalLetter : Parser Char :=
  (do
    let _ ← char '\\'
    anyChar)
  <|> noneOf ['"', '\\']

theorem literalLetter_escapedChar (c : Char) (rest : List Char) :
    literalLetter (escapedChar c ++ rest) = .read c rest := by
  rw [literalLetter, orElse_eq_read, bind_eq_read, bind_eq_miss]
  by_cases hc : c = '"' ∨ c = '\\'
  · rw [escapedChar, if_pos hc]
    exact .inl ⟨'\\', c :: rest, char_cons _ _, anyChar_eq_read.mpr rfl⟩
  · rw [escapedChar, if_neg hc]
    have hslash : c ≠ '\\' := fun h => hc (.inr h)
    refine .inr ⟨.inl (char_eq_miss.mpr (by simpa using hslash)), noneOf_eq_read.mpr ⟨?_, rfl⟩⟩
    simpa using hc

/-- A literal text is read back from its written form, whatever follows its closing quote. -/
theorem literal_quotedLiteral (value : String) (rest : List Char) :
    literal (quotedLiteral value ++ rest) = .read value rest := by
  have hletters : ∀ cs : List Char,
      many literalLetter (cs.flatMap escapedChar ++ '"' :: rest) = .read cs ('"' :: rest) := by
    intro cs
    induction cs with
    | nil =>
      refine many_of_miss ?_
      rw [literalLetter, orElse_eq_miss, bind_eq_miss, noneOf, satisfy_eq_miss]
      exact ⟨.inl (char_eq_miss.mpr (by simp)), by simp⟩
    | cons c cs ih =>
      rw [List.flatMap_cons, List.append_assoc]
      refine many_eq_read_cons.mpr ⟨_, literalLetter_escapedChar c _, ?_, ih⟩
      refine length_lt_append ?_ _
      unfold escapedChar
      split <;> simp
  rw [literal, bind_eq_read]
  refine ⟨value.toList, rest, ?_, by rw [String.ofList_toList]; rfl⟩
  refine between_eq_read.mpr ⟨'"', literalText value ++ '"' :: rest, '"', '"' :: rest, ?_,
    hletters value.toList, char_cons _ _⟩
  simp [quotedLiteral]

/-! ## Comparisons -/

theorem Comparison.parser_eq (s : List Char) :
    Comparison.parser s = ((fun _ => .atMost) <$> text "<=" <|>
      ((fun _ => .atLeast) <$> text ">=" <|> ((fun _ => .equal) <$> char '=' <|> (do
        let _ ← char '~'
        let threshold ← optional number
        pure (.similar threshold)))) : Parser Comparison) s := rfl

/-- The threshold of a comparison, where it has one, fits its range. -/
def Comparison.Fits (comparison : Comparison) : Prop :=
  ∀ threshold, comparison = .similar (some threshold) → threshold ≤ maxUnsigned

theorem Comparison.fits_of_read {s rest : List Char} {comparison : Comparison}
    (h : Comparison.parser s = .read comparison rest) : comparison.Fits := by
  rintro threshold rfl
  simp only [Comparison.parser_eq, orElse_eq_read, map_eq_read, bind_eq_read, pure_eq_read] at h
  rcases h with ⟨_, h, -⟩ | ⟨-, ⟨_, h, -⟩ | ⟨-, ⟨_, h, -⟩ | ⟨-, _, mid, -, o, last, ho, h, -⟩⟩⟩
  · simp at h
  · simp at h
  · simp at h
  · obtain rfl : o = some threshold := by simpa using h
    rcases optional_eq_read.mp ho with ⟨n, hn, hnumber⟩ | ⟨hn, -, -⟩
    · obtain rfl : threshold = n := by simpa using hn
      obtain ⟨-, -, -, hle⟩ := numberUpTo_eq_read.mp hnumber
      exact hle
    · simp at hn

/-- A comparison is read from its sign and its threshold where no digit follows. -/
theorem Comparison.parser_written {comparison : Comparison} (hfits : comparison.Fits)
    {rest : List Char} (hrest : Stops Char.isDigit rest) :
    Comparison.parser (comparison.written ++ rest) = .read comparison rest := by
  simp only [Comparison.parser_eq, orElse_eq_read, map_eq_read, map_eq_miss, bind_eq_read,
    pure_eq_read, text_eq_read, text_eq_miss, char_eq_read, char_eq_miss]
  cases comparison with
  | atMost => exact .inl ⟨(), rfl, rfl⟩
  | atLeast => exact .inr ⟨by simp [Comparison.written], .inl ⟨(), rfl, rfl⟩⟩
  | equal =>
    exact .inr ⟨by simp [Comparison.written], .inr ⟨by simp [Comparison.written],
      .inl ⟨'=', rfl, rfl, rfl⟩⟩⟩
  | similar threshold =>
    have hthreshold : optional number ((threshold.map Text.natural).getD [] ++ rest) =
        .read threshold rest := by
      cases threshold with
      | none => exact optional_eq_read.mpr (.inr ⟨rfl, number_of_stops hrest, rfl⟩)
      | some n => exact optional_eq_read.mpr (.inl ⟨n, rfl, numberUpTo_natural (hfits n rfl) hrest⟩)
    have hwritten : (Comparison.similar threshold).written ++ rest =
        '~' :: ((threshold.map Text.natural).getD [] ++ rest) := by
      cases threshold <;> rfl
    rw [hwritten]
    exact .inr ⟨by simp, .inr ⟨by simp, .inr ⟨by simp, '~', _, ⟨rfl, rfl⟩, threshold, _,
      hthreshold, rfl, rfl⟩⟩⟩

/-- The sign of a comparison, as the first character after the name of an attribute. -/
theorem Comparison.written_eq_cons (comparison : Comparison) :
    ∃ c cs, comparison.written = c :: cs ∧ c ∈ ['=', '<', '>', '~'] := by
  cases comparison with
  | equal => exact ⟨'=', [], rfl, by decide⟩
  | atMost => exact ⟨'<', ['='], rfl, by decide⟩
  | atLeast => exact ⟨'>', ['='], rfl, by decide⟩
  | similar threshold =>
    cases threshold with
    | none => exact ⟨'~', [], rfl, by decide⟩
    | some n => exact ⟨'~', Text.natural n, rfl, by decide⟩

namespace Test

/-! ## Attributes -/

/-- What follows the name of an attribute: a `!` or the sign of a comparison. -/
def attributeSigns : List Char := ['!', '=', '<', '>', '~']

/-- A test of an attribute: a name, and behind it a sign, before which blanks may stand. -/
def IsAttribute (s : List Char) : Prop :=
  ∃ attr rest, name s = .read attr rest ∧
    ∃ c t, rest.dropWhile isBlank = c :: t ∧ c ∈ attributeSigns

theorem IsAttribute.eq_cons {s : List Char} (h : IsAttribute s) :
    ∃ c t, s = c :: t ∧ isNameStart c = true := by
  obtain ⟨attr, rest, hname, -⟩ := h
  obtain ⟨c, cs, -, hc, -, -, rfl⟩ := name_eq_read.mp hname
  exact ⟨c, cs ++ rest, rfl, hc⟩

/-- No bracket stands behind the name of an attribute. -/
theorem IsAttribute.eq_append {s : List Char} (h : IsAttribute s) :
    ∃ cs rest, s = cs ++ rest ∧ (∀ c ∈ cs, isNameChar c = true) ∧ Stops isNameChar rest ∧
      (rest.dropWhile isBlank).head? ≠ some '(' := by
  obtain ⟨attr, rest, hname, c, t, hrest, hc⟩ := h
  obtain ⟨d, ds, -, hd, hds, hstop, rfl⟩ := name_eq_read.mp hname
  refine ⟨d :: ds, rest, rfl, ?_, hstop, ?_⟩
  · intro e he
    rcases List.mem_cons.mp he with rfl | he
    · exact isNameChar_of_isNameStart hd
    · exact hds e he
  · rw [hrest]
    intro hhead
    obtain rfl : c = '(' := by simpa using hhead
    exact absurd hc (by decide)

/-- No further character of a name stands before a sign, with any blanks around the `!`. -/
theorem stops_sign (negated : Bool) {c : Char} (hc : c ∈ ['=', '<', '>', '~'])
    {gap gap' : List Char} (hgap : ∀ b ∈ gap, isBlank b = true)
    (hgap' : ∀ b ∈ gap', isBlank b = true) (t : List Char) :
    Stops isNameChar (gap ++ (bangText negated ++ (gap' ++ c :: t))) := by
  refine Stops.behind_blanks (stops_bangText ?_ rfl) hgap fun _ => isBlank_of_isNameChar
  exact Stops.behind_blanks (stops_cons.mpr (eq_false_of_any hc (by decide))) hgap'
    fun _ => isBlank_of_isNameChar

/-- What follows the name of an attribute is a sign, behind any blanks. -/
theorem isAttribute_of_sign {s rest t : List Char} {attr : String} {negated : Bool} {c : Char}
    (h : name s = .read attr rest) (hc : c ∈ ['=', '<', '>', '~']) (gap gap' : List Char)
    (hgap : ∀ b ∈ gap, isBlank b = true) (hgap' : ∀ b ∈ gap', isBlank b = true) :
    IsAttribute (attr.toList ++ (gap ++ (bangText negated ++ (gap' ++ c :: t)))) := by
  have hblank : isBlank c = false := eq_false_of_any hc (by decide)
  refine ⟨attr, _, name_readBack h (stops_sign negated hc hgap hgap' t), ?_⟩
  cases negated with
  | true => exact ⟨'!', gap' ++ c :: t, dropWhile_blanks hgap (stops_cons.mpr rfl), by decide⟩
  | false =>
    refine ⟨c, t, ?_, List.mem_cons_of_mem _ hc⟩
    change (gap ++ (gap' ++ c :: t)).dropWhile isBlank = c :: t
    rw [List.dropWhile_append_of_pos hgap, dropWhile_blanks hgap' (stops_cons.mpr hblank)]

/-- What an attribute is compared with, given its name and whether a `!` stands behind it. -/
def comparedTest (nesting : Nesting) (attr : String) (negated : Bool) : Parser Test :=
  (do
    text "=="
    let value ← afterBlanks literal
    pure (.exactly attr negated value))
  <|> (do
    let comparison ← Comparison.parser
    let regex ← afterBlanks (Regex.quoted nesting)
    pure (.matching attr negated comparison regex))

theorem attributeTest_eq (nesting : Nesting) (s : List Char) : attributeTest nesting s =
    (name >>= fun attr => present (afterBlanks (char '!')) >>= fun negated =>
      blanks >>= fun _ => comparedTest nesting attr negated : Parser Test) s := rfl

/-- The reader of an attribute's name, an optional `!` and a comparison takes the written form of
these back, and any blanks around the `!`. -/
theorem attributeTest_of_sign {nesting : Nesting} {s rest t after : List Char} {attr : String}
    {negated : Bool} {test : Test} {c : Char} (hname : name s = .read attr rest)
    (hc : c ∈ ['=', '<', '>', '~']) (gap gap' : List Char)
    (hgap : ∀ b ∈ gap, isBlank b = true) (hgap' : ∀ b ∈ gap', isBlank b = true)
    (h : comparedTest nesting attr negated (c :: t) = .read test after) :
    attributeTest nesting (attr.toList ++ (gap ++ (bangText negated ++ (gap' ++ c :: t)))) =
      .read test after := by
  have hblank : isBlank c = false := eq_false_of_any hc (by decide)
  have hskip : (gap' ++ c :: t).dropWhile isBlank = c :: t :=
    dropWhile_blanks hgap' (stops_cons.mpr hblank)
  obtain ⟨v, hbang, hv⟩ : ∃ v, present (afterBlanks (char '!'))
      (gap ++ (bangText negated ++ (gap' ++ c :: t))) = .read negated v ∧
        v.dropWhile isBlank = c :: t := by
    cases negated with
    | true =>
      refine ⟨gap' ++ c :: t, present_eq_read.mpr (.inl ⟨rfl, '!', ?_⟩), hskip⟩
      rw [afterBlanks_apply]
      exact congrArg (char '!') (dropWhile_blanks hgap (stops_cons.mpr rfl))
    | false =>
      have hall : (gap ++ (gap' ++ c :: t)).dropWhile isBlank = c :: t := by
        rw [List.dropWhile_append_of_pos hgap, hskip]
      have hsign : c ≠ '!' := by
        rintro rfl
        exact absurd hc (by decide)
      refine ⟨gap ++ (gap' ++ c :: t), present_eq_read.mpr (.inr ⟨rfl, ?_, rfl⟩), hall⟩
      change char '!' ((gap ++ (gap' ++ c :: t)).dropWhile isBlank) = .miss
      rw [hall, char_eq_miss]
      simpa using hsign
  rw [attributeTest_eq, bind_of_read (name_readBack hname (stops_sign negated hc hgap hgap' t)),
    bind_of_read hbang, bind_of_read (blanks_apply v), hv]
  exact h

/-- A comparison with an expression, which blanks may come before, is no comparison with a literal
text. -/
theorem comparedTest_written {nesting : Nesting} {attr : String} {negated : Bool}
    {comparison : Comparison} (hfits : comparison.Fits) {gap t rest : List Char} {regex : Regex}
    (hgap : ∀ b ∈ gap, isBlank b = true)
    (hregex : Regex.quoted nesting ('"' :: t) = .read regex rest) :
    comparedTest nesting attr negated (comparison.written ++ (gap ++ '"' :: t)) =
      .read (.matching attr negated comparison regex) rest := by
  have hdigit : Stops Char.isDigit (gap ++ '"' :: t) :=
    Stops.behind_blanks (stops_cons.mpr rfl) hgap
      fun _ hd => isBlank_of_isNameChar (isNameChar_of_isDigit hd)
  have hequal : (gap ++ '"' :: t).head? ≠ some '=' := by
    have hstops : Stops (· == '=') (gap ++ '"' :: t) := by
      refine Stops.behind_blanks (stops_cons.mpr rfl) hgap fun c hc => ?_
      obtain rfl : c = '=' := by simpa using hc
      rfl
    intro hhead
    simpa using hstops '=' hhead
  refine orElse_eq_read.mpr (.inr ⟨?_, ?_⟩)
  · rw [bind_eq_miss, text_eq_miss]
    refine .inl ?_
    cases comparison with
    | equal =>
      rintro ⟨u, hu⟩
      have hrest : '=' :: u = gap ++ '"' :: t := (List.cons.inj hu).2
      exact hequal (by rw [← hrest]; rfl)
    | atMost => simp [Comparison.written]
    | atLeast => simp [Comparison.written]
    | similar threshold => cases threshold <;> simp [Comparison.written]
  · simp only [bind_eq_read]
    refine ⟨comparison, _, Comparison.parser_written hfits hdigit, regex, rest, ?_, rfl⟩
    rw [afterBlanks_apply, dropWhile_blanks hgap (stops_cons.mpr rfl)]
    exact hregex

/-- A test of an attribute with an expression is read from its name, its comparison and its
expression, with any blanks between them. -/
theorem attributeTest_of_matching {nesting : Nesting} {s rest t after : List Char} {attr : String}
    {comparison : Comparison} {regex : Regex} (hname : name s = .read attr rest) (negated : Bool)
    (hfits : comparison.Fits) (gap gap' gap'' : List Char) (hgap : ∀ b ∈ gap, isBlank b = true)
    (hgap' : ∀ b ∈ gap', isBlank b = true) (hgap'' : ∀ b ∈ gap'', isBlank b = true)
    (hregex : Regex.quoted nesting ('"' :: t) = .read regex after) :
    IsAttribute (attr.toList ++ (gap ++ (bangText negated ++
        (gap' ++ (comparison.written ++ (gap'' ++ '"' :: t)))))) ∧
      attributeTest nesting (attr.toList ++ (gap ++ (bangText negated ++
        (gap' ++ (comparison.written ++ (gap'' ++ '"' :: t)))))) =
          .read (.matching attr negated comparison regex) after := by
  obtain ⟨c, cs, hcs, hc⟩ := comparison.written_eq_cons
  have hcompared : comparedTest nesting attr negated (comparison.written ++ (gap'' ++ '"' :: t)) =
      .read (.matching attr negated comparison regex) after :=
    comparedTest_written hfits hgap'' hregex
  rw [hcs, List.cons_append] at hcompared ⊢
  exact ⟨isAttribute_of_sign hname hc gap gap' hgap hgap',
    attributeTest_of_sign hname hc gap gap' hgap hgap' hcompared⟩

/-- What a test of an attribute was read from. -/
theorem attributeTest_eq_read {nesting : Nesting} {s rest : List Char} {test : Test}
    (h : attributeTest nesting s = .read test rest) :
    ∃ attr after negated, name s = .read attr after ∧
      ((∃ value, test = .exactly attr negated value) ∨
        ∃ comparison regex inside, test = .matching attr negated comparison regex ∧
          comparison.Fits ∧ Regex.quoted nesting inside = .read regex rest) := by
  rw [attributeTest_eq] at h
  simp only [bind_eq_read] at h
  obtain ⟨attr, after, hname, negated, _, -, _, _, -, hcompared⟩ := h
  refine ⟨attr, after, negated, hname, ?_⟩
  rcases orElse_eq_read.mp hcompared with hexactly | ⟨-, hmatching⟩
  · simp only [bind_eq_read, pure_eq_read] at hexactly
    obtain ⟨_, _, -, value, _, -, htest, -⟩ := hexactly
    exact .inl ⟨value, htest.symm⟩
  · simp only [bind_eq_read, pure_eq_read] at hmatching
    obtain ⟨comparison, _, hcomparison, regex, _, hregex, htest, rfl⟩ := hmatching
    exact .inr ⟨comparison, regex, _, htest.symm, Comparison.fits_of_read hcomparison, hregex⟩

/-- A test of an attribute is read back, whatever follows its closing quote. -/
theorem attributeTest_readBack {nesting : Nesting} {s rest : List Char} {test : Test}
    (h : attributeTest nesting s = .read test rest) (rest' : List Char) :
    IsAttribute (test.written ++ rest') ∧
      attributeTest nesting (test.written ++ rest') =
        .read (test.mapRegexes Regex.fused) rest' := by
  obtain ⟨attr, after, negated, hname, ⟨value, rfl⟩ | ⟨comparison, regex, inside, rfl, hfits,
    hregex⟩⟩ := attributeTest_eq_read h
  · have hwritten : (Test.exactly attr negated value).written ++ rest' =
        attr.toList ++ (bangText negated ++ '=' :: '=' :: (quotedLiteral value ++ rest')) := by
      simp [Test.written]
    rw [hwritten]
    refine ⟨isAttribute_of_sign hname (by decide) [] [] nofun nofun,
      attributeTest_of_sign hname (by decide) [] [] nofun nofun ?_⟩
    refine orElse_eq_read.mpr (.inl ?_)
    simp only [bind_eq_read, text_eq_read]
    exact ⟨(), _, rfl, value, rest', literal_quotedLiteral value rest', rfl⟩
  · have hwritten : (Test.matching attr negated comparison regex).written ++ rest' =
        attr.toList ++ (bangText negated ++ (comparison.written ++
          '"' :: (regex.written ++ '"' :: rest'))) := by
      simp [Test.written, Regex.quotedText]
    have hquoted : regex.quotedText ++ rest' = '"' :: (regex.written ++ '"' :: rest') := by
      simp [Regex.quotedText]
    have hback := Regex.quoted_readBack hregex rest'
    rw [hquoted] at hback
    rw [hwritten]
    exact attributeTest_of_matching hname negated hfits [] [] [] nofun nofun nofun hback

/-! ## Positions -/

/-- A token number or a range of them is read back where neither a digit nor a dash follows. -/
theorem positionTest_readBack {s rest rest' : List Char} {test : Test}
    (h : positionTest s = .read test rest) (hdigit : Stops Char.isDigit rest')
    (hdash : rest'.head? ≠ some '-') :
    (∃ t, test.written ++ rest' = '#' :: t) ∧ test.mapRegexes Regex.fused = test ∧
      positionTest (test.written ++ rest') = .read test rest' := by
  rw [positionTest] at h
  simp only [bind_eq_read] at h
  obtain ⟨_, _, -, first, _, hfirst, last, _, hlast, h⟩ := h
  cases last with
  | some last =>
    obtain ⟨rfl, -⟩ := pure_eq_read.mp h
    obtain ⟨mid, after, hnumber⟩ : ∃ mid after, number mid = .read last after := by
      rcases optional_eq_read.mp hlast with ⟨n, hn, hread⟩ | ⟨hn, -, -⟩
      · obtain rfl : last = n := by simpa using hn
        obtain ⟨_, mid, -, hread⟩ := bind_eq_read.mp hread
        exact ⟨mid, _, hread⟩
      · simp at hn
    have hwritten : (Test.positionRange first last).written ++ rest' =
        '#' :: (Text.natural first ++ '-' :: (Text.natural last ++ rest')) := by
      simp [Test.written]
    rw [hwritten]
    refine ⟨⟨_, rfl⟩, rfl, ?_⟩
    rw [positionTest]
    simp only [bind_eq_read]
    refine ⟨'#', _, char_cons _ _, first, _, number_readBack hfirst (stops_cons.mpr rfl),
      some last, rest', optional_eq_read.mpr (.inl ⟨last, rfl, ?_⟩), rfl⟩
    rw [bind_of_read (char_cons _ _)]
    exact number_readBack hnumber hdigit
  | none =>
    obtain ⟨rfl, -⟩ := pure_eq_read.mp h
    refine ⟨⟨_, rfl⟩, rfl, ?_⟩
    rw [positionTest]
    simp only [bind_eq_read]
    refine ⟨'#', _, char_cons _ _, first, _, number_readBack hfirst hdigit,
      none, rest', optional_eq_read.mpr (.inr ⟨rfl, ?_, rfl⟩), rfl⟩
    exact bind_of_miss (char_eq_miss.mpr hdash) _

/-! ## Look-ups -/

/-- The arguments of a look-up are read back before a closing bracket. -/
theorem similarityArgs_readBack {nesting : Nesting} {s rest : List Char} {args : SimilarityArgs}
    (h : similarityArgs nesting s = .read args rest) (rest' : List Char) :
    Stops isBlank (args.written ++ ')' :: rest') ∧
      similarityArgs nesting (args.written ++ ')' :: rest') =
        .read (args.mapRegexes Regex.fused) (')' :: rest') := by
  rw [similarityArgs] at h ⊢
  rcases orElse_eq_read.mp h with hnumbers | ⟨-, hpatterns⟩
  · simp only [bind_eq_read, pure_eq_read] at hnumbers
    obtain ⟨first, _, hfirst, _, _, -, second, _, hsecond, rfl, -⟩ := hnumbers
    have hwritten : (SimilarityArgs.numbers first second).written ++ ')' :: rest' =
        Text.natural first ++ ',' :: ' ' :: (Text.natural second ++ ')' :: rest') := by
      simp [SimilarityArgs.written]
    rw [hwritten]
    refine ⟨stops_isBlank_natural _ _, orElse_eq_read.mpr (.inl ?_)⟩
    simp only [bind_eq_read]
    exact ⟨first, _, number_comma_written hfirst, ',', _,
      comma_written (stops_isBlank_natural _ _), second, _,
      number_readBack hsecond (stops_cons.mpr rfl), rfl⟩
  · simp only [bind_eq_read, pure_eq_read] at hpatterns
    obtain ⟨first, _, hfirst, _, _, -, second, _, hsecond, _, _, -, third, _, hthird, rfl, -⟩ :=
      hpatterns
    have hwritten : (SimilarityArgs.patterns first second third).written ++ ')' :: rest' =
        first.quotedText ++ ',' :: ' ' :: (second.quotedText ++ ',' :: ' ' ::
          (third.quotedText ++ ')' :: rest')) := by
      simp [SimilarityArgs.written, Text.joined]
    have hquote : ∀ (regex : Regex) (t : List Char), Stops isBlank (regex.quotedText ++ t) := by
      intro regex t
      exact stops_cons.mpr rfl
    rw [hwritten]
    refine ⟨hquote _ _, orElse_eq_read.mpr (.inr ⟨?_, ?_⟩)⟩
    · rw [bind_eq_miss]
      exact .inl (number_of_stops (stops_cons.mpr rfl))
    · simp only [bind_eq_read]
      exact ⟨first.fused, _, Regex.quoted_readBack hfirst _, ',', _, comma_written (hquote _ _),
        second.fused, _, Regex.quoted_readBack hsecond _, ',', _, comma_written (hquote _ _),
        third.fused, _, Regex.quoted_readBack hthird _, rfl⟩

/-- A look-up is read back, whatever follows its closing bracket. -/
theorem similarityTest_readBack {nesting : Nesting} {s rest : List Char} {test : Test}
    (h : similarityTest nesting s = .read test rest) (rest' : List Char) :
    (∃ c t, test.written ++ rest' = c :: t ∧ (c = 'w' ∨ c = 't')) ∧
      similarityTest nesting (test.written ++ rest') =
        .read (test.mapRegexes Regex.fused) rest' := by
  rw [similarityTest] at h ⊢
  simp only [bind_eq_read, pure_eq_read] at h
  obtain ⟨kind, _, -, args, _, hargs, rfl, -⟩ := h
  obtain ⟨inside, after, hargs⟩ := parenthesized_eq_read hargs
  obtain ⟨hblank, hback⟩ := similarityArgs_readBack hargs rest'
  have hwritten : (Test.similarity kind args).written ++ rest' =
      kind.written ++ '(' :: (args.written ++ ')' :: rest') := by
    simp [Test.written]
  have hkind : ∀ t, ((fun _ => SimilarityKeyword.ws) <$> keyword "ws"
      <|> (fun _ => SimilarityKeyword.term) <$> keyword "term" : Parser SimilarityKeyword)
        (kind.written ++ '(' :: t) = .read kind ('(' :: t) := by
    intro t
    simp only [orElse_eq_read, map_eq_read, map_eq_miss]
    cases kind with
    | ws => exact .inl ⟨(), rfl, keyword_eq_read.mpr ⟨rfl, stops_cons.mpr rfl⟩⟩
    | term =>
      exact .inr ⟨keyword_of_not_isPrefix (by simp [SimilarityKeyword.written]),
        (), rfl, keyword_eq_read.mpr ⟨rfl, stops_cons.mpr rfl⟩⟩
  rw [hwritten]
  refine ⟨?_, ?_⟩
  · cases kind with
    | ws => exact ⟨'w', _, rfl, .inl rfl⟩
    | term => exact ⟨'t', _, rfl, .inr rfl⟩
  · simp only [bind_eq_read]
    exact ⟨kind, _, hkind _, args.mapRegexes Regex.fused, rest',
      parenthesized_written hblank hback, rfl⟩

/-- A look-up does not claim the test of an attribute, whatever the name of the attribute. -/
theorem similarityTest_of_isAttribute {nesting : Nesting} {s : List Char} (h : IsAttribute s) :
    similarityTest nesting s = .miss := by
  obtain ⟨cs, rest, rfl, hcs, hstop, hbracket⟩ := h.eq_append
  have hmiss : ∀ {p : Parser SimilarityArgs}, parenthesized p rest = .miss :=
    parenthesized_of_head?_ne hbracket
  rw [similarityTest, bind_eq_miss]
  by_cases hws : cs = "ws".toList
  · refine .inr ⟨.ws, rest, ?_, bind_of_miss hmiss _⟩
    rw [orElse_eq_read, map_eq_read]
    exact .inl ⟨(), rfl, keyword_eq_read.mpr ⟨by rw [hws], hstop⟩⟩
  · have hfirst := keyword_name hcs (show "ws".toList.all isNameChar = true by decide) hstop
      hws
    by_cases hterm : cs = "term".toList
    · refine .inr ⟨.term, rest, ?_, bind_of_miss hmiss _⟩
      simp only [orElse_eq_read, map_eq_read, map_eq_miss]
      exact .inr ⟨hfirst, (), trivial, keyword_eq_read.mpr ⟨by rw [hterm], hstop⟩⟩
    · have hsecond := keyword_name hcs
        (show "term".toList.all isNameChar = true by decide) hstop hterm
      rw [orElse_eq_miss, map_eq_miss, map_eq_miss]
      exact .inl ⟨hfirst, hsecond⟩

end Test

end CorpusCost
