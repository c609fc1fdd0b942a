import CorpusCost.Proofs.Respaced
import CorpusCost.Proofs.Sealed
import CorpusCost.Proofs.SingleElements
import CorpusCost.Proofs.WellFormed

/-!
# Names that are not reserved

An identifier is the name of an attribute, of a structure or of a corpus wherever one may stand,
also where it is spelled like a keyword or begins like one. A keyword before an opening bracket is
told apart by the bracket; the words of blocks stand where no name may.
-/

set_option autoImplicit false

namespace CorpusCost

open CorpusCost.Parser

/-! ## Identifiers -/

theorem isNameStart_of_isLetter {c : Char} (h : IsLetter c) : isNameStart c = true := by
  unfold isNameStart Char.isAlpha Char.isUpper Char.isLower
  simp only [Bool.or_eq_true, Bool.and_eq_true, decide_eq_true_eq, beq_iff_eq]
  rcases h with hupper | hlower | hunderscore
  · exact .inl (.inl hupper)
  · exact .inl (.inr hlower)
  · exact .inr hunderscore

theorem isNameChar_of_isLetterOrDigit {c : Char} (h : IsLetterOrDigit c) :
    isNameChar c = true := by
  rcases h with hletter | hdigit
  · exact isNameChar_of_isNameStart (isNameStart_of_isLetter hletter)
  · refine isNameChar_of_isDigit ?_
    unfold Char.isDigit
    simp only [Bool.and_eq_true, decide_eq_true_eq]
    exact hdigit

/-- An identifier is read as a name. -/
theorem IsIdentifier.name {n : String} (h : IsIdentifier n) : name n.toList = .read n [] := by
  obtain ⟨first, others, hn, hfirst, hothers⟩ := h
  exact name_eq_read.mpr ⟨first, others, hn, isNameStart_of_isLetter hfirst,
    fun c hc => isNameChar_of_isLetterOrDigit (hothers c hc), stops_nil _, by simp [hn]⟩

/-! ## Tests of attributes -/

/-- A test of an attribute in square brackets, as it may be written: `inside` stands between the
quotes, and `gap` has the blanks between the words. -/
def Test.bracketedText (attr : String) (negated : Bool) (comparison : Comparison)
    (inside : List Char) (gap : Fin 5 → List Char) : String :=
  String.ofList ('[' :: (gap 0 ++ (attr.toList ++ (gap 1 ++ (bangText negated ++ (gap 2 ++
    (comparison.written ++ (gap 3 ++ '"' :: (inside ++ '"' :: (gap 4 ++ [']']))))))))))

section

variable {s rest t after : List Char} {attr : String} {nesting : Nesting} {negated : Bool}
  {comparison : Comparison} {regex : Regex}

/-- A test of an attribute is a condition, whatever the name of the attribute. -/
theorem Condition.parser_of_matching (hname : name s = .read attr rest) (negated : Bool)
    (hfits : comparison.Fits) {gap gap' gap'' : List Char} (hgap : AllBlank gap)
    (hgap' : AllBlank gap') (hgap'' : AllBlank gap'')
    (hregex : Regex.quoted nesting ('"' :: t) = .read regex after) :
    Condition.parser nesting (attr.toList ++ (gap ++ (bangText negated ++
      (gap' ++ (comparison.written ++ (gap'' ++ '"' :: t)))))) =
        .read (.test (.matching attr negated comparison regex)) after := by
  obtain ⟨hattribute, htest⟩ := Test.attributeTest_of_matching hname negated hfits gap gap' gap''
    hgap hgap' hgap'' hregex
  rw [Condition.parser, recursive_eq]
  exact Condition.parserOf_of_attribute hattribute htest

/-- A test of an attribute in square brackets makes up a query, whatever the name. -/
theorem Query.parser_bracketedText {inside : List Char} {gap : Fin 5 → List Char}
    (hname : name s = .read attr rest) (hfits : comparison.Fits) (hgap : ∀ i, AllBlank (gap i))
    (hregex : Regex.quoted nesting ('"' :: (inside ++ ['"'])) = .read regex []) :
    Query.parser nesting (Test.bracketedText attr negated comparison inside gap).toList =
      .read (.ofElement (.ofToken (.conditions
        (some [[.test (.matching attr negated comparison regex)]])))) [] := by
  -- The expression is read in the same way where the bracket is closed behind it.
  obtain ⟨v, hv, hsealed⟩ := Regex.quoted_append hregex
  obtain rfl : inside = v := by simpa using hv
  have hcondition : Condition.parser nesting _ = .read _ (gap 4 ++ [']']) :=
    Condition.parser_of_matching hname negated hfits (hgap 1) (hgap 2) (hgap 3) (hsealed _)
  have hclose : (gap 4 ++ [']']).dropWhile isBlank = [']'] :=
    dropWhile_blanks (hgap 4) (stops_cons.mpr rfl)
  have hends : Ends [')', ']'] ((gap 4 ++ [']']).dropWhile isBlank) := by
    rw [hclose]
    exact ends_cons.mpr (by decide)
  rw [Test.bracketedText, String.toList_ofList]
  refine Query.parser_of_element (by decide) (Element.parserOf_of_token (fun _ => ?_) (stops_nil _))
  refine Token.parserOf_of_conditions (optional_eq_read.mpr (.inl ⟨_, rfl, ?_⟩)) hclose
  rw [dropWhile_blanks (hgap 0) (stops_isBlank_name hname _)]
  exact Disjunction.parserOf_of_condition hcondition hends

end

/-! ## Tags and corpora -/

section

variable {s rest : List Char} {x : String} (hname : name s = .read x rest)

include hname

/-- A name in angle brackets is a tag, whatever the name. -/
theorem Element.parserOf_tag (atom : Parser Atom) (nesting : Nesting) (selfClosing : Bool) :
    Element.parserOf atom nesting ('<' :: (x.toList ++ tagEnd selfClosing)) =
      .read (.opening ⟨x, none⟩ selfClosing) [] := by
  have hstart : ∃ c t, x.toList ++ (tagEnd selfClosing ++ []) = c :: t ∧ isNameStart c = true := by
    obtain ⟨c, cs, hx, hc, -, -, -⟩ := name_eq_read.mp hname
    exact ⟨c, cs ++ (tagEnd selfClosing ++ []), by rw [hx]; rfl, hc⟩
  have hstruct : Structure.parser nesting (x.toList ++ (tagEnd selfClosing ++ [])) =
      .read ⟨x, none⟩ (tagEnd selfClosing ++ []) :=
    Structure.parser_of_name hname (ends_tagEnd selfClosing [])
  obtain ⟨hclosing, hopening⟩ := Element.openingParser_of_structure hstart hstruct
  rw [List.append_nil] at hclosing hopening
  simp only [Element.parserOf_eq, orElse_eq_read]
  exact .inr ⟨hclosing, .inl hopening⟩

theorem Element.parserOf_closingTag (atom : Parser Atom) (nesting : Nesting) :
    Element.parserOf atom nesting ('<' :: '/' :: (x.toList ++ ['>'])) =
      .read (.closing ⟨x, none⟩) [] := by
  rw [Element.parserOf_eq, orElse_eq_read]
  exact .inl (Element.closingParser_of_name hname [])

/-- A sequence behind the name of its corpus is the scope of a block, whatever the name. -/
theorem Block.parser_of_aligned (kind : BlockKeyword) {nesting : Nesting} {t rest' : List Char}
    {sequence : Sequence} (hblank : Stops isBlank t)
    (h : Sequence.parser nesting t = .read sequence rest') :
    Block.parser nesting (kind.written ++ ' ' :: (x.toList ++ ':' :: t)) =
      .read ⟨false, kind, .aligned false x sequence⟩ rest' := by
  obtain ⟨hstart, hnumber⟩ := Scope.numberParser_of_name hname false t
  have haligned := Scope.alignedParser_of_name hname false hblank h
  refine Block.parserOf_of_scope false kind hstart ?_
  rw [Scope.parserOf_eq, orElse_eq_read, orElse_eq_read]
  exact .inr ⟨hnumber, .inl haligned⟩

end

/-- The sequence `[]` of one token without conditions. -/
def Sequence.anyToken : Sequence := .ofElement (.ofToken (.conditions none))

theorem Sequence.parser_anyToken {nesting : Nesting} {rest : List Char}
    (hrest : Stops repetitionSigns.contains rest)
    (hends : Ends sequenceEnds (rest.dropWhile isBlank)) :
    Sequence.parser nesting ('[' :: ']' :: rest) = .read .anyToken rest := by
  have hmiss : Disjunction.parser nesting (']' :: rest) = .miss :=
    Disjunction.parser_of_ends (ends_cons.mpr (by decide))
  have htoken : ∀ position, Token.parserOf position nesting ('[' :: ']' :: rest) =
      .read (.conditions none) rest := fun _ =>
    Token.parserOf_of_conditions (optional_eq_read.mpr (.inr ⟨rfl, hmiss, rfl⟩)) rfl
  exact Sequence.parser_of_element (by decide) (Element.parserOf_of_token htoken hrest) hends

theorem Query.parser_of_aligned {s rest : List Char} {x : String} (hname : name s = .read x rest)
    (nesting : Nesting) :
    Query.parser nesting ("[] within ".toList ++ (x.toList ++ [':', '[', ']'])) =
      .read ⟨some .anyToken, none, [⟨false, .within, .aligned false x .anyToken⟩]⟩ [] := by
  let block := "within ".toList ++ (x.toList ++ [':', '[', ']'])
  have hsequence : Sequence.parser nesting ('[' :: ']' :: ' ' :: block) =
      .read .anyToken (' ' :: block) :=
    Sequence.parser_anyToken (stops_cons.mpr rfl) (ends_cons.mpr (by decide))
  have hblock : Block.parser nesting block =
      .read ⟨false, .within, .aligned false x .anyToken⟩ [] :=
    Block.parser_of_aligned hname .within (stops_cons.mpr rfl)
      (Sequence.parser_anyToken (stops_nil _) (ends_nil _))
  refine Query.parser_of_sequence (stops_cons.mpr rfl) hsequence (by simp [block, isBlank]) ?_
  refine many_eq_read_cons.mpr ⟨[], ?_, by simp, Block.many_nil nesting⟩
  rw [afterBlanks_apply]
  exact hblock

/-! ## Names of any spelling -/

/-- No identifier is reserved, however it is spelled. In square brackets it is the attribute that is
tested by the comparison and the expression behind it, in angle brackets it is the structure of a
tag, and before a colon in a block it is an aligned corpus. -/
theorem Query.parse_identifier {n : String} (hn : IsIdentifier n) :
    (∀ negated comparison inside regex gap, comparison.Fits → (∀ i, AllBlank (gap i)) →
      Regex.quoted ⟨0, some maxDepth⟩ ('"' :: (inside ++ ['"'])) = .read regex [] →
        parse (Test.bracketedText n negated comparison inside gap) = .ok (.ofElement (.ofToken
          (.conditions (some [[.test (.matching n negated comparison regex)]]))))) ∧
    parse ("<" ++ n ++ ">") = .ok (.ofElement (.opening ⟨n, none⟩ false)) ∧
    parse ("<" ++ n ++ "/>") = .ok (.ofElement (.opening ⟨n, none⟩ true)) ∧
    parse ("</" ++ n ++ ">") = .ok (.ofElement (.closing ⟨n, none⟩)) ∧
    parse ("[] within " ++ n ++ ":[]") =
      .ok ⟨some .anyToken, none, [⟨false, .within, .aligned false n .anyToken⟩]⟩ := by
  have hname := hn.name
  simp only [Query.parse_eq_ok, String.toList_append]
  refine ⟨?_, ?_, ?_, ?_, ?_⟩
  · intro negated comparison inside regex gap hfits hgap hregex
    exact Query.parser_bracketedText hname hfits hgap hregex
  · exact Query.parser_of_element (by decide) (Element.parserOf_tag hname _ _ false)
  · exact Query.parser_of_element (by decide) (Element.parserOf_tag hname _ _ true)
  · exact Query.parser_of_element (by decide) (Element.parserOf_closingTag hname _ _)
  · exact Query.parser_of_aligned hname _

/-- The word that begins a block is the name of an attribute, of a structure and of a corpus. -/
theorem Query.parse_identifier_within :
    IsIdentifier "within" ∧
      parse "[within !~7\"a.\"]" = .ok (.ofElement (.ofToken (.conditions (some [[.test (.matching
        "within" true (.similar (some 7)) ⟨[[.row [.symbol (.ofChar 'a'), .symbol .any]]]⟩)]])))) ∧
      parse "<within>" = .ok (.ofElement (.opening ⟨"within", none⟩ false)) ∧
      parse "<within/>" = .ok (.ofElement (.opening ⟨"within", none⟩ true)) ∧
      parse "</within>" = .ok (.ofElement (.closing ⟨"within", none⟩)) ∧
      parse "[] within within:[]" =
        .ok ⟨some .anyToken, none, [⟨false, .within, .aligned false "within" .anyToken⟩]⟩ := by
  have hidentifier : IsIdentifier "within" := by decide
  have hfits : (Comparison.similar (some 7)).Fits := by
    rintro _ ⟨⟩
    decide
  let gap : Fin 5 → List Char := fun i => if i = 1 then [' '] else []
  obtain ⟨htest, htags⟩ := Query.parse_identifier hidentifier
  exact ⟨hidentifier, htest true (.similar (some 7)) ['a', '.'] _ gap hfits (by decide)
    (by decide +kernel), htags⟩

end CorpusCost
