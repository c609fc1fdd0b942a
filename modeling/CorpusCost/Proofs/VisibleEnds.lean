import CorpusCost.Proofs.CutQueries
import CorpusCost.Text.Blank

/-!
# Visible ends

What a construct takes of a text ends with a character that is no white space: every token, tag,
number and name closes with a character of its own, and blanks are read only before such a one.
Only what may be left out altogether can take nothing. So the parts of a query end visibly wherever
they take anything.
-/

set_option autoImplicit false

namespace CorpusCost

namespace Text

/-- What comes before the end `rest` of `s` ends with a character that is no white space. -/
def VisibleUpTo (rest s : List Char) : Prop :=
  ∃ w c, s = w ++ c :: rest ∧ isWhiteSpace c = false

theorem VisibleUpTo.of_suffix {rest t s : List Char} (h : VisibleUpTo rest t) (ht : t <:+ s) :
    VisibleUpTo rest s := by
  obtain ⟨w, c, rfl, hc⟩ := h
  obtain ⟨v, rfl⟩ := ht
  exact ⟨v ++ w, c, by simp, hc⟩

theorem VisibleUpTo.suffix {rest s : List Char} (h : VisibleUpTo rest s) : rest <:+ s := by
  obtain ⟨w, c, rfl, -⟩ := h
  exact ⟨w ++ [c], by simp⟩

end Text

namespace Parser

open Text (VisibleUpTo isWhiteSpace)

variable {α β γ ι : Type} {p q : Parser α} {test : Char → Bool}

/-! ## Putting readers together -/

/-- What is left by `p` ends its text. -/
def Takes (p : Parser α) : Prop :=
  ∀ ⦃s rest : List Char⦄ ⦃a : α⦄, p s = .read a rest → rest <:+ s

/-- What `p` takes ends visibly. -/
def Visible (p : Parser α) : Prop :=
  ∀ ⦃s rest : List Char⦄ ⦃a : α⦄, p s = .read a rest → VisibleUpTo rest s

/-- What `p` takes ends visibly, if it takes anything. -/
def Trails (p : Parser α) : Prop :=
  ∀ ⦃s rest : List Char⦄ ⦃a : α⦄, p s = .read a rest → rest = s ∨ VisibleUpTo rest s

theorem Cut.takes {y : List Char} {Φ : List Char → Prop} (h : Cut y Φ p q) : Takes p :=
  fun _ _ _ hread => h.suffix hread

/-- Where nothing is cut, a reader reads as it did. -/
theorem Takes.cut {Φ : List Char → Prop} (h : Takes p) : Cut [] Φ p p where
  suffix hread := h hread
  read hread _ := by simpa using hread

theorem Visible.takes (h : Visible p) : Takes p := fun _ _ _ hread => (h hread).suffix

theorem Visible.trails (h : Visible p) : Trails p := fun _ _ _ hread => .inr (h hread)

theorem Takes.bind {f : α → Parser β} (h : Takes p) (hf : ∀ a, Takes (f a)) :
    Takes (p >>= f) := by
  intro s rest b hread
  obtain ⟨a, mid, ha, hb⟩ := bind_eq_read.mp hread
  exact (hf a hb).trans (h ha)

theorem Takes.nested {p : Nesting → Parser α} (h : ∀ nesting, Takes (p nesting))
    (nesting : Nesting) : Takes (nested nesting p) :=
  fun _ _ _ hread => h nesting.deeper (nested_eq_read.mp hread).2

/-- Whatever comes before does not matter for a reader that ends visibly. -/
theorem Takes.bind_visible {f : α → Parser β} (h : Takes p) (hf : ∀ a, Visible (f a)) :
    Visible (p >>= f) := by
  intro s rest b hread
  obtain ⟨a, mid, ha, hb⟩ := bind_eq_read.mp hread
  exact (hf a hb).of_suffix (h ha)

theorem Visible.bind_trails {f : α → Parser β} (h : Visible p) (hf : ∀ a, Trails (f a)) :
    Visible (p >>= f) := by
  intro s rest b hread
  obtain ⟨a, mid, ha, hb⟩ := bind_eq_read.mp hread
  rcases hf a hb with rfl | hvisible
  · exact h ha
  · exact hvisible.of_suffix (h ha).suffix

theorem Trails.bind {f : α → Parser β} (h : Trails p) (hf : ∀ a, Trails (f a)) :
    Trails (p >>= f) := by
  intro s rest b hread
  obtain ⟨a, mid, ha, hb⟩ := bind_eq_read.mp hread
  rcases h ha with rfl | hvisible
  · exact hf a hb
  · rcases hf a hb with rfl | hmore
    · exact .inr hvisible
    · exact .inr (hmore.of_suffix hvisible.suffix)

theorem trails_pure (a : α) : Trails (pure a : Parser α) :=
  fun _ _ _ hread => .inl (pure_eq_read.mp hread).2.symm

theorem trails_absent (p : Parser α) : Trails (absent p) :=
  fun _ _ _ hread => .inl (absent_eq_read.mp hread).2.symm

theorem Visible.map (f : α → β) (h : Visible p) : Visible (f <$> p) :=
  h.bind_trails fun a => trails_pure (f a)

theorem Trails.map (f : α → β) (h : Trails p) : Trails (f <$> p) :=
  h.bind fun a => trails_pure (f a)

theorem Visible.orElse (h : Visible p) (hq : Visible q) : Visible (p <|> q) := by
  intro s rest a hread
  rcases orElse_eq_read.mp hread with hp | ⟨-, hq'⟩
  · exact h hp
  · exact hq hq'

theorem Visible.optional (h : Visible p) : Trails (optional p) := by
  intro s rest o hread
  rcases optional_eq_read.mp hread with ⟨a, -, ha⟩ | ⟨-, -, rfl⟩
  · exact .inr (h ha)
  · exact .inl rfl

theorem Visible.many (h : Visible p) : Trails (many p) := by
  intro s rest as hread
  refine reads_many (T := fun s _ rest => rest = s ∨ VisibleUpTo rest s) (fun _ => .inl rfl) ?_
    s as rest hread
  rintro s a mid as rest ha - (rfl | hvisible)
  · exact .inr (h ha)
  · exact .inr (hvisible.of_suffix (h ha).suffix)

theorem Visible.many1 (h : Visible p) : Visible (many1 p) :=
  h.bind_trails fun _ => h.many.map _

theorem Visible.sepBy1 {sep : Parser β} (hsep : Takes sep) (h : Visible p) :
    Visible (sepBy1 sep p) :=
  h.bind_trails fun _ => (hsep.bind_visible fun _ => h).many.map _

/-- What stands between brackets may end as it likes. -/
theorem Takes.between {opening : Parser β} {closing : Parser γ} (hopen : Takes opening)
    (h : Takes p) (hclose : Visible closing) : Visible (between opening closing p) :=
  hopen.bind_visible fun _ => h.bind_visible fun a => hclose.map fun _ => a

theorem takes_blanks : Takes blanks := (cut_blanks (y := []) (Φ := Anything)).takes

theorem Visible.afterBlanks (h : Visible p) : Visible (afterBlanks p) :=
  takes_blanks.bind_visible fun _ => h

theorem Takes.spaced (h : Takes p) : Takes (spaced p) :=
  (Cut.spaced (Φ := Anything) h.cut).takes

/-- A grammar that refers to itself ends visibly when its body does, whatever part of the grammar
the constructs inside are read by. -/
theorem visible_recursive {body : (ι → Parser α) → ι → Parser α}
    (htakes : ∀ i, Takes (recursive body i))
    (hbody : ∀ p : ι → Parser α, (∀ j, Takes (p j)) → (∀ j, Partly (p j) (recursive body j)) →
      ∀ i, Visible (body p i)) (i : ι) : Visible (recursive body i) := by
  intro s rest a hread
  rw [recursive_eq] at hread
  refine hbody _ (fun j => ?_) (fun j => partly_shorter _ _) i hread
  intro t u b hinner
  exact htakes j (shorter_eq_read.mp hinner).2

/-! ## Characters and words -/

theorem visible_satisfy (htest : ∀ c, test c = true → isWhiteSpace c = false) :
    Visible (satisfy test) := by
  intro s rest c hread
  obtain ⟨hc, rfl⟩ := satisfy_eq_read.mp hread
  exact ⟨[], c, rfl, htest c hc⟩

theorem visible_char {c : Char} (hc : isWhiteSpace c = false) : Visible (char c) := by
  refine visible_satisfy fun d hd => ?_
  obtain rfl := eq_of_beq hd
  exact hc

theorem trails_takeWhile (htest : ∀ c, test c = true → isWhiteSpace c = false) :
    Trails (takeWhile test) := by
  intro s rest cs hread
  obtain ⟨hall, -, rfl⟩ := takeWhile_eq_read.mp hread
  rcases List.eq_nil_or_concat cs with rfl | ⟨w, c, rfl⟩
  · exact .inl rfl
  · exact .inr ⟨w, c, by simp, htest c (hall c (by simp))⟩

/-- No character of a name is white space. -/
theorem isWhiteSpace_of_isNameChar {c : Char} (h : isNameChar c = true) :
    isWhiteSpace c = false := by
  have hrange : 48 ≤ c.toNat ∧ c.toNat ≤ 122 := by
    rcases (Bool.or_eq_true_iff ..).mp h with halphanum | hunderscore
    · rcases (Bool.or_eq_true_iff ..).mp halphanum with halpha | hdigit
      · rcases (Bool.or_eq_true_iff ..).mp halpha with hupper | hlower
        · have hcode : 65 ≤ c.toNat ∧ c.toNat ≤ 90 := of_decide_eq_true hupper
          omega
        · have hcode := (Bool.and_eq_true_iff ..).mp hlower
          have hleast : 97 ≤ c.toNat := of_decide_eq_true hcode.1
          have hgreatest : c.toNat ≤ 122 := of_decide_eq_true hcode.2
          omega
      · have hcode : 48 ≤ c.toNat ∧ c.toNat ≤ 57 := Char.isDigit_iff_toNat.mp hdigit
        omega
    · obtain rfl : c = '_' := by simpa using hunderscore
      decide
  refine Bool.eq_false_iff.mpr fun hwhite => ?_
  simp only [isWhiteSpace, Text.whiteSpaceRanges, List.any_cons, List.any_nil,
    Bool.or_eq_true, Bool.and_eq_true, decide_eq_true_eq, Bool.false_eq_true, or_false] at hwhite
  omega

theorem visible_number : Visible number := by
  have hdigit : ∀ c : Char, c.isDigit = true → isWhiteSpace c = false :=
    fun c hc => isWhiteSpace_of_isNameChar (isNameChar_of_isDigit hc)
  have hdigits : Visible (takeWhile1 Char.isDigit) :=
    (visible_satisfy hdigit).bind_trails fun _ => (trails_takeWhile hdigit).map _
  refine hdigits.bind_trails fun digits => ?_
  split
  · exact trails_pure _
  · intro s rest n hread
    simp [never] at hread

theorem visible_name : Visible name :=
  have hfirst : Visible (satisfy isNameStart) :=
    visible_satisfy fun _ hc => isWhiteSpace_of_isNameChar (isNameChar_of_isNameStart hc)
  hfirst.bind_trails fun _ => (trails_takeWhile fun _ => isWhiteSpace_of_isNameChar).map _

theorem visible_keyword {word : String} {w : List Char} {c : Char}
    (hword : word.toList = w ++ [c]) (hc : isWhiteSpace c = false) : Visible (keyword word) := by
  intro s rest u hread
  obtain ⟨rfl, -⟩ := keyword_eq_read.mp hread
  exact ⟨w, c, by simp [hword], hc⟩

theorem takes_bang : Takes bang := (cut_bang (y := []) (Φ := Anything)).takes

theorem visible_bounds : Visible bounds := by
  have hrange : Visible (do
      let lo ← number
      let _ ← char ','
      let hi ← optional number
      pure (⟨lo, hi⟩ : Bounds)) :=
    visible_number.bind_trails fun lo => ((visible_char (by decide)).bind_trails fun _ =>
      visible_number.optional.map (Bounds.mk lo)).trails
  exact Takes.between (visible_char (by decide)).takes
    (hrange.orElse (visible_number.map _)).takes (visible_char (by decide))

theorem visible_quoted (nesting : Nesting) : Visible (Regex.quoted nesting) := by
  intro s rest regex hread
  obtain ⟨v, rfl, -⟩ := Regex.quoted_append hread
  exact ⟨'"' :: v, '"', by simp, by decide⟩

end Parser

open CorpusCost.Parser

variable {nesting : Nesting}

/-! ## Tokens and tags -/

theorem takes_opening (c : Char) : Takes (do let _ ← char c; blanks) :=
  ((cut_char c).seq fun _ => cut_blanks (y := []) (Φ := Anything)).takes

/-- A token closes itself, whatever the positions nested in it are read by. -/
theorem Token.visible_parserOf {position : Nesting → Parser Position}
    (h : ∀ nesting, Takes (position nesting)) (nesting : Nesting) :
    Visible (parserOf position nesting) := by
  have hconditions : Visible (conditionsParser nesting) := by
    refine Visible.map _ (Takes.between (takes_opening _) ?_ (visible_char (by decide)).afterBlanks)
    intro s rest disjunction hread
    rcases optional_eq_read.mp hread with ⟨_, -, ha⟩ | ⟨-, -, rfl⟩
    · exact (Disjunction.parser_cut (y := []) nesting).takes ha
    · exact List.suffix_refl _
  have hanchored : Visible (anchoredParser nesting) :=
    (visible_char (by decide)).bind_trails fun _ =>
      visible_number.optional.bind fun _ => ((visible_quoted nesting).map _).trails
  have hpairing : Visible (pairingParser position nesting) :=
    Visible.map _ (Takes.between (takes_opening _)
      (Takes.nested (fun deeper => (Pairing.cut_parserOf (h deeper).cut).takes) nesting)
      (visible_char (by decide)).afterBlanks)
  exact hconditions.orElse <| hanchored.orElse <| hpairing.orElse <|
    ((visible_keyword (w := ['m']) rfl (by decide)).map _).orElse <|
    (visible_quoted nesting).map _

theorem Position.parser_takes (nesting : Nesting) : Takes (parser nesting) :=
  (Position.parser_cut (y := []) (Φ := Anything) nesting).takes

theorem Position.parser_visible (nesting : Nesting) : Visible (parser nesting) := by
  refine visible_recursive Position.parser_takes ?_ nesting
  intro position htakes _ nesting
  have htoken := Token.visible_parserOf htakes nesting
  exact Visible.orElse (visible_number.takes.bind_visible fun _ =>
    (visible_char (by decide)).takes.bind_visible fun _ => htoken.map _) (htoken.map _)

theorem Repetition.parser_visible : Visible parser :=
  ((visible_char (by decide)).map _).orElse <| ((visible_char (by decide)).map _).orElse <|
    ((visible_char (by decide)).map _).orElse <| visible_bounds.map _

/-- An element ends visibly when atoms do. -/
theorem Element.visible_parserOf {atom : Parser Atom} (h : Visible atom) (nesting : Nesting) :
    Visible (parserOf atom nesting) := by
  have hangle : Visible (Parser.afterBlanks (char '>')) := (visible_char (by decide)).afterBlanks
  have hclosing : Visible closingParser :=
    (visible_char (by decide)).takes.bind_visible fun _ => takes_blanks.bind_visible fun _ =>
      (visible_char (by decide)).takes.bind_visible fun _ => takes_blanks.bind_visible fun _ =>
        visible_name.takes.bind_visible fun _ => hangle.map _
  have hopening : Visible (openingParser nesting) :=
    (visible_char (by decide)).takes.bind_visible fun _ =>
      (Structure.parser_cut (y := []) nesting).afterBlanks.takes.bind_visible fun _ =>
        (cut_present_afterBlanks (y := []) (Φ := Anything) '/').takes.bind_visible fun _ =>
          hangle.map _
  exact hclosing.orElse <| hopening.orElse <| h.bind_trails fun _ =>
    Repetition.parser_visible.optional.map _

/-! ## Sequences, scopes and blocks -/

theorem Chain.visible_parserOf {atom : Parser Atom} (h : Visible atom) (nesting : Nesting) :
    Visible (parserOf atom nesting) :=
  takes_bang.bind_visible fun _ =>
    (Element.visible_parserOf h nesting).afterBlanks.many1.map _

theorem Sequence.visible_parserOf {atom : Parser Atom} (h : Visible atom) (nesting : Nesting) :
    Visible (parserOf atom nesting) :=
  Visible.map _ <| Visible.sepBy1 (visible_char (by decide)).takes.spaced
    (Chain.visible_parserOf h nesting)

theorem Scope.visible_parserOf {sequence : Parser Sequence} (h : Visible sequence) :
    Visible (parserOf sequence) := by
  have hnumber : Visible numberParser :=
    visible_number.bind_trails fun _ => (trails_absent _).map _
  have haligned : Visible (alignedParser sequence) :=
    takes_bang.bind_visible fun _ =>
      visible_name.takes.bind_visible fun _ =>
        (visible_char (by decide)).takes.spaced.bind_visible fun _ => h.map _
  exact hnumber.orElse <| haligned.orElse <| h.map _

theorem Block.visible_parserOf {sequence : Parser Sequence} (h : Visible sequence) :
    Visible (parserOf sequence) := by
  have hkeyword : Takes blockKeyword :=
    ((visible_keyword (w := "withi".toList) (c := 'n') rfl (by decide)).map _).orElse
      ((visible_keyword (w := "containin".toList) (c := 'g') rfl (by decide)).map _) |>.takes
  exact takes_bang.bind_visible fun _ =>
    hkeyword.bind_visible fun _ => (Scope.visible_parserOf h).afterBlanks.map _

/-- A group closes itself, whatever part of the grammar the atoms nested in it are read by. -/
theorem Atom.parser_visible (nesting : Nesting) : Visible (parser nesting) := by
  refine visible_recursive (fun nesting => (Atom.parser_cut (y := []) nesting).takes) ?_ nesting
  intro atom htakes hpartly nesting
  have hgroup : Visible (groupParserOf atom nesting) := by
    refine Takes.between (takes_opening _) (Takes.nested (fun deeper => ?_) nesting)
      (visible_char (by decide)).afterBlanks
    have hatoms := readsAtoms_of_partly (hpartly deeper)
    have hsequence : Cut [] (Ahead sequenceEnds) _ _ :=
      Sequence.cut_parserOf (htakes deeper).cut hatoms deeper
    have hblocks := Block.cut_many hsequence (hatoms.sequences deeper)
    exact hsequence.takes.bind fun sequence => (hblocks.map (Atom.group sequence)).takes
  exact ((Position.parser_visible nesting).map _).orElse hgroup

theorem Sequence.parser_visible (nesting : Nesting) : Visible (parser nesting) :=
  Sequence.visible_parserOf (Atom.parser_visible nesting) nesting

/-! ## Queries -/

theorem GlobalCondition.parser_visible : Visible parser := by
  have hlabelled : Visible labelledAttribute :=
    visible_number.takes.bind_visible fun _ => (visible_char (by decide)).takes.bind_visible
      fun _ => visible_name.map _
  have hbracketed : Visible (parenthesized labelledAttribute) :=
    Takes.between (visible_char (by decide)).takes.spaced hlabelled.takes
      (visible_char (by decide)).afterBlanks
  have hfrequency : Visible frequencyParser := by
    refine (visible_keyword (w := []) (c := 'f') rfl (by decide)).takes.bind_visible fun _ =>
      hbracketed.takes.bind_visible ?_
    rintro ⟨label, attr⟩
    exact (takes_blanks.bind fun _ => takes_bang).bind_visible fun _ =>
      (FrequencyComparison.parser_cut (y := []) (Φ := Anything)).takes.bind_visible fun _ =>
        visible_number.afterBlanks.map _
  have hagreement : Visible agreementParser :=
    hlabelled.takes.bind_visible fun _ =>
      (cut_agreementSign (y := []) (Φ := Anything)).takes.spaced.bind_visible fun _ =>
        hlabelled.map _
  exact hfrequency.orElse hagreement

/-- The parts of a query end visibly, if there are any. -/
theorem Query.trails_parts (nesting : Nesting) : Trails (parts nesting) := by
  have hglobals : Visible globalsParser :=
    (visible_char (by decide)).takes.spaced.bind_visible fun _ =>
      Visible.sepBy1 (visible_char (by decide)).takes.spaced
        GlobalCondition.parser_visible
  have hblock : Visible (Block.parser nesting) :=
    Block.visible_parserOf (Sequence.parser_visible nesting)
  exact (Sequence.parser_visible nesting).optional.bind fun _ => hglobals.optional.bind fun _ =>
    hblock.afterBlanks.many.map _

end CorpusCost
