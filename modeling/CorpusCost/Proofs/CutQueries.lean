import CorpusCost.Proofs.CutSequences

/-!
# Queries of cut texts

A text that is cut right behind what makes up a query makes up that query: what was read of it is
read again, and nothing is left.
-/

set_option autoImplicit false

namespace CorpusCost

open CorpusCost.Parser

variable {y : List Char} {Φ : List Char → Prop} {nesting : Nesting}

/-! ## Conditions across tokens -/

theorem cut_labelledAttribute : Cut y Φ labelledAttribute labelledAttribute :=
  cut_number.seq fun label => (cut_char '.').seq fun _ => cut_name.map (Prod.mk label)

theorem cut_agreementSign : Cut y Φ agreementSign agreementSign :=
  ((cut_text "!=").map _).orElse_of_fades ((fades_text _).map _) <|
  ((cut_text "==").map _).orElse_of_fades ((fades_text _).map _) <| (cut_text "=").map _

theorem FrequencyComparison.parser_cut : Cut y Φ parser parser :=
  ((cut_text "<=").map _).orElse_of_fades ((fades_text _).map _) <|
  ((cut_text ">=").map _).orElse_of_fades ((fades_text _).map _) <|
  ((cut_char '=').map _).orElse_of_fades ((fades_char _).map _) <|
  ((cut_char '<').map _).orElse_of_fades ((fades_char _).map _) <| (cut_char '>').map _

theorem GlobalCondition.parser_cut : Cut y Φ parser parser := by
  have hfrequency : Cut y Φ frequencyParser frequencyParser := by
    refine (cut_keyword "f").seq fun _ => cut_labelledAttribute.parenthesized.seq ?_
    rintro ⟨label, attr⟩
    exact cut_bang.afterBlanks.seq fun negated => FrequencyComparison.parser_cut.seq
      fun comparison =>
        cut_number.afterBlanks.map (GlobalCondition.frequency label attr negated comparison)
  have hagreement : Cut y Φ agreementParser agreementParser := by
    refine cut_labelledAttribute.seq ?_
    rintro ⟨left, leftAttr⟩
    exact cut_agreementSign.spaced.seq fun negated => cut_labelledAttribute.map
      fun right => GlobalCondition.agreement left leftAttr negated right.1 right.2
  refine hfrequency.orElse hagreement ?_
  intro t condition x _ hread _
  obtain ⟨_, _, hlabelled, -⟩ := bind_eq_read.mp hread
  obtain ⟨label, _, hlabel, -⟩ := bind_eq_read.mp hlabelled
  obtain ⟨d, u, rfl, hd⟩ := number_eq_cons hlabel
  refine bind_of_miss ((opensWith_keyword 'f' rfl).miss ?_) _
  intro hhead
  obtain rfl : d = 'f' := by simpa using hhead
  simp at hd

theorem cut_globalsParser :
    Cut y (Ahead [')', '!', 'w', 'c']) globalsParser globalsParser :=
  (cut_char '&').spaced.seq fun _ =>
    Cut.sepBy1 (cut_char '&').spaced GlobalCondition.parser_cut.of_anything
      (fun _ _ _ _ => trivial) fun _ hx => ⟨trivial, hx.spaced_char (by decide)⟩

/-! ## Queries -/

/-- No sequence stands where the conditions across tokens of a query do, or nothing. -/
theorem Sequence.parser_of_ahead {s : List Char} (h : Ahead sequenceEnds s)
    (hbang : s.head? ≠ some '!') : Sequence.parser nesting s = .miss :=
  Sequence.parser_of_tail (bang_eq_read.mpr (.inr ⟨rfl, hbang, rfl⟩)) h

/-- No sequence stands where the blocks of a query do. -/
theorem Sequence.parser_of_blocks {q : Parser Sequence} {s : List Char} {blocks : List Block}
    (h : many (afterBlanks (Block.parserOf q)) s = .read blocks []) :
    Sequence.parser nesting s = .miss := by
  by_cases hbang : s.head? = some '!'
  · obtain ⟨t, rfl⟩ := List.head?_eq_some_iff.mp hbang
    cases blocks with
    | nil => simpa using many_eq_read_nil h
    | cons block blocks =>
      obtain ⟨mid, hblock, -, -⟩ := many_eq_read_cons.mp h
      rw [afterBlanks_apply, dropWhile_of_stops (stops_cons.mpr rfl)] at hblock
      obtain ⟨negated, u, hread, hu⟩ := Block.ends_of_read hblock
      refine Sequence.parser_of_tail hread ?_
      rw [dropWhile_of_stops (hu.stops (by decide))]
      exact hu.mono (by decide)
  · exact Sequence.parser_of_ahead ((Block.ahead_of_many h (ahead_nil _)).mono (by decide)) hbang

/-- The parts of a query are read again from the text that ends right behind them. -/
theorem Query.cut_parts (nesting : Nesting) :
    Cut y (· = []) (parts nesting) (parts nesting) := by
  have hblocks : Cut y (· = []) (many (afterBlanks (Block.parser nesting)))
      (many (afterBlanks (Block.parser nesting))) := by
    refine (Block.cut_many (Sequence.parser_cut nesting)
      ((Atom.readsAtoms nesting).sequences nesting)).imp ?_
    rintro x rfl
    exact ahead_nil _
  have hglobals : Cut y (Ahead [')', '!', 'w', 'c']) (optional globalsParser)
      (optional globalsParser) :=
    cut_globalsParser.optional fun x _ hx => bind_of_miss (hx.spaced_char (by decide)) _
  have hsequence : Cut y (fun x => Ahead sequenceEnds x ∧ Sequence.parser nesting x = .miss)
      (optional (Sequence.parser nesting)) (optional (Sequence.parser nesting)) :=
    ((Sequence.parser_cut nesting).imp fun _ hx => hx.1).optional fun _ _ hx => hx.2
  refine hsequence.bind (fun sequence => hglobals.bind (fun globals =>
    hblocks.map (Query.mk sequence globals)) ?_) ?_
  · rintro globals u query x hread rfl
    obtain ⟨blocks, -, hread⟩ := map_eq_read.mp hread
    exact Block.ahead_of_many hread (ahead_nil _)
  · rintro sequence u query x hread rfl
    obtain ⟨globals, mid, hglobals, hmore⟩ := bind_eq_read.mp hread
    obtain ⟨blocks, -, hmore⟩ := map_eq_read.mp hmore
    rcases optional_eq_read.mp hglobals with ⟨conditions, -, hread⟩ | ⟨-, -, rfl⟩
    · obtain ⟨_, _, hsign, -⟩ := bind_eq_read.mp hread
      have hahead := ahead_of_spaced hsign
      exact ⟨hahead.mono (by decide),
        Sequence.parser_of_ahead (hahead.mono (by decide))
          (hahead.head?_ne (by decide) (by decide))⟩
    · exact ⟨(Block.ahead_of_many hmore (ahead_nil _)).mono (by decide),
        Sequence.parser_of_blocks hmore⟩

end CorpusCost
