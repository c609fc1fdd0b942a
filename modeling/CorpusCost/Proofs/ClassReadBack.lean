import CorpusCost.Proofs.Recast
import CorpusCost.Proofs.LookAround
import CorpusCost.Regex.Printer

/-!
# Symbols and classes read back

Symbols and character classes are kept as written. Most of them are read back whatever follows; an
escape and a character of a class are the exceptions, because a longer construct is tried before
them. What follows is recast, and the longer construct does not apply there either.
-/

set_option autoImplicit false

namespace CorpusCost.Regex

open CorpusCost.Parser

/-! ## Named classes -/

/-- A letter between fixed words is kept as written. -/
theorem verbatim_of_isAlpha {name : List Char} (h : ∀ c ∈ name, c.isAlpha = true) :
    Verbatim name := by
  refine verbatim_of_forall ?_
  intro c hc
  have hletter := h c hc
  constructor
  · rintro rfl
    simp at hletter
  · rintro rfl
    simp at hletter

/-- A name stands between two words, the second of which no letter begins. -/
theorem named_eq_read {α : Type} {opening closing : String} {f : List Char → α}
    {s rest : List Char} {x : α} (hclosing : ∀ t, Stops Char.isAlpha (closing.toList ++ t)) :
    (do text opening
        let name ← takeWhile1 Char.isAlpha
        text closing
        pure (f name) : Parser α) s = .read x rest ↔
      ∃ name, x = f name ∧ name ≠ [] ∧ (∀ c ∈ name, c.isAlpha = true) ∧
        s = opening.toList ++ (name ++ (closing.toList ++ rest)) := by
  simp only [bind_eq_read, text_eq_read, takeWhile1_eq_read, pure_eq_read]
  constructor
  · rintro ⟨_, _, rfl, name, _, ⟨hne, hall, -, rfl⟩, _, _, rfl, rfl, rfl⟩
    exact ⟨name, rfl, hne, hall, rfl⟩
  · rintro ⟨name, rfl, hne, hall, rfl⟩
    exact ⟨(), _, rfl, name, _, ⟨hne, hall, hclosing rest, rfl⟩, (), _, rfl, rfl, rfl⟩

theorem namedClass_eq_read {s rest : List Char} {x : String} :
    namedClass s = .read x rest ↔ ∃ name, x = String.ofList name ∧
      name ≠ [] ∧ (∀ c ∈ name, c.isAlpha = true) ∧
        s = '[' :: '[' :: ':' :: (name ++ ':' :: ']' :: ']' :: rest) :=
  named_eq_read fun _ => stops_cons.mpr rfl

theorem namedMember_eq_read {s rest cs : List Char} :
    namedMember s = .read cs rest ↔ ∃ name, cs = ['[', ':'] ++ name ++ [':', ']'] ∧
      name ≠ [] ∧ (∀ c ∈ name, c.isAlpha = true) ∧
        s = '[' :: ':' :: (name ++ ':' :: ']' :: rest) :=
  named_eq_read fun _ => stops_cons.mpr rfl

theorem opensWith_namedMember : OpensWith ['['] namedMember := (opensWith_text '[' rfl).bind _

theorem opensWith_namedClass : OpensWith ['['] namedClass := (opensWith_text '[' rfl).bind _

theorem namedClass_readBack {s rest : List Char} {x : String} (h : namedClass s = .read x rest) :
    s = (Atom.namedClass x).written ++ rest ∧ Verbatim (Atom.namedClass x).written ∧
      ∀ rest', namedClass ((Atom.namedClass x).written ++ rest') = .read x rest' := by
  obtain ⟨name, rfl, hne, hall, rfl⟩ := namedClass_eq_read.mp h
  have hwritten : (Atom.namedClass (String.ofList name)).written =
      ['[', '[', ':'] ++ name ++ [':', ']', ']'] := by
    simp [Atom.written]
  rw [hwritten]
  refine ⟨by simp, ?_, ?_⟩
  · exact ((verbatim_of_forall (by simp)).append (verbatim_of_isAlpha hall)).append
      (verbatim_of_forall (by simp))
  · intro rest'
    exact namedClass_eq_read.mpr ⟨name, rfl, hne, hall, by simp⟩

/-! ## Members of classes -/

/-- The characters that stand for themselves in a class. -/
def ClassPlain (c : Char) : Prop := c ∉ [']', '\\', '"']

theorem ClassPlain.ne {c : Char} (h : ClassPlain c) : c ≠ '"' ∧ c ≠ '\\' ∧ c ≠ ']' := by
  simp only [ClassPlain, List.mem_cons, List.not_mem_nil, or_false, not_or] at h
  exact ⟨h.2.2, h.2.1, h.1⟩

theorem classChar_eq_read {s rest : List Char} {c : Char} :
    classChar s = .read c rest ↔ ClassPlain c ∧ s = c :: rest := noneOf_eq_read

/-- A range of characters in a class. -/
def spanMember : Parser Member := do
  let first ← classChar
  let _ ← char '-'
  let last ← classChar
  pure (.span first last)

theorem spanMember_eq_read {s rest : List Char} {m : Member} :
    spanMember s = .read m rest ↔
      ∃ first last, ClassPlain first ∧ ClassPlain last ∧ m = .span first last ∧
        s = first :: '-' :: last :: rest := by
  rw [spanMember]
  simp only [bind_eq_read, classChar_eq_read, char_eq_read, pure_eq_read]
  constructor
  · rintro ⟨first, _, ⟨hfirst, rfl⟩, _, _, ⟨rfl, rfl⟩, last, _, ⟨hlast, rfl⟩, rfl, rfl⟩
    exact ⟨first, last, hfirst, hlast, rfl, rfl⟩
  · rintro ⟨first, last, hfirst, hlast, rfl, rfl⟩
    exact ⟨first, _, ⟨hfirst, rfl⟩, '-', _, ⟨rfl, rfl⟩, last, _, ⟨hlast, rfl⟩, rfl, rfl⟩

theorem classChar_of_head?_eq {u u' : List Char} (h : u'.head? = u.head?)
    (hu : classChar u = .miss) : classChar u' = .miss := by
  rw [classChar, noneOf, satisfy_eq_miss] at hu ⊢
  intro c hc
  exact hu c (by rw [← h, hc])

/-- A character that begins no range begins none in a recast text. -/
theorem spanMember_miss {c : Char} (hc : ClassPlain c) {u u' : List Char} (h : Recast u u')
    (hu : spanMember (c :: u) = .miss) : spanMember (c :: u') = .miss := by
  have hfirst : ∀ s, classChar (c :: s) = .read c s := by
    intro s
    exact classChar_eq_read.mpr ⟨hc, rfl⟩
  rw [spanMember, bind_of_read (hfirst _), bind_eq_miss] at hu ⊢
  rcases hu with hdash | ⟨d, t, hdash, hu⟩
  · refine .inl (char_eq_miss.mpr ?_)
    rw [h.head?_eq]
    exact char_eq_miss.mp hdash
  · obtain ⟨rfl, rfl⟩ := char_eq_read.mp hdash
    obtain ⟨t', rfl⟩ := List.head?_eq_some_iff.mp h.head?_eq
    have htail : Recast t t' := h.tail (by decide) (by decide) (by decide)
    refine .inr ⟨'-', t', char_cons _ _, ?_⟩
    rw [bind_eq_miss] at hu ⊢
    rcases hu with hlast | ⟨last, more, -, hpure⟩
    · exact .inl (classChar_of_head?_eq htail.head?_eq hlast)
    · simp at hpure

theorem member_eq (s : List Char) :
    member s = ((fun cs => .escaped (String.ofList cs)) <$> namedMember <|>
      ((fun cs => .escaped (String.ofList cs)) <$> escape <|>
        (spanMember <|> (fun c => .symbol (.ofChar c)) <$> classChar)) : Parser Member) s := rfl

/-- A member of a class is kept as written, and is read back before a recast text. -/
theorem member_readBack {s mid v : List Char} {m : Member} (h : member s = .read m mid)
    (hv : Recast mid v) :
    s = m.written ++ mid ∧ Verbatim m.written ∧ m.written ≠ [] ∧
      member (m.written ++ v) = .read m v := by
  simp only [member_eq, orElse_eq_read, map_eq_read] at h ⊢
  rcases h with ⟨cs, rfl, hnamed⟩ | ⟨hnamed, ⟨cs, rfl, hescape⟩ | ⟨-, hspan | ⟨hspan, c, rfl, hc⟩⟩⟩
  · obtain ⟨name, rfl, hne, hall, rfl⟩ := namedMember_eq_read.mp hnamed
    have hwritten : (Member.escaped (String.ofList (['[', ':'] ++ name ++ [':', ']']))).written =
        ['[', ':'] ++ name ++ [':', ']'] := by
      simp [Member.written]
    rw [hwritten]
    refine ⟨by simp, ?_, by simp, .inl ⟨_, rfl, ?_⟩⟩
    · exact ((verbatim_of_forall (by simp)).append (verbatim_of_isAlpha hall)).append
        (verbatim_of_forall (by simp))
    · exact namedMember_eq_read.mpr ⟨name, rfl, hne, hall, by simp⟩
  · obtain ⟨c, rfl, rfl⟩ := escape_eq_read.mp hescape
    have hwritten : (Member.escaped (String.ofList ['\\', c])).written = ['\\', c] := by
      simp [Member.written]
    rw [hwritten]
    refine ⟨rfl, verbatim_escape c, by simp, .inr ⟨map_eq_miss.mpr ?_, .inl ⟨_, rfl, ?_⟩⟩⟩
    · exact opensWith_namedMember.miss (by simp)
    · exact escape_eq_read.mpr ⟨c, rfl, rfl⟩
  · obtain ⟨first, last, hfirst, hlast, rfl, rfl⟩ := spanMember_eq_read.mp hspan
    refine ⟨rfl, ?_, by simp [Member.written], .inr ⟨map_eq_miss.mpr ?_, .inr ⟨?_, .inl ?_⟩⟩⟩
    · refine verbatim_of_forall ?_
      intro c hc
      simp only [Member.written, List.mem_cons, List.not_mem_nil, or_false] at hc
      rcases hc with rfl | rfl | rfl
      · exact ⟨hfirst.ne.1, hfirst.ne.2.1⟩
      · exact ⟨by decide, by decide⟩
      · exact ⟨hlast.ne.1, hlast.ne.2.1⟩
    · rw [namedMember, bind_eq_miss]
      refine .inl (text_eq_miss.mpr ?_)
      rintro ⟨t, ht⟩
      simp [Member.written] at ht
    · exact map_eq_miss.mpr (opensWith_escape.miss (by simpa [Member.written] using hfirst.ne.2.1))
    · exact spanMember_eq_read.mpr ⟨first, last, hfirst, hlast, rfl, rfl⟩
  · obtain ⟨hplain, rfl⟩ := classChar_eq_read.mp hc
    have hwritten : (Member.symbol (.ofChar c)).written = [c] := by
      simp [Member.written, Symbol.ofChar, Symbol.written]
    rw [hwritten]
    refine ⟨rfl, verbatim_char hplain.ne.1 hplain.ne.2.1, by simp,
      .inr ⟨?_, .inr ⟨?_, .inr ⟨?_, ?_⟩⟩⟩⟩
    · rw [map_eq_miss] at hnamed ⊢
      exact steady_namedMember.miss (.plain hplain.ne.1 hplain.ne.2.1 hv) hnamed
    · exact map_eq_miss.mpr (opensWith_escape.miss (by simpa using hplain.ne.2.1))
    · exact spanMember_miss hplain hv hspan
    · exact ⟨c, rfl, classChar_eq_read.mpr ⟨hplain, rfl⟩⟩

theorem member_of_close (s : List Char) : member (']' :: s) = .miss := by
  rw [member_eq, orElse_eq_miss, orElse_eq_miss, orElse_eq_miss, map_eq_miss, map_eq_miss,
    map_eq_miss, spanMember, bind_eq_miss]
  have hchar : classChar (']' :: s) = .miss := by
    rw [classChar, noneOf, satisfy_eq_miss]
    simp
  exact ⟨opensWith_namedMember.miss (by simp), opensWith_escape.miss (by simp), .inl hchar, hchar⟩

/-- The members of a class are kept as written, and are read back up to the closing bracket. -/
theorem members_readBack {s mid v : List Char} {ms : List Member}
    (h : many member s = .read ms (']' :: mid)) (hv : Recast mid v) :
    s = ms.flatMap Member.written ++ ']' :: mid ∧ Verbatim (ms.flatMap Member.written) ∧
      many member (ms.flatMap Member.written ++ ']' :: v) = .read ms (']' :: v) := by
  induction ms generalizing s with
  | nil => exact ⟨many_eq_read_nil h, verbatim_nil, many_of_miss (member_of_close v)⟩
  | cons m ms ih =>
    obtain ⟨next, hm, -, hms⟩ := many_eq_read_cons.mp h
    obtain ⟨rfl, hverbatim, hagain⟩ := ih hms
    have hnext : Recast (ms.flatMap Member.written ++ ']' :: mid)
        (ms.flatMap Member.written ++ ']' :: v) :=
      hverbatim _ _ (.plain (by decide) (by decide) hv)
    obtain ⟨rfl, hkept, hne, hback⟩ := member_readBack hm hnext
    rw [List.flatMap_cons, List.append_assoc, List.append_assoc]
    exact ⟨rfl, hkept.append hverbatim,
      many_eq_read_cons.mpr ⟨_, hback, length_lt_append hne _, hagain⟩⟩

theorem charClass_eq_read {s rest : List Char} {cc : CharClass} :
    charClass s = .read cc rest ↔
      ∃ inside, s = '[' :: inside ∧ ∃ members,
        present (char '^') inside = .read cc.negated members ∧
          many1 member members = .read cc.members (']' :: rest) := by
  obtain ⟨negated, ms⟩ := cc
  rw [charClass]
  simp only [bind_eq_read, char_eq_read, pure_eq_read, CharClass.mk.injEq]
  constructor
  · rintro ⟨_, inside, ⟨rfl, rfl⟩, _, members, hbar, _, _, hms, _, _, ⟨rfl, rfl⟩, ⟨rfl, rfl⟩, rfl⟩
    exact ⟨inside, rfl, members, hbar, hms⟩
  · rintro ⟨inside, rfl, members, hbar, hms⟩
    exact ⟨'[', inside, ⟨rfl, rfl⟩, negated, members, hbar, ms, _, hms, ']', rest, ⟨rfl, rfl⟩,
      ⟨rfl, rfl⟩, rfl⟩

theorem member_length {s mid : List Char} {m : Member} (h : member s = .read m mid) :
    mid.length < s.length := by
  simp only [member_eq, orElse_eq_read, map_eq_read] at h
  rcases h with ⟨cs, rfl, hnamed⟩ | ⟨-, ⟨cs, rfl, hescape⟩ | ⟨-, hspan | ⟨-, c, rfl, hc⟩⟩⟩
  · obtain ⟨name, -, -, -, rfl⟩ := namedMember_eq_read.mp hnamed
    simp
    omega
  · obtain ⟨c, -, rfl⟩ := escape_eq_read.mp hescape
    simp only [List.length_cons]
    omega
  · obtain ⟨first, last, -, -, -, rfl⟩ := spanMember_eq_read.mp hspan
    simp only [List.length_cons]
    omega
  · obtain ⟨-, rfl⟩ := classChar_eq_read.mp hc
    simp

theorem charClass_length {s mid : List Char} {cc : CharClass} (h : charClass s = .read cc mid) :
    mid.length < s.length := by
  obtain ⟨inside, rfl, members, hbar, hms⟩ := charClass_eq_read.mp h
  obtain ⟨m, next, ms, -, hm, hmore⟩ := many1_eq_read.mp hms
  have hinside : members.length ≤ inside.length := by
    rcases present_eq_read.mp hbar with ⟨-, c, hc⟩ | ⟨-, -, rfl⟩
    · obtain ⟨-, rfl⟩ := char_eq_read.mp hc
      simp
    · exact Nat.le_refl _
  have hfirst := member_length hm
  have hlast := length_le_of_many hmore
  simp only [List.length_cons] at hlast ⊢
  omega

theorem opensWith_charClass : OpensWith ['['] charClass := (opensWith_char '[').bind _

/-- A character class is kept as written, and is read back before a recast text. -/
theorem charClass_readBack {s mid v : List Char} {cc : CharClass}
    (h : charClass s = .read cc mid) (hv : Recast mid v) :
    s = cc.written ++ mid ∧ Verbatim cc.written ∧ charClass (cc.written ++ v) = .read cc v := by
  obtain ⟨inside, rfl, members, hbar, hms⟩ := charClass_eq_read.mp h
  obtain ⟨m, next, ms, hall, hm, hmore⟩ := many1_eq_read.mp hms
  obtain ⟨rfl, hverbatim, hagain⟩ := members_readBack hmore hv
  have hnext : Recast (ms.flatMap Member.written ++ ']' :: mid)
      (ms.flatMap Member.written ++ ']' :: v) :=
    hverbatim _ _ (.plain (by decide) (by decide) hv)
  obtain ⟨rfl, hkept, -, hback⟩ := member_readBack hm hnext
  have hmembers : Recast (m.written ++ (ms.flatMap Member.written ++ ']' :: mid))
      (m.written ++ (ms.flatMap Member.written ++ ']' :: v)) := hkept _ _ hnext
  have hbars : inside = (if cc.negated then ['^'] else []) ++
      (m.written ++ (ms.flatMap Member.written ++ ']' :: mid)) ∧
      present (char '^') ((if cc.negated then ['^'] else []) ++
        (m.written ++ (ms.flatMap Member.written ++ ']' :: v))) =
          .read cc.negated (m.written ++ (ms.flatMap Member.written ++ ']' :: v)) := by
    rcases present_eq_read.mp hbar with ⟨hnegated, c, hc⟩ | ⟨hnegated, hmiss, rfl⟩
    · obtain ⟨-, rfl⟩ := char_eq_read.mp hc
      rw [hnegated]
      exact ⟨rfl, present_eq_read.mpr (.inl ⟨rfl, '^', char_cons _ _⟩)⟩
    · rw [hnegated]
      refine ⟨rfl, present_eq_read.mpr (.inr ⟨rfl, char_eq_miss.mpr ?_, rfl⟩)⟩
      change (m.written ++ (ms.flatMap Member.written ++ ']' :: v)).head? ≠ some '^'
      rw [hmembers.head?_eq]
      exact char_eq_miss.mp hmiss
  obtain ⟨rfl, hbar'⟩ := hbars
  have hwritten : cc.written = '[' :: ((if cc.negated then ['^'] else []) ++
      (m.written ++ (ms.flatMap Member.written ++ [']']))) := by
    simp [CharClass.written, hall]
  rw [hwritten]
  refine ⟨by simp, ?_, charClass_eq_read.mpr ⟨_, rfl, _, ?_, many1_eq_read.mpr
    ⟨m, _, ms, hall, hback, hagain⟩⟩⟩
  · refine Verbatim.cons (Verbatim.append ?_ (hkept.append (hverbatim.append
      (verbatim_char (by decide) (by decide))))) (by decide) (by decide)
    cases cc.negated with
    | true => exact verbatim_char (by decide) (by decide)
    | false => exact verbatim_nil
  · simpa using hbar'

end CorpusCost.Regex
