import CorpusCost.Proofs.Recast

/-!
# Look-arounds

A look-around is kept as written, so it is read back whatever follows its closing bracket. Text
that is none does not become one when bounds are rewritten behind it: the inside of a look-around
takes bounds for plain characters, and ends at the same bracket in recast texts.
-/

set_option autoImplicit false

namespace CorpusCost.Regex

open CorpusCost.Parser

variable {α : Type}

/-! ## The inside of a look-around -/

theorem escape_eq_read {s mid cs : List Char} :
    escape s = .read cs mid ↔ ∃ c, cs = ['\\', c] ∧ s = '\\' :: c :: mid := by
  rw [escape]
  simp only [bind_eq_read, char_eq_read, anyChar_eq_read, pure_eq_read]
  constructor
  · rintro ⟨_, _, ⟨rfl, rfl⟩, c, _, rfl, rfl, rfl⟩
    exact ⟨c, rfl, rfl⟩
  · rintro ⟨c, rfl, rfl⟩
    exact ⟨'\\', c :: mid, ⟨rfl, rfl⟩, c, mid, rfl, rfl, rfl⟩

theorem opensWith_escape : OpensWith ['\\'] escape := (opensWith_char '\\').bind _

/-- The characters that stand for themselves inside a look-around. -/
def LookPlain (c : Char) : Prop := c ∉ ['(', ')', '\\', '"']

/-- The bracketed text inside a look-around. -/
def lookBracket (inner : Nesting → Parser (List Char)) (nesting : Nesting) :
    Parser (List Char) := do
  let opening ← char '('
  let body ← nested nesting inner
  let closing ← char ')'
  pure (opening :: body ++ [closing])

theorem lookPart_eq (inner : Nesting → Parser (List Char)) (nesting : Nesting) (s : List Char) :
    lookPart inner nesting s =
      (escape <|> (lookBracket inner nesting <|>
        (fun c => [c]) <$> noneOf ['(', ')', '\\', '"'])) s := rfl

theorem lookBracket_eq_read {inner : Nesting → Parser (List Char)} {nesting : Nesting}
    {s mid part : List Char} :
    lookBracket inner nesting s = .read part mid ↔
      ∃ body inside, part = '(' :: body ++ [')'] ∧ s = '(' :: inside ∧ nesting.full = false ∧
        inner nesting.deeper inside = .read body (')' :: mid) := by
  rw [lookBracket]
  simp only [bind_eq_read, char_eq_read, nested_eq_read, pure_eq_read]
  constructor
  · rintro ⟨_, inside, ⟨rfl, rfl⟩, body, _, ⟨hfull, hbody⟩, _, _, ⟨rfl, rfl⟩, rfl, rfl⟩
    exact ⟨body, inside, rfl, rfl, hfull, hbody⟩
  · rintro ⟨body, inside, rfl, rfl, hfull, hbody⟩
    exact ⟨'(', inside, ⟨rfl, rfl⟩, body, ')' :: mid, ⟨hfull, hbody⟩, ')', mid, ⟨rfl, rfl⟩, rfl,
      rfl⟩

theorem opensWith_lookBracket {inner : Nesting → Parser (List Char)} {nesting : Nesting} :
    OpensWith ['('] (lookBracket inner nesting) :=
  (opensWith_char '(').bind _

/-- A bracket has been read before the grammar refers to itself, so the limit on lengths does not
show. -/
theorem lookBracket_shorter {n : Nat} {s : List Char} (hs : s.length ≤ n)
    (inner : Nesting → Parser (List Char)) (nesting : Nesting) :
    lookBracket (fun deeper => shorter n (inner deeper)) nesting s =
      lookBracket inner nesting s := by
  cases hopen : char '(' s with
  | read c inside =>
    obtain ⟨rfl, rfl⟩ := char_eq_read.mp hopen
    rw [List.length_cons] at hs
    have hinside : nested nesting (fun deeper => shorter n (inner deeper)) inside =
        nested nesting inner inside := by
      unfold nested
      split
      · rfl
      · exact if_pos (show inside.length < n by omega)
    unfold lookBracket
    rw [bind_of_read hopen, bind_of_read hopen, bind_apply, bind_apply, andThen, andThen, hinside]
  | miss =>
    unfold lookBracket
    rw [bind_of_miss hopen, bind_of_miss hopen]
  | tooDeep rest =>
    unfold lookBracket
    rw [bind_of_tooDeep hopen, bind_of_tooDeep hopen]

theorem lookPart_shorter {n : Nat} {s : List Char} (hs : s.length ≤ n)
    (inner : Nesting → Parser (List Char)) (nesting : Nesting) :
    lookPart (fun deeper => shorter n (inner deeper)) nesting s = lookPart inner nesting s := by
  rw [lookPart_eq, lookPart_eq]
  change orElse _ (orElse _ _) s = orElse _ (orElse _ _) s
  unfold orElse
  rw [lookBracket_shorter hs]

theorem lookBody_eq (nesting : Nesting) (s : List Char) :
    lookBody nesting s = (many (lookPart lookBody nesting) s).map List.flatten := by
  change recursive _ nesting s = _
  rw [recursive_eq, map_apply]
  congr 1
  exact many_congr fun t ht => lookPart_shorter ht lookBody nesting

/-! ## Reading back -/

theorem lookPart_eq_read {nesting : Nesting} {s mid part : List Char}
    (h : lookPart lookBody nesting s = .read part mid) :
    (∃ c, part = ['\\', c] ∧ s = '\\' :: c :: mid) ∨
      (∃ body inside, part = '(' :: body ++ [')'] ∧ s = '(' :: inside ∧ nesting.full = false ∧
        lookBody nesting.deeper inside = .read body (')' :: mid)) ∨
      ∃ c, LookPlain c ∧ part = [c] ∧ s = c :: mid := by
  rw [lookPart_eq, orElse_eq_read, orElse_eq_read] at h
  rcases h with hescape | ⟨-, hbracket | ⟨-, hplain⟩⟩
  · exact .inl (escape_eq_read.mp hescape)
  · exact .inr (.inl (lookBracket_eq_read.mp hbracket))
  · obtain ⟨c, rfl, hc⟩ := map_eq_read.mp hplain
    obtain ⟨hnone, rfl⟩ := noneOf_eq_read.mp hc
    exact .inr (.inr ⟨c, hnone, rfl, rfl⟩)

theorem lookPart_escape (nesting : Nesting) (c : Char) (s : List Char) :
    lookPart lookBody nesting ('\\' :: c :: s) = .read ['\\', c] s := by
  rw [lookPart_eq, orElse_eq_read]
  exact .inl (escape_eq_read.mpr ⟨c, rfl, rfl⟩)

theorem lookPart_bracket {nesting : Nesting} {body inside mid : List Char}
    (hfull : nesting.full = false)
    (h : lookBody nesting.deeper inside = .read body (')' :: mid)) :
    lookPart lookBody nesting ('(' :: inside) = .read ('(' :: body ++ [')']) mid := by
  rw [lookPart_eq, orElse_eq_read, orElse_eq_read]
  exact .inr ⟨opensWith_escape.miss (by simp),
    .inl (lookBracket_eq_read.mpr ⟨body, inside, rfl, rfl, hfull, h⟩)⟩

theorem lookPart_plain {c : Char} (hc : LookPlain c) (nesting : Nesting) (s : List Char) :
    lookPart lookBody nesting (c :: s) = .read [c] s := by
  have hslash : c ≠ '\\' := by
    rintro rfl
    simp [LookPlain] at hc
  have hopen : c ≠ '(' := by
    rintro rfl
    simp [LookPlain] at hc
  rw [lookPart_eq, orElse_eq_read, orElse_eq_read]
  refine .inr ⟨opensWith_escape.miss (by simpa using hslash), .inr
    ⟨opensWith_lookBracket.miss (by simpa using hopen), ?_⟩⟩
  exact map_eq_read.mpr ⟨c, rfl, noneOf_eq_read.mpr ⟨hc, rfl⟩⟩

/-- A closing bracket or a quote ends the inside of a look-around. -/
theorem lookPart_of_end {c : Char} (hc : c = ')' ∨ c = '"') (nesting : Nesting) (s : List Char) :
    lookPart lookBody nesting (c :: s) = .miss := by
  rw [lookPart_eq, orElse_eq_miss, orElse_eq_miss, map_eq_miss, noneOf, satisfy_eq_miss]
  rcases hc with rfl | rfl
  · exact ⟨opensWith_escape.miss (by simp), opensWith_lookBracket.miss (by simp), by simp⟩
  · exact ⟨opensWith_escape.miss (by simp), opensWith_lookBracket.miss (by simp), by simp⟩

/-- What is read of the inside of a look-around is kept as written, and is read back up to a closing
bracket. -/
def LookReadBack (nesting : Nesting) (s : List Char) : Prop :=
  ∀ body rest, lookBody nesting s = .read body rest → s = body ++ rest ∧ Verbatim body ∧
    ∀ rest', lookBody nesting (body ++ ')' :: rest') = .read body (')' :: rest')

theorem LookPlain.verbatim {c : Char} (hc : LookPlain c) : Verbatim [c] := by
  refine verbatim_char ?_ ?_
  · rintro rfl
    simp [LookPlain] at hc
  · rintro rfl
    simp [LookPlain] at hc

/-- A part of a look-around is read back, whatever follows it, if what it has in brackets is. -/
theorem lookPart_readBack {nesting : Nesting} {s mid part : List Char}
    (hinner : ∀ inside, inside.length < s.length → LookReadBack nesting.deeper inside)
    (h : lookPart lookBody nesting s = .read part mid) :
    s = part ++ mid ∧ Verbatim part ∧ part ≠ [] ∧
      ∀ mid', lookPart lookBody nesting (part ++ mid') = .read part mid' := by
  rcases lookPart_eq_read h with ⟨c, rfl, rfl⟩ | hbracket | ⟨c, hc, rfl, rfl⟩
  · exact ⟨rfl, verbatim_escape c, by simp, fun mid' => lookPart_escape nesting c mid'⟩
  · obtain ⟨inner, inside, rfl, rfl, hfull, hread⟩ := hbracket
    obtain ⟨rfl, hkept, hback⟩ := hinner inside (by simp) inner _ hread
    refine ⟨by simp, ?_, by simp, ?_⟩
    · rw [List.cons_append]
      exact (hkept.append (verbatim_char (by decide) (by decide))).cons (by decide) (by decide)
    · intro mid'
      have htext : '(' :: inner ++ [')'] ++ mid' = '(' :: (inner ++ ')' :: mid') := by
        simp
      rw [htext]
      exact lookPart_bracket hfull (hback mid')
  · exact ⟨rfl, hc.verbatim, by simp, fun mid' => lookPart_plain hc nesting mid'⟩

theorem lookParts_readBack {nesting : Nesting} {s rest : List Char} {parts : List (List Char)}
    (hinner : ∀ inside, inside.length < s.length → LookReadBack nesting.deeper inside)
    (h : many (lookPart lookBody nesting) s = .read parts rest) :
    s = parts.flatten ++ rest ∧ Verbatim parts.flatten ∧
      ∀ rest', many (lookPart lookBody nesting) (parts.flatten ++ ')' :: rest') =
        .read parts (')' :: rest') := by
  induction parts generalizing s with
  | nil =>
    refine ⟨many_eq_read_nil h, verbatim_nil, ?_⟩
    intro rest'
    exact many_of_miss (lookPart_of_end (.inl rfl) nesting rest')
  | cons part parts ih =>
    obtain ⟨mid, hpart, hmid, hmore⟩ := many_eq_read_cons.mp h
    obtain ⟨hs, hkept, hne, hback⟩ := lookPart_readBack hinner hpart
    obtain ⟨hrest, hverbatim, hagain⟩ :=
      ih (fun inside hinside => hinner inside (Nat.lt_trans hinside hmid)) hmore
    refine ⟨?_, hkept.append hverbatim, ?_⟩
    · rw [hs, hrest, List.flatten_cons, List.append_assoc]
    · intro rest'
      rw [List.flatten_cons, List.append_assoc]
      exact many_eq_read_cons.mpr ⟨_, hback _, length_lt_append hne _, hagain rest'⟩

/-- The inside of a look-around is kept as written, and is read back up to a closing bracket. -/
theorem lookBody_readBack {nesting : Nesting} {s body rest : List Char}
    (h : lookBody nesting s = .read body rest) :
    s = body ++ rest ∧ Verbatim body ∧
      ∀ rest', lookBody nesting (body ++ ')' :: rest') = .read body (')' :: rest') := by
  induction hn : s.length using Nat.strongRecOn generalizing nesting s body rest with
  | ind n ih =>
    subst hn
    rw [lookBody_eq, Outcome.map_eq_read] at h
    obtain ⟨parts, rfl, hparts⟩ := h
    obtain ⟨hs, hverbatim, hagain⟩ := lookParts_readBack
      (fun inside hinside _ _ hread => ih inside.length hinside hread rfl) hparts
    refine ⟨hs, hverbatim, ?_⟩
    intro rest'
    rw [lookBody_eq, hagain rest']
    rfl

theorem look_eq_read {nesting : Nesting} {s rest cs : List Char} :
    look nesting s = .read cs rest ↔
      ∃ body, cs = ['(', '?'] ++ body ++ [')'] ∧
        ∃ inside, s = '(' :: '?' :: inside ∧
          lookBody nesting inside = .read body (')' :: rest) := by
  rw [look]
  simp only [bind_eq_read, text_eq_read, char_eq_read, pure_eq_read]
  constructor
  · rintro ⟨_, inside, rfl, body, _, hbody, _, _, ⟨rfl, rfl⟩, rfl, rfl⟩
    exact ⟨body, rfl, inside, rfl, hbody⟩
  · rintro ⟨body, rfl, inside, rfl, hbody⟩
    exact ⟨(), inside, rfl, body, ')' :: rest, hbody, ')', rest, ⟨rfl, rfl⟩, rfl, rfl⟩

/-- A look-around is kept as written, and is read back whatever follows it. -/
theorem look_readBack {nesting : Nesting} {s rest cs : List Char}
    (h : look nesting s = .read cs rest) :
    s = cs ++ rest ∧ Verbatim cs ∧ ∀ rest', look nesting (cs ++ rest') = .read cs rest' := by
  obtain ⟨body, rfl, inside, rfl, hbody⟩ := look_eq_read.mp h
  obtain ⟨rfl, hverbatim, hback⟩ := lookBody_readBack hbody
  refine ⟨by simp, ?_, ?_⟩
  · refine Verbatim.append (Verbatim.append ?_ hverbatim) ?_
    · exact verbatim_of_forall (by simp)
    · exact verbatim_of_forall (by simp)
  · intro rest'
    exact look_eq_read.mpr ⟨body, rfl, body ++ ')' :: rest', by simp, hback rest'⟩

/-! ## What is no look-around -/

theorem lookPlain_of_isDigit {c : Char} (h : c.isDigit = true) : LookPlain c := by
  intro hc
  simp only [List.mem_cons, List.not_mem_nil, or_false] at hc
  rcases hc with rfl | rfl | rfl | rfl <;> simp at h

/-- Bounds are plain characters to a look-around, as read. -/
theorem lookPlain_bounds {u v : List Char} {b : Bounds} (h : Parser.bounds u = .read b v) :
    ∃ cs, cs ≠ [] ∧ (∀ c ∈ cs, LookPlain c) ∧ u = cs ++ v := by
  have hnumber : ∀ {s rest : List Char} {n : Nat}, number s = .read n rest →
      ∃ cs, (∀ c ∈ cs, LookPlain c) ∧ s = cs ++ rest := by
    intro s rest n hread
    obtain ⟨digits, hdigits, -, -⟩ := numberUpTo_eq_read.mp hread
    obtain ⟨-, hall, -, hs⟩ := takeWhile1_eq_read.mp hdigits
    exact ⟨digits, fun c hc => lookPlain_of_isDigit (hall c hc), hs⟩
  have hinside : ∀ cs : List Char, (∀ c ∈ cs, LookPlain c) →
      ∀ c ∈ '\x7b' :: cs ++ ['\x7d'], LookPlain c := by
    intro cs hcs c hc
    simp only [List.cons_append, List.mem_cons, List.mem_append, List.not_mem_nil, or_false] at hc
    rcases hc with rfl | hc | rfl
    · simp [LookPlain]
    · exact hcs c hc
    · simp [LookPlain]
  obtain ⟨_, inside, _, after, hopen, hrange, hclose⟩ := between_eq_read.mp h
  obtain ⟨-, rfl⟩ := char_eq_read.mp hopen
  obtain ⟨-, rfl⟩ := char_eq_read.mp hclose
  suffices hcs : ∃ cs, (∀ c ∈ cs, LookPlain c) ∧ inside = cs ++ '\x7d' :: v by
    obtain ⟨cs, hplain, rfl⟩ := hcs
    exact ⟨'\x7b' :: cs ++ ['\x7d'], by simp, hinside cs hplain, by simp⟩
  rcases orElse_eq_read.mp hrange with hboth | ⟨-, hone⟩
  · simp only [bind_eq_read, char_eq_read, pure_eq_read] at hboth
    obtain ⟨lo, _, hlo, _, mid, ⟨-, rfl⟩, hi, _, hhi, -, rfl⟩ := hboth
    obtain ⟨ds, hds, rfl⟩ := hnumber hlo
    obtain ⟨es, hes, rfl⟩ : ∃ es, (∀ c ∈ es, LookPlain c) ∧ mid = es ++ '\x7d' :: v := by
      rcases optional_eq_read.mp hhi with ⟨n, -, hread⟩ | ⟨-, -, rfl⟩
      · exact hnumber hread
      · exact ⟨[], by simp, rfl⟩
    refine ⟨ds ++ ',' :: es, ?_, by simp⟩
    intro c hc
    rcases List.mem_append.mp hc with hc | hc
    · exact hds c hc
    · rcases List.mem_cons.mp hc with rfl | hc
      · simp [LookPlain]
      · exact hes c hc
  · simp only [bind_eq_read, pure_eq_read] at hone
    obtain ⟨n, _, hn, -, rfl⟩ := hone
    exact hnumber hn

/-- Bounds are plain characters to a look-around, as written. -/
theorem lookPlain_written (b : Bounds) : ∀ c ∈ b.written, LookPlain c := by
  have hdigit : ∀ (n : Nat) (c : Char), c ∈ Text.natural n → LookPlain c := by
    intro n c hc
    exact lookPlain_of_isDigit (isDigit_of_mem_natural hc)
  have hsign : LookPlain '\x7b' ∧ LookPlain ',' ∧ LookPlain '\x7d' := by simp [LookPlain]
  obtain ⟨hopen, hcomma, hclose⟩ := hsign
  intro c hc
  unfold Bounds.written at hc
  split at hc
  · simp only [List.cons_append, List.mem_cons, List.mem_append, List.not_mem_nil, or_false] at hc
    rcases hc with rfl | hc | rfl | rfl
    · exact hopen
    · exact hdigit _ c hc
    · exact hcomma
    · exact hclose
  · split at hc
    · simp only [List.cons_append, List.mem_cons, List.mem_append, List.not_mem_nil, or_false] at hc
      rcases hc with rfl | hc | rfl
      · exact hopen
      · exact hdigit _ c hc
      · exact hclose
    · simp only [List.cons_append, List.append_assoc, List.mem_cons, List.mem_append,
        List.not_mem_nil, or_false] at hc
      rcases hc with rfl | hc | rfl | hc | rfl
      · exact hopen
      · exact hdigit _ c hc
      · exact hcomma
      · exact hdigit _ c hc
      · exact hclose

theorem erased_many_plain {cs : List Char} (hcs : ∀ c ∈ cs, LookPlain c) (nesting : Nesting)
    (s : List Char) :
    (many (lookPart lookBody nesting) (cs ++ s)).erased =
      (many (lookPart lookBody nesting) s).erased := by
  induction cs with
  | nil => rfl
  | cons c cs ih =>
    have hread := lookPart_plain (hcs c (by simp)) nesting (cs ++ s)
    rw [List.cons_append, erased_many_of_read hread (by simp)]
    exact ih fun d hd => hcs d (by simp [hd])

theorem erased_lookBody (nesting : Nesting) (s : List Char) :
    (lookBody nesting s).erased = (many (lookPart lookBody nesting) s).erased := by
  rw [lookBody_eq]
  cases many (lookPart lookBody nesting) s <;> rfl

theorem lookPart_length {nesting : Nesting} {s mid part : List Char}
    (h : lookPart lookBody nesting s = .read part mid) : mid.length < s.length := by
  rcases lookPart_eq_read h with ⟨c, -, rfl⟩ | ⟨body, inside, -, rfl, -, hbody⟩ | ⟨c, -, -, rfl⟩
  · simp only [List.length_cons]
    omega
  · obtain ⟨rfl, -, -⟩ := lookBody_readBack hbody
    simp only [List.length_append, List.length_cons]
    omega
  · simp

/-- A repetition ends alike on recast texts when its item does, and when it does behind the
item. -/
theorem alike_many {p : Parser α} {u u' : List Char} (hshrinks : ∀ {s mid : List Char} {a : α},
      p s = .read a mid → mid.length < s.length)
    (hitem : Alike Recast (p u).erased (p u').erased)
    (hmore : ∀ mid mid', mid.length < u.length → Recast mid mid' →
      Alike Recast (many p mid).erased (many p mid').erased)
    (h : Recast u u') : Alike Recast (many p u).erased (many p u').erased := by
  cases hu : p u with
  | read a mid =>
    rw [hu] at hitem
    obtain ⟨mid', hu', hmid⟩ := hitem.read_left
    obtain ⟨a', -, hu'⟩ := Outcome.map_eq_read.mp hu'
    rw [erased_many_of_read hu (hshrinks hu), erased_many_of_read hu' (hshrinks hu')]
    exact hmore mid mid' (hshrinks hu) hmid
  | miss =>
    rw [hu] at hitem
    have hu' := Outcome.map_eq_miss.mp hitem.miss_left
    rw [many_of_miss hu, many_of_miss hu']
    exact ⟨rfl, h⟩
  | tooDeep r =>
    rw [hu] at hitem
    obtain ⟨r', hu'⟩ := hitem.tooDeep_left
    have hdeep : ∃ r'', p u' = .tooDeep r'' := by
      cases hp : p u' with
      | read a mid => simp [hp, Outcome.erased, Outcome.map] at hu'
      | miss => simp [hp, Outcome.erased, Outcome.map] at hu'
      | tooDeep r'' => exact ⟨r'', rfl⟩
    obtain ⟨r'', hu'⟩ := hdeep
    rw [many, many, hu, hu']
    trivial

/-- The bracketed text inside a look-around, without its value. -/
theorem erased_lookBracket (nesting : Nesting) (s : List Char) :
    (lookBracket lookBody nesting ('(' :: s)).erased =
      (erased (nested nesting lookBody) >>= fun _ => erased (char ')')) s := by
  rw [lookBracket, bind_of_read (char_cons '(' s)]
  refine erased_bind ?_ s
  intro body
  funext r
  rw [erased_apply, erased_apply, bind_apply, andThen]
  cases char ')' r <;> rfl

theorem erased_lookPart_openBracket (nesting : Nesting) (s : List Char) :
    (lookPart lookBody nesting ('(' :: s)).erased =
      (lookBracket lookBody nesting ('(' :: s)).erased := by
  have hplain : noneOf ['(', ')', '\\', '"'] ('(' :: s) = .miss :=
    satisfy_eq_miss.mpr (by simp)
  rw [lookPart_eq, orElse_of_miss (opensWith_escape.miss (by simp))]
  change (orElse _ _ _).erased = _
  unfold orElse
  cases lookBracket lookBody nesting ('(' :: s) with
  | read part mid => rfl
  | miss =>
    dsimp only
    rw [map_eq_miss.mpr hplain]
  | tooDeep r => rfl

/-- On recast texts the inside of a look-around ends alike. -/
theorem alike_lookBody {nesting : Nesting} {u u' : List Char} (h : Recast u u') :
    Alike Recast (lookBody nesting u).erased (lookBody nesting u').erased := by
  induction hn : u.length using Nat.strongRecOn generalizing nesting u u' with
  | ind n ih =>
    subst hn
    rw [erased_lookBody, erased_lookBody]
    have hmore : ∀ mid mid', mid.length < u.length → Recast mid mid' →
        Alike Recast (many (lookPart lookBody nesting) mid).erased
          (many (lookPart lookBody nesting) mid').erased := by
      intro mid mid' hlength hmid
      rw [← erased_lookBody, ← erased_lookBody]
      exact ih mid.length hlength hmid rfl
    have hrecast := h
    cases h with
    | close t t' =>
      refine alike_many lookPart_length ?_ hmore hrecast
      rw [lookPart_of_end (.inr rfl), lookPart_of_end (.inr rfl)]
      trivial
    | @escaped c v v' hv =>
      refine alike_many lookPart_length ?_ hmore hrecast
      rw [lookPart_escape, lookPart_escape]
      exact ⟨rfl, hv⟩
    | @bounds b u v v' hb hv =>
      -- The bounds are gone through one by one, and both spellings lead to the same place.
      obtain ⟨cs, hne, hcs, rfl⟩ := lookPlain_bounds hb
      rw [erased_many_plain hcs, erased_many_plain (lookPlain_written b)]
      have hpos := List.length_pos_iff.mpr hne
      exact hmore v v' (by rw [List.length_append]; omega) hv
    | @plain c v v' hquote hslash hv =>
      refine alike_many lookPart_length ?_ hmore hrecast
      by_cases hopen : c = '('
      · subst hopen
        rw [erased_lookPart_openBracket, erased_lookPart_openBracket, erased_lookBracket,
          erased_lookBracket]
        refine Alike.bind ?_ fun _ =>
          (steady_char (by decide) (by decide) (by decide)).erased
        rw [erased_apply, erased_apply, nested, nested]
        split
        · trivial
        · exact ih v.length (by simp) hv rfl
      · by_cases hclose : c = ')'
        · subst hclose
          rw [lookPart_of_end (.inl rfl), lookPart_of_end (.inl rfl)]
          trivial
        · have hplain : LookPlain c := by simp [LookPlain, hopen, hclose, hquote, hslash]
          rw [lookPart_plain hplain, lookPart_plain hplain]
          exact ⟨rfl, hv⟩

/-- What is no look-around does not become one in a recast text. -/
theorem look_miss {nesting : Nesting} {u u' : List Char} (h : Recast u u')
    (hu : look nesting u = .miss) : look nesting u' = .miss := by
  have hclose : Steady Recast (erased (char ')')) :=
    (steady_char (by decide) (by decide) (by decide)).erased
  have hinside : Steady Recast (erased (lookBody nesting)) := by
    intro v v' hv
    exact alike_lookBody hv
  have hlook : Steady Recast (erased (text "(?") >>= fun _ =>
      erased (lookBody nesting) >>= fun _ => erased (char ')')) :=
    (steady_text (by decide) (by decide) (by decide)).erased.bind fun _ =>
      hinside.bind fun _ => hclose
  have herased : ∀ s, (look nesting s).erased = (erased (text "(?") >>= fun _ =>
      erased (lookBody nesting) >>= fun _ => erased (char ')')) s := by
    intro s
    refine erased_bind ?_ s
    intro _
    funext inside
    refine erased_bind ?_ inside
    intro body
    funext r
    rw [erased_apply, erased_apply, bind_apply, andThen]
    cases char ')' r <;> rfl
  refine Outcome.map_eq_miss.mp ((herased u').trans (hlook.miss h ?_))
  rw [← herased u, Outcome.erased, Outcome.map_eq_miss]
  exact hu

end CorpusCost.Regex
