import CorpusCost.Proofs.ClassReadBack

/-!
# Atoms read back

An atom is read back before a recast text, with one exception: the escape `\p` or `\P` becomes a
property class where the name of a property follows it. No name of a property followed it before,
so that one follows now only where bounds with equal ends have been written behind it.
-/

set_option autoImplicit false

namespace CorpusCost.Regex

open CorpusCost.Parser

/-! ## Property classes -/

/-- The name of a property: in curly brackets, or a single letter. -/
def propertyName : Parser (List Char) :=
  bracedProperty <|> (do
    let c ← satisfy Char.isAlpha
    pure [c])

theorem propertyClass_eq_read {s rest cs : List Char} :
    propertyClass s = .read cs rest ↔ ∃ sign name, sign ∈ ['p', 'P'] ∧ cs = '\\' :: sign :: name ∧
      ∃ t, s = '\\' :: sign :: t ∧ propertyName t = .read name rest := by
  change (char '\\' >>= fun backslash => oneOf ['p', 'P'] >>= fun sign => propertyName >>=
    fun property => pure (backslash :: sign :: property)) s = _ ↔ _
  simp only [bind_eq_read, char_eq_read, oneOf_eq_read, pure_eq_read]
  constructor
  · rintro ⟨_, _, ⟨rfl, rfl⟩, sign, t, ⟨hsign, rfl⟩, name, _, hname, rfl, rfl⟩
    exact ⟨sign, name, hsign, rfl, t, rfl, hname⟩
  · rintro ⟨sign, name, hsign, rfl, t, rfl, hname⟩
    exact ⟨'\\', _, ⟨rfl, rfl⟩, sign, t, ⟨hsign, rfl⟩, name, rest, hname, rfl, rfl⟩

theorem propertyClass_eq_miss {c : Char} {t : List Char} :
    propertyClass ('\\' :: c :: t) = .miss ↔ (c ∈ ['p', 'P'] → propertyName t = .miss) := by
  change (char '\\' >>= fun backslash => oneOf ['p', 'P'] >>= fun sign => propertyName >>=
    fun property => pure (backslash :: sign :: property)) ('\\' :: c :: t) = _ ↔ _
  rw [bind_of_read (char_cons _ _)]
  by_cases hc : c ∈ ['p', 'P']
  · rw [bind_of_read (oneOf_eq_read.mpr ⟨hc, rfl⟩), bind_eq_miss]
    simp [hc]
  · have hmiss : oneOf ['p', 'P'] (c :: t) = .miss := by
      rw [oneOf_eq_miss]
      rintro d hd hhead
      obtain rfl : c = d := by simpa using hhead
      exact hc hd
    rw [bind_of_miss hmiss]
    simp [hc]

theorem opensWith_propertyClass : OpensWith ['\\'] propertyClass :=
  (opensWith_char '\\').bind _

/-- A character of the name of a property in curly brackets. -/
def isPropertyChar (c : Char) : Bool := c.isAlphanum || c == '_' || c == '='

theorem bracedProperty_eq_read {s rest cs : List Char} :
    bracedProperty s = .read cs rest ↔ ∃ name, cs = '\x7b' :: name ++ ['\x7d'] ∧ name ≠ [] ∧
      (∀ c ∈ name, isPropertyChar c = true) ∧ s = '\x7b' :: (name ++ '\x7d' :: rest) := by
  rw [bracedProperty]
  simp only [bind_eq_read, char_eq_read, takeWhile1_eq_read, pure_eq_read]
  constructor
  · rintro ⟨_, _, ⟨rfl, rfl⟩, name, _, ⟨hne, hall, -, rfl⟩, _, _, ⟨rfl, rfl⟩, rfl, rfl⟩
    exact ⟨name, rfl, hne, hall, rfl⟩
  · rintro ⟨name, rfl, hne, hall, rfl⟩
    exact ⟨'\x7b', _, ⟨rfl, rfl⟩, name, _, ⟨hne, hall, stops_cons.mpr rfl, rfl⟩, '\x7d', rest,
      ⟨rfl, rfl⟩, rfl, rfl⟩

theorem opensWith_bracedProperty : OpensWith ['\x7b'] bracedProperty :=
  (opensWith_char '\x7b').bind _

theorem propertyName_eq_miss {s : List Char} :
    propertyName s = .miss ↔ bracedProperty s = .miss ∧ Stops Char.isAlpha s := by
  rw [propertyName, orElse_eq_miss, bind_eq_miss, satisfy_eq_miss]
  simp

/-- The name of a property is kept as written, and is read back whatever follows. -/
theorem propertyName_readBack {s rest name : List Char} (h : propertyName s = .read name rest) :
    s = name ++ rest ∧ Verbatim name ∧
      ∀ rest', propertyName (name ++ rest') = .read name rest' := by
  rcases orElse_eq_read.mp h with hbraced | ⟨-, hletter⟩
  · obtain ⟨x, rfl, hne, hall, rfl⟩ := bracedProperty_eq_read.mp hbraced
    refine ⟨by simp, ?_, ?_⟩
    · refine Verbatim.append (Verbatim.cons (verbatim_of_forall ?_) (by decide) (by decide))
        (verbatim_char (by decide) (by decide))
      intro c hc
      have hplain := hall c hc
      constructor
      · rintro rfl
        simp [isPropertyChar] at hplain
      · rintro rfl
        simp [isPropertyChar] at hplain
    · intro rest'
      exact orElse_eq_read.mpr (.inl (bracedProperty_eq_read.mpr ⟨x, rfl, hne, hall, by simp⟩))
  · simp only [bind_eq_read, satisfy_eq_read, pure_eq_read] at hletter
    obtain ⟨c, _, ⟨hc, rfl⟩, rfl, rfl⟩ := hletter
    have hbrace : c ≠ '\x7b' := by
      rintro rfl
      simp at hc
    refine ⟨rfl, ?_, ?_⟩
    · refine verbatim_char ?_ ?_
      · rintro rfl
        simp at hc
      · rintro rfl
        simp at hc
    · intro rest'
      refine orElse_eq_read.mpr (.inr ⟨opensWith_bracedProperty.miss (by simpa using hbrace), ?_⟩)
      simp only [bind_eq_read, satisfy_eq_read, pure_eq_read]
      exact ⟨c, rest', ⟨hc, rfl⟩, rfl, rfl⟩

/-- Bounds with equal ends are written like the name of a property. -/
theorem propertyName_written_exact (n : Nat) (rest : List Char) :
    propertyName ((⟨n, some n⟩ : Bounds).written ++ rest) =
      .read (⟨n, some n⟩ : Bounds).written rest := by
  refine orElse_eq_read.mpr (.inl (bracedProperty_eq_read.mpr ⟨Text.natural n, ?_,
    Nat.toDigits_ne_nil, ?_, ?_⟩))
  · simp [Bounds.written]
  · intro c hc
    simp [isPropertyChar, Char.isAlphanum, isDigit_of_mem_natural hc]
  · simp [Bounds.written]

/-- Other bounds are not: a comma is no part of a name. -/
theorem propertyName_written_other {b : Bounds} (hb : b.hi ≠ some b.lo) (rest : List Char) :
    propertyName (b.written ++ rest) = .miss := by
  have hwritten : ∃ t, b.written ++ rest = '\x7b' :: (Text.natural b.lo ++ ',' :: t) := by
    obtain ⟨lo, hi⟩ := b
    cases hi with
    | none => exact ⟨'\x7d' :: rest, by simp [Bounds.written]⟩
    | some hi =>
      have hne : lo ≠ hi := by
        rintro rfl
        exact hb rfl
      exact ⟨Text.natural hi ++ '\x7d' :: rest, by simp [Bounds.written, hne]⟩
  obtain ⟨t, ht⟩ := hwritten
  rw [ht, propertyName_eq_miss]
  refine ⟨?_, stops_cons.mpr rfl⟩
  have hname : takeWhile1 isPropertyChar (Text.natural b.lo ++ ',' :: t) =
      .read (Text.natural b.lo) (',' :: t) := by
    refine takeWhile1_eq_read.mpr ⟨Nat.toDigits_ne_nil, ?_, stops_cons.mpr rfl, rfl⟩
    intro c hc
    simp [isPropertyChar, Char.isAlphanum, isDigit_of_mem_natural hc]
  rw [bracedProperty, bind_of_read (char_cons _ _)]
  change (takeWhile1 isPropertyChar >>= _) _ = _
  rw [bind_of_read hname]
  exact bind_of_miss (char_eq_miss.mpr (by simp)) _

/-- Where no property name stands and no bounds do, none stands in a recast text. -/
theorem propertyName_miss {u u' : List Char} (h : Recast u u') (hu : propertyName u = .miss)
    (hbounds : ∀ b v, Parser.bounds u ≠ .read b v) : propertyName u' = .miss := by
  rw [propertyName_eq_miss] at hu ⊢
  obtain ⟨hbraced, hletter⟩ := hu
  refine ⟨?_, ?_⟩
  · by_cases hhead : u'.head? = some '\x7b'
    · cases h with
      | close t t' => exact opensWith_bracedProperty.miss (by simp)
      | @plain c v v' _ _ hv =>
        obtain rfl : c = '\x7b' := by simpa using hhead
        exact bracedProperty_miss hv hbraced
      | escaped c hv => exact opensWith_bracedProperty.miss (by simp)
      | @bounds b _ v _ hb hv => exact absurd hb (hbounds b v)
    · exact opensWith_bracedProperty.miss hhead
  · intro c hc
    exact hletter c (by rw [← h.head?_eq, hc])

/-! ## Symbols -/

theorem symbol_eq (s : List Char) :
    symbol s = ((fun _ => .any) <$> char '.' <|> ((fun _ => .questionMark) <$> char '?' <|>
      (.repeater <$> oneOf ['*', '+'] <|> (.anchor <$> oneOf ['^', '$'] <|>
        ((fun cs => .literal (String.ofList cs) true) <$> propertyClass <|>
          ((fun cs => .literal (String.ofList cs) false) <$> escape <|>
            Symbol.ofChar <$> noneOf reserved))))) : Parser Symbol) s := rfl

/-- What a character other than a backslash stands for does not depend on what follows it. -/
theorem symbol_readBack_char {c : Char} {s rest : List Char} {sign : Symbol} (hc : c ≠ '\\')
    (h : symbol (c :: s) = .read sign rest) :
    rest = s ∧ sign.written = [c] ∧ c ∉ ['"', '\x7b', '(', '['] ∧
      ∀ s', symbol (c :: s') = .read sign s' := by
  have hproperty : ∀ t, propertyClass (c :: t) = .miss := fun t =>
    opensWith_propertyClass.miss (by simpa using hc)
  have hescape : ∀ t, escape (c :: t) = .miss := fun t => opensWith_escape.miss (by simpa using hc)
  simp only [symbol_eq, orElse_eq_read, map_eq_read, map_eq_miss, char_eq_read, char_eq_miss,
    oneOf_eq_read, oneOf_eq_miss, hproperty, hescape, noneOf_eq_read, List.head?_cons] at h ⊢
  rcases h with ⟨_, rfl, -, hs⟩ | ⟨hdot, ⟨_, rfl, -, hs⟩ | ⟨hquestion, ⟨d, rfl, hd, hs⟩ |
    ⟨hrepeater, ⟨d, rfl, hd, hs⟩ | ⟨hanchor, hlast⟩⟩⟩⟩
  · obtain ⟨rfl, rfl⟩ := List.cons.inj hs
    exact ⟨rfl, rfl, by decide, fun s' => .inl ⟨_, rfl, rfl, rfl⟩⟩
  · obtain ⟨rfl, rfl⟩ := List.cons.inj hs
    exact ⟨rfl, rfl, by decide, fun s' => .inr ⟨hdot, .inl ⟨_, rfl, rfl, rfl⟩⟩⟩
  · obtain ⟨rfl, rfl⟩ := List.cons.inj hs
    refine ⟨rfl, rfl, ?_, fun s' => .inr ⟨hdot, .inr ⟨hquestion, .inl ⟨_, rfl, hd, rfl⟩⟩⟩⟩
    simp only [List.mem_cons, List.not_mem_nil, or_false] at hd
    rcases hd with rfl | rfl <;> decide
  · obtain ⟨rfl, rfl⟩ := List.cons.inj hs
    refine ⟨rfl, rfl, ?_, fun s' => .inr ⟨hdot, .inr ⟨hquestion, .inr ⟨hrepeater,
      .inl ⟨_, rfl, hd, rfl⟩⟩⟩⟩⟩
    simp only [List.mem_cons, List.not_mem_nil, or_false] at hd
    rcases hd with rfl | rfl <;> decide
  · simp only [reduceCtorEq, and_false, exists_false, false_or, true_and] at hlast ⊢
    obtain ⟨d, rfl, hd, hs⟩ := hlast
    obtain ⟨rfl, rfl⟩ := List.cons.inj hs
    refine ⟨rfl, by simp [Symbol.ofChar, Symbol.written], ?_, fun s' => .inr ⟨hdot,
      .inr ⟨hquestion, .inr ⟨hrepeater, .inr ⟨hanchor, _, rfl, hd, rfl⟩⟩⟩⟩⟩
    intro hmem
    apply hd
    simp only [List.mem_cons, List.not_mem_nil, or_false] at hmem
    rcases hmem with rfl | rfl | rfl | rfl <;> decide

theorem symbol_backslash (c : Char) (t : List Char) :
    symbol ('\\' :: c :: t) =
      ((fun cs => .literal (String.ofList cs) true) <$> propertyClass <|>
        (fun cs => .literal (String.ofList cs) false) <$> escape : Parser Symbol)
          ('\\' :: c :: t) := by
  have hescape : escape ('\\' :: c :: t) = .read ['\\', c] t :=
    escape_eq_read.mpr ⟨c, rfl, rfl⟩
  rw [symbol_eq, orElse_of_miss, orElse_of_miss, orElse_of_miss, orElse_of_miss]
  · change orElse _ (orElse _ _) _ = orElse _ _ _
    unfold orElse
    rw [map_apply (fun cs => Symbol.literal (String.ofList cs) false) escape, hescape]
    rfl
  all_goals simp [map_eq_miss, char_eq_miss, oneOf_eq_miss]

theorem symbol_eq_read {s rest : List Char} {sign : Symbol} (h : symbol s = .read sign rest) :
    (∃ c, c ≠ '\\' ∧ s = c :: rest) ∨
      (∃ cs, sign = .literal (String.ofList cs) true ∧ propertyClass s = .read cs rest) ∨
      ∃ c, sign = .literal (String.ofList ['\\', c]) false ∧ s = '\\' :: c :: rest ∧
        propertyClass s = .miss := by
  cases s with
  | nil =>
    have hmiss : symbol [] = .miss := by decide
    rw [hmiss] at h
    simp at h
  | cons c s =>
    by_cases hc : c = '\\'
    · subst hc
      cases s with
      | nil =>
        have hmiss : symbol ['\\'] = .miss := by decide
        rw [hmiss] at h
        simp at h
      | cons d t =>
        rw [symbol_backslash, orElse_eq_read, map_eq_read, map_eq_read, map_eq_miss] at h
        rcases h with ⟨cs, rfl, hcs⟩ | ⟨hproperty, cs, rfl, hcs⟩
        · exact .inr (.inl ⟨cs, rfl, hcs⟩)
        · obtain ⟨e, rfl, hs⟩ := escape_eq_read.mp hcs
          obtain ⟨-, rfl, rfl⟩ : '\\' = '\\' ∧ d = e ∧ t = rest := by simpa using hs
          exact .inr (.inr ⟨d, rfl, rfl, hproperty⟩)
    · obtain ⟨rfl, -, -, -⟩ := symbol_readBack_char hc h
      exact .inl ⟨c, hc, rfl⟩

/-! ## Atoms -/

theorem atom_eq (s : List Char) :
    atom s = (.bounds <$> Parser.bounds <|> (.namedClass <$> namedClass <|>
      (.charClass <$> charClass <|> (.symbol <$> symbol <|>
        (fun c => .symbol (.ofChar c)) <$> oneOf ['\x7b', '\x7d']))) : Parser Atom) s := rfl

theorem opensWith_bounds : OpensWith ['\x7b'] Parser.bounds :=
  (opensWith_char '\x7b').between _ _

/-- Which construct an atom was read as. -/
theorem atom_eq_read {s mid : List Char} {a : Atom} (h : atom s = .read a mid) :
    (∃ b, a = .bounds b ∧ Parser.bounds s = .read b mid) ∨ Parser.bounds s = .miss ∧
      ((∃ x, a = .namedClass x ∧ namedClass s = .read x mid) ∨
        (∃ cc, a = .charClass cc ∧ charClass s = .read cc mid ∧ namedClass s = .miss) ∨
        (∃ sign, a = .symbol sign ∧ symbol s = .read sign mid) ∨
        ∃ c, c ∈ ['\x7b', '\x7d'] ∧ a = .symbol (.ofChar c) ∧ s = c :: mid) := by
  simp only [atom_eq, orElse_eq_read, map_eq_read, map_eq_miss, oneOf_eq_read] at h
  rcases h with ⟨b, rfl, hb⟩ | ⟨hbounds, ⟨x, rfl, hx⟩ | ⟨hnamed, ⟨cc, rfl, hcc⟩ | ⟨-, ⟨sign, rfl,
    hsign⟩ | ⟨-, c, rfl, hc, hs⟩⟩⟩⟩
  · exact .inl ⟨b, rfl, hb⟩
  · exact .inr ⟨hbounds, .inl ⟨x, rfl, hx⟩⟩
  · exact .inr ⟨hbounds, .inr (.inl ⟨cc, rfl, hcc, hnamed⟩)⟩
  · exact .inr ⟨hbounds, .inr (.inr (.inl ⟨sign, rfl, hsign⟩))⟩
  · exact .inr ⟨hbounds, .inr (.inr (.inr ⟨c, hc, rfl, hs⟩))⟩

theorem atom_of_symbol {s mid : List Char} {sign : Symbol} (hbrace : s.head? ≠ some '\x7b')
    (hbracket : s.head? ≠ some '[') (h : symbol s = .read sign mid) :
    atom s = .read (.symbol sign) mid := by
  simp only [atom_eq, orElse_eq_read, map_eq_read, map_eq_miss]
  exact .inr ⟨opensWith_bounds.miss hbrace, .inr ⟨opensWith_namedClass.miss hbracket,
    .inr ⟨opensWith_charClass.miss hbracket, .inl ⟨sign, rfl, h⟩⟩⟩⟩

theorem symbol_brace {c : Char} (hc : c ∈ ['\x7b', '\x7d']) (s : List Char) :
    symbol (c :: s) = .miss := by
  simp only [List.mem_cons, List.not_mem_nil, or_false] at hc
  simp only [symbol_eq, orElse_eq_miss, map_eq_miss, char_eq_miss, oneOf_eq_miss, noneOf,
    satisfy_eq_miss, stops_cons, List.head?_cons]
  rcases hc with rfl | rfl
  · exact ⟨by simp, by simp, by simp, by simp, opensWith_propertyClass.miss (by simp),
      opensWith_escape.miss (by simp), by decide⟩
  · exact ⟨by simp, by simp, by simp, by simp, opensWith_propertyClass.miss (by simp),
      opensWith_escape.miss (by simp), by decide⟩

theorem atom_length {s mid : List Char} {a : Atom} (h : atom s = .read a mid) :
    mid.length < s.length := by
  rcases atom_eq_read h with ⟨b, -, hb⟩ | ⟨-, ⟨x, -, hx⟩ | ⟨cc, -, hcc, -⟩ | ⟨sign, -, hsign⟩ |
    ⟨c, -, -, rfl⟩⟩
  · obtain ⟨cs, hne, -, rfl⟩ := lookPlain_bounds hb
    exact length_lt_append hne mid
  · obtain ⟨rfl, -, -⟩ := namedClass_readBack hx
    exact length_lt_append (by simp [Atom.written]) mid
  · exact charClass_length hcc
  · rcases symbol_eq_read hsign with ⟨c, -, rfl⟩ | ⟨cs, -, hcs⟩ | ⟨c, -, rfl, -⟩
    · simp
    · obtain ⟨letter, name, -, -, t, rfl, hname⟩ := propertyClass_eq_read.mp hcs
      obtain ⟨rfl, -, -⟩ := propertyName_readBack hname
      simp only [List.length_append, List.length_cons]
      omega
    · simp only [List.length_cons]
      omega
  · simp

/-- An atom other than bounds is kept as written. -/
theorem atom_kept {s mid v : List Char} {a : Atom} (h : atom s = .read a mid)
    (hv : Recast mid v) :
    (∃ b, a = .bounds b ∧ Parser.bounds s = .read b mid) ∨
      (s = a.written ++ mid ∧ Verbatim a.written ∧ a.written ≠ []) := by
  rcases atom_eq_read h with hbounds | ⟨-, ⟨x, rfl, hx⟩ | ⟨cc, rfl, hcc, -⟩ | ⟨sign, rfl, hsign⟩ |
    ⟨c, hc, rfl, rfl⟩⟩
  · exact .inl hbounds
  · obtain ⟨hs, hverbatim, -⟩ := namedClass_readBack hx
    exact .inr ⟨hs, hverbatim, by simp [Atom.written]⟩
  · obtain ⟨hs, hverbatim, -⟩ := charClass_readBack hcc hv
    exact .inr ⟨hs, hverbatim, by simp [Atom.written, CharClass.written]⟩
  · change _ ∨ s = sign.written ++ mid ∧ Verbatim sign.written ∧ sign.written ≠ []
    refine .inr ?_
    rcases symbol_eq_read hsign with ⟨c, hc, rfl⟩ | ⟨cs, rfl, hcs⟩ | ⟨c, rfl, rfl, -⟩
    · obtain ⟨-, hwritten, hplain, -⟩ := symbol_readBack_char hc hsign
      rw [hwritten]
      refine ⟨rfl, verbatim_char ?_ hc, by simp⟩
      rintro rfl
      simp at hplain
    · obtain ⟨letter, name, -, rfl, t, rfl, hname⟩ := propertyClass_eq_read.mp hcs
      obtain ⟨rfl, hverbatim, -⟩ := propertyName_readBack hname
      have hwritten : (Symbol.literal (String.ofList ('\\' :: letter :: name)) true).written =
          ['\\', letter] ++ name := by
        simp [Symbol.written]
      rw [hwritten]
      exact ⟨rfl, (verbatim_escape letter).append hverbatim, by simp⟩
    · have hwritten : (Symbol.literal (String.ofList ['\\', c]) false).written = ['\\', c] := by
        simp [Symbol.written]
      rw [hwritten]
      exact ⟨rfl, verbatim_escape c, by simp⟩
  · have hwritten : (Atom.symbol (.ofChar c)).written = [c] := by
      simp [Atom.written, Symbol.ofChar, Symbol.written]
    rw [hwritten]
    refine .inr ⟨rfl, ?_, by simp⟩
    simp only [List.mem_cons, List.not_mem_nil, or_false] at hc
    rcases hc with rfl | rfl
    · exact verbatim_char (by decide) (by decide)
    · exact verbatim_char (by decide) (by decide)

theorem atom_recast {s mid v : List Char} {a : Atom} (h : atom s = .read a mid)
    (hv : Recast mid v) : Recast s (a.written ++ v) := by
  rcases atom_kept h hv with ⟨b, rfl, hb⟩ | ⟨rfl, hverbatim, -⟩
  · exact .bounds hb hv
  · exact hverbatim _ _ hv

theorem atom_written_ne_nil {s mid v : List Char} {a : Atom} (h : atom s = .read a mid)
    (hv : Recast mid v) : a.written ≠ [] := by
  rcases atom_kept h hv with ⟨b, rfl, hb⟩ | ⟨-, -, hne⟩
  · obtain ⟨-, t, ht⟩ := bounds_eq_cons hb
    simp [Atom.written, ht]
  · exact hne

/-- An escape stands where its two characters do, and where no property class does. -/
theorem atom_escape {s mid : List Char} {c : Char}
    (h : atom s = .read (.symbol (.literal (String.ofList ['\\', c]) false)) mid) :
    s = '\\' :: c :: mid ∧ (c ∈ ['p', 'P'] → propertyName mid = .miss) := by
  rcases atom_eq_read h with ⟨b, hb, -⟩ | ⟨-, ⟨x, hx, -⟩ | ⟨cc, hcc, -, -⟩ | ⟨sign, hsign, hread⟩ |
    ⟨d, hd, hsign, -⟩⟩
  · simp at hb
  · simp at hx
  · simp at hcc
  · obtain rfl : Symbol.literal (String.ofList ['\\', c]) false = sign := by simpa using hsign
    rcases symbol_eq_read hread with ⟨d, hd, rfl⟩ | ⟨cs, hcs, -⟩ | ⟨d, hd, rfl, hproperty⟩
    · obtain ⟨-, hwritten, -, -⟩ := symbol_readBack_char hd hread
      simp [Symbol.written] at hwritten
    · simp at hcs
    · obtain rfl : c = d := by simpa using hd
      exact ⟨rfl, propertyClass_eq_miss.mp hproperty⟩
  · have htext : String.ofList ['\\', c] = String.singleton d := by
      simpa [Symbol.ofChar] using hsign
    have hlist := congrArg String.toList htext
    simp at hlist

/-- A symbol is read back as an atom, an escape only where it is not continued to a property
class. -/
theorem atom_of_written {s mid v : List Char} {sign : Symbol} (h : symbol s = .read sign mid)
    (hproperty : ∀ c ∈ ['p', 'P'],
      sign = .literal (String.ofList ['\\', c]) false → propertyName v = .miss) :
    atom (sign.written ++ v) = .read (.symbol sign) v := by
  rcases symbol_eq_read h with ⟨c, hc, rfl⟩ | ⟨cs, rfl, hcs⟩ | ⟨c, rfl, rfl, -⟩
  · obtain ⟨-, hwritten, hplain, hback⟩ := symbol_readBack_char hc h
    rw [hwritten]
    refine atom_of_symbol ?_ ?_ (hback v)
    · intro hhead
      obtain rfl : c = '\x7b' := by simpa using hhead
      simp at hplain
    · intro hhead
      obtain rfl : c = '[' := by simpa using hhead
      simp at hplain
  · obtain ⟨letter, name, hletter, rfl, t, rfl, hname⟩ := propertyClass_eq_read.mp hcs
    obtain ⟨-, -, hback⟩ := propertyName_readBack hname
    have hwritten : (Symbol.literal (String.ofList ('\\' :: letter :: name)) true).written ++ v =
        '\\' :: letter :: (name ++ v) := by
      simp [Symbol.written]
    rw [hwritten]
    refine atom_of_symbol (by simp) (by simp) ?_
    rw [symbol_backslash, orElse_eq_read, map_eq_read]
    exact .inl ⟨_, rfl, propertyClass_eq_read.mpr ⟨letter, name, hletter, rfl, _, rfl, hback v⟩⟩
  · have hwritten : (Symbol.literal (String.ofList ['\\', c]) false).written ++ v =
        '\\' :: c :: v := by
      simp [Symbol.written]
    rw [hwritten]
    refine atom_of_symbol (by simp) (by simp) ?_
    rw [symbol_backslash, orElse_eq_read, map_eq_read, map_eq_read, map_eq_miss]
    exact .inr ⟨propertyClass_eq_miss.mpr fun hc => hproperty c hc rfl,
      _, rfl, escape_eq_read.mpr ⟨c, rfl, rfl⟩⟩

/-- An atom is read back before a recast text, an escape only where the text continues it to no
property class. -/
theorem atom_readBack {s mid v : List Char} {a : Atom} (h : atom s = .read a mid)
    (hv : Recast mid v) (hproperty : ∀ c ∈ ['p', 'P'],
      a = .symbol (.literal (String.ofList ['\\', c]) false) → propertyName v = .miss) :
    atom (a.written ++ v) = .read a v := by
  rcases atom_eq_read h with ⟨b, rfl, hb⟩ | ⟨hbounds, ⟨x, rfl, hx⟩ | ⟨cc, rfl, hcc, hnamed⟩ |
    ⟨sign, rfl, hsign⟩ | ⟨c, hc, rfl, rfl⟩⟩
  · rw [atom_eq, orElse_eq_read, map_eq_read]
    exact .inl ⟨b, rfl, bounds_readBack hb v⟩
  · obtain ⟨-, -, hback⟩ := namedClass_readBack hx
    simp only [atom_eq, orElse_eq_read, map_eq_read, map_eq_miss]
    exact .inr ⟨opensWith_bounds.miss (by simp [Atom.written]), .inl ⟨x, rfl, hback v⟩⟩
  · obtain ⟨rfl, hverbatim, hback⟩ := charClass_readBack hcc hv
    simp only [atom_eq, orElse_eq_read, map_eq_read, map_eq_miss]
    exact .inr ⟨opensWith_bounds.miss (by simp [Atom.written, CharClass.written]),
      .inr ⟨steady_namedClass.miss (hverbatim _ _ hv) hnamed, .inl ⟨cc, rfl, hback⟩⟩⟩
  · exact atom_of_written hsign fun c hc hescape => hproperty c hc (congrArg Atom.symbol hescape)
  · have hwritten : (Atom.symbol (.ofChar c)).written ++ v = c :: v := by
      simp [Atom.written, Symbol.ofChar, Symbol.written]
    rw [hwritten]
    have hbounds' : Parser.bounds (c :: v) = .miss := by
      by_cases hbrace : c = '\x7b'
      · subst hbrace
        exact bounds_miss hv hbounds
      · exact opensWith_bounds.miss (by simpa using hbrace)
    have hbracket : c ≠ '[' := by
      rintro rfl
      simp at hc
    simp only [atom_eq, orElse_eq_read, map_eq_read, map_eq_miss, oneOf_eq_read]
    exact .inr ⟨hbounds', .inr ⟨opensWith_namedClass.miss (by simpa using hbracket),
      .inr ⟨opensWith_charClass.miss (by simpa using hbracket), .inr ⟨symbol_brace hc v,
        c, rfl, hc, rfl⟩⟩⟩⟩

end CorpusCost.Regex
