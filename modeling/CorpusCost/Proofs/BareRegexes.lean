import CorpusCost.Proofs.Consumed
import CorpusCost.Proofs.GuardTransparency
import CorpusCost.Proofs.RegexReadBack

/-!
# Expressions without brackets

Curly brackets, operators and escapes never keep a text from being an expression. Where no quote and
no round or square bracket stands outside an escape, and every backslash has a character to escape,
the text is read to its closing quote: each alternative is one unbroken row or empty, and the bars
outside escapes are what parts them (`Regex.quoted_of_unescaped`).

What carries the proof is that a reading stays in step with the escapes. An atom never ends between
a backslash and the character behind it, and takes no bar (`Bare.behind_atom`); and no atom is
missing where the row has not come to a bar or to its end (`ends_of_atom_miss`).
-/

set_option autoImplicit false

namespace CorpusCost

open CorpusCost.Parser

namespace Regex

/-! ## Escapes in a text -/

/-- The characters of a text that stand outside escapes; none if its last backslash has no character
behind it. -/
def unescaped? : List Char → Option (List Char)
  | [] => some []
  | ['\\'] => none
  | '\\' :: _ :: s => unescaped? s
  | c :: s => (unescaped? s).map (c :: ·)

/-- The characters that may not stand outside an escape. -/
def brackets : List Char := ['"', '(', ')', '[', ']']

/-- A text with `bars` bars and without quotes and brackets outside escapes, before `close`. -/
inductive Bare (close : List Char) : Nat → List Char → Prop where
  /-- The text is over. -/
  | done : Bare close 0 close
  /-- A bar. -/
  | bar {bars : Nat} {s : List Char} : Bare close bars s → Bare close (bars + 1) ('|' :: s)
  /-- A character that is neither a bar nor a backslash. -/
  | plain {c : Char} {bars : Nat} {s : List Char} (hc : c ∉ '|' :: '\\' :: brackets) :
      Bare close bars s → Bare close bars (c :: s)
  /-- A backslash with the character behind it. -/
  | escaped (c : Char) {bars : Nat} {s : List Char} :
      Bare close bars s → Bare close bars ('\\' :: c :: s)

theorem bare_of_unescaped {s outside : List Char} (h : unescaped? s = some outside)
    (hfree : ∀ c ∈ outside, c ∉ brackets) (close : List Char) :
    Bare close (outside.count '|') (s ++ close) := by
  induction s using unescaped?.induct generalizing outside with
  | case1 =>
    obtain rfl := Option.some.inj h
    exact .done
  | case2 => cases h
  | case3 c s ih =>
    rw [unescaped?] at h
    exact .escaped c (ih h hfree)
  | case4 c s hend hescape ih =>
    have hslash : c ≠ '\\' := by
      rintro rfl
      cases s with
      | nil => exact hend rfl rfl
      | cons d s => exact hescape d s rfl rfl
    rw [unescaped?, Option.map_eq_some_iff] at h
    · obtain ⟨others, hothers, rfl⟩ := h
      obtain ⟨hc, hbehind⟩ := List.forall_mem_cons.mp hfree
      by_cases hbar : c = '|'
      · subst hbar
        rw [List.count_cons_self]
        exact .bar (ih hothers hbehind)
      · rw [List.count_cons_of_ne hbar]
        exact .plain (by simp [hbar, hslash, hc]) (ih hothers hbehind)
    · exact hend
    · exact hescape

variable {t s : List Char} {bars : Nat}

/-! ## Characters without a meaning for the scan -/

/-- Whether a text has no quotes, bars and backslashes. -/
def Quiet (cs : List Char) : Prop := ∀ c ∈ cs, c ∉ ['"', '|', '\\']

theorem quiet_nil : Quiet [] := nofun

theorem quiet_singleton {c : Char} (hc : c ∉ ['"', '|', '\\']) : Quiet [c] := by
  intro d hd
  rwa [List.mem_singleton.mp hd]

theorem Quiet.append {cs ds : List Char} (hcs : Quiet cs) (hds : Quiet ds) : Quiet (cs ++ ds) := by
  intro c hc
  rcases List.mem_append.mp hc with hc | hc
  · exact hcs c hc
  · exact hds c hc

theorem quiet_of_forall {test : Char → Bool} {cs : List Char} (hcs : ∀ c ∈ cs, test c = true)
    (htest : ['"', '|', '\\'].any test = false) : Quiet cs := by
  intro c hc hmem
  have hfalse := eq_false_of_any hmem htest
  rw [hcs c hc] at hfalse
  cases hfalse

/-- Behind a quiet text the scan goes on as before it. -/
theorem Bare.of_append {w : List Char} (hw : Quiet w) (h : Bare ('"' :: t) bars (w ++ s)) :
    Bare ('"' :: t) bars s := by
  induction w with
  | nil => exact h
  | cons c w ih =>
    obtain ⟨hc, hw⟩ := List.forall_mem_cons.mp hw
    rw [List.cons_append] at h
    generalize hs : c :: (w ++ s) = u at h
    cases h with
    | done =>
      obtain rfl := (List.cons.inj hs).1
      simp at hc
    | bar =>
      obtain rfl := (List.cons.inj hs).1
      simp at hc
    | plain _ hrest =>
      obtain ⟨-, rfl⟩ := List.cons.inj hs
      exact ih hw hrest
    | escaped =>
      obtain rfl := (List.cons.inj hs).1
      simp at hc

/-- Bounds are quiet. -/
theorem consumes_bounds_quiet : Consumes (fun _ u => Quiet u) Parser.bounds := by
  have hnumber : Consumes (fun _ u => Quiet u) number := by
    intro s n rest hread
    obtain ⟨digits, hdigits, -, -⟩ := numberUpTo_eq_read.mp hread
    obtain ⟨-, hall, -, rfl⟩ := takeWhile1_eq_read.mp hdigits
    exact ⟨digits, rfl, quiet_of_forall hall (by decide)⟩
  have hchar : ∀ c, Quiet [c] → Consumes (fun _ u => Quiet u) (char c) := by
    intro c hc
    refine (consumes_char c).imp ?_
    rintro _ _ rfl
    exact hc
  have hlast : Consumes (fun _ u => Quiet u) (optional number) :=
    consumes_optional quiet_nil hnumber
  refine consumes_between (hchar '\x7b' (quiet_singleton (by decide))) (consumes_orElse ?_ ?_)
    (hchar '\x7d' (quiet_singleton (by decide)))
    fun _ _ _ _ _ _ ht hu hv => (ht.append hu).append hv
  · exact consumes_bind hnumber fun _ _ hlo =>
      consumes_bind (hchar ',' (quiet_singleton (by decide))) fun _ _ hsep =>
        consumes_bind hlast fun _ _ hhi =>
          consumes_pure (hlo.append (hsep.append (hhi.append quiet_nil)))
  · exact consumes_bind hnumber fun _ _ hn => consumes_pure (hn.append quiet_nil)

theorem propertyName_quiet {rest name : List Char} (h : propertyName s = .read name rest) :
    Quiet name := by
  rcases orElse_eq_read.mp h with hbraced | ⟨-, hletter⟩
  · obtain ⟨x, rfl, -, hall, -⟩ := bracedProperty_eq_read.mp hbraced
    have hopen : Quiet ['\x7b'] := quiet_singleton (by decide)
    have hx : Quiet x := quiet_of_forall hall (by decide)
    have hclose : Quiet ['\x7d'] := quiet_singleton (by decide)
    exact (hopen.append hx).append hclose
  · simp only [bind_eq_read, satisfy_eq_read, pure_eq_read] at hletter
    obtain ⟨c, _, ⟨hc, -⟩, rfl, -⟩ := hletter
    exact quiet_of_forall (by simpa using hc) (by decide)

/-! ## Atoms -/

/-- Reading an atom never ends for good. -/
theorem atom_ne_tooDeep (s rest : List Char) : atom s ≠ .tooDeep rest := by
  intro hdeep
  have hguards : Guards ⟨0, none⟩ s (atom s) (atom s) := guarded_atom s
  rw [hdeep] at hguards
  obtain ⟨limit, -, hlimit, -⟩ := hguards.exists_before
  cases hlimit

/-- A bracket does not stand in a bare text, except behind a backslash. -/
theorem Bare.head?_ne (h : Bare ('"' :: t) bars s) {c : Char} (hc : c ∈ ['(', ')', '[', ']']) :
    s.head? ≠ some c := by
  cases h with
  | done =>
    rintro ⟨⟩
    simp at hc
  | bar =>
    rintro ⟨⟩
    simp at hc
  | plain hplain =>
    rintro ⟨⟩
    simp only [brackets, List.mem_cons] at hplain hc
    tauto
  | escaped =>
    rintro ⟨⟩
    simp at hc

theorem Bare.of_escaped {c : Char} (h : Bare ('"' :: t) bars ('\\' :: c :: s)) :
    Bare ('"' :: t) bars s := by
  cases h with
  | plain hc => simp at hc
  | escaped _ hrest => exact hrest

/-- Behind an atom the scan is in step with the escapes, and no bar has been taken. -/
theorem Bare.behind_atom {mid : List Char} {a : Atom} (h : Bare ('"' :: t) bars s)
    (hread : atom s = .read a mid) : Bare ('"' :: t) bars mid := by
  have hbracket := h.head?_ne (c := '[') (by decide)
  rcases atom_eq_read hread with ⟨b, rfl, hb⟩ | ⟨-, ⟨x, rfl, hx⟩ | ⟨cc, rfl, hcc, -⟩ |
    ⟨sign, rfl, hsign⟩ | ⟨c, hc, rfl, rfl⟩⟩
  · obtain ⟨u, rfl, hu⟩ := consumes_bounds_quiet s b mid hb
    exact h.of_append hu
  · rw [opensWith_namedClass.miss hbracket] at hx
    cases hx
  · rw [opensWith_charClass.miss hbracket] at hcc
    cases hcc
  · rcases symbol_eq_read hsign with ⟨c, hc, rfl⟩ | ⟨cs, rfl, hcs⟩ | ⟨c, rfl, rfl, -⟩
    · refine h.of_append (w := [c]) (quiet_singleton ?_)
      intro hmem
      simp only [List.mem_cons, List.not_mem_nil, or_false] at hmem
      rcases hmem with rfl | rfl | rfl
      · rw [atom_of_ends (ends_cons.mpr (by decide))] at hread
        cases hread
      · rw [atom_of_ends (ends_cons.mpr (by decide))] at hread
        cases hread
      · exact hc rfl
    · obtain ⟨letter, name, -, rfl, t, rfl, hname⟩ := propertyClass_eq_read.mp hcs
      have hquiet := propertyName_quiet hname
      obtain ⟨rfl, -, -⟩ := propertyName_readBack hname
      exact h.of_escaped.of_append hquiet
    · exact h.of_escaped
  · refine h.of_append (w := [c]) (quiet_singleton ?_)
    simp only [List.mem_cons, List.not_mem_nil, or_false] at hc
    rcases hc with rfl | rfl
    · decide
    · decide

/-- Where there is no atom, the text is over, or a bar or a bracket stands there, or a backslash at
the end of all text. -/
theorem ends_of_atom_miss (h : atom s = .miss) : Ends ('|' :: brackets) s ∨ s = ['\\'] := by
  cases s with
  | nil => exact .inl (ends_nil _)
  | cons c s =>
    simp only [atom_eq, symbol_eq, orElse_eq_miss, map_eq_miss, char_eq_miss, oneOf_eq_miss, noneOf,
      satisfy_eq_miss, stops_cons, List.head?_cons] at h
    obtain ⟨-, -, -, ⟨hany, hquestion, hrepeater, hanchor, -, hescape, hreserved⟩, hbrace⟩ := h
    have hc : c ∈ reserved := by simpa using hreserved
    by_cases hslash : c = '\\'
    · subst hslash
      cases s with
      | nil => exact .inr rfl
      | cons d s =>
        rw [escape_eq_read.mpr ⟨d, rfl, rfl⟩] at hescape
        cases hescape
    · have hsigns : reserved ⊆
          ['.', '?', '*', '+', '^', '$', '\x7b', '\x7d', '\\'] ++ '|' :: brackets := by decide
      rcases List.mem_append.mp (hsigns hc) with hsign | hbracket
      · simp_all
      · exact .inl (ends_cons.mpr hbracket)

/-- A bare text has no atom only at a bar and at its end. -/
theorem Bare.ends_of_atom_miss (h : Bare ('"' :: t) bars s) (hmiss : atom s = .miss) :
    Ends ['|', '"'] s := by
  cases h with
  | done => exact ends_cons.mpr (by decide)
  | bar => exact ends_cons.mpr (by decide)
  | @plain c _ u hplain =>
    rcases Regex.ends_of_atom_miss hmiss with hends | hslash
    · have hsubset : '|' :: brackets ⊆ '|' :: '\\' :: brackets :=
        List.cons_subset_cons '|' (List.subset_cons_self '\\' brackets)
      exact absurd (hsubset (ends_cons.mp hends)) hplain
    · obtain rfl := (List.cons.inj hslash).1
      exact absurd (by decide) hplain
  | escaped =>
    rcases Regex.ends_of_atom_miss hmiss with hends | hslash
    · exact absurd (ends_cons.mp hends) (by decide)
    · cases hslash

/-! ## Rows, branches and the whole expression -/

/-- The atoms of a bare text are read up to the next bar or the end. -/
theorem Bare.row (h : Bare ('"' :: t) bars s) : ∃ atoms mid, many atom s = .read atoms mid ∧
    Bare ('"' :: t) bars mid ∧ Ends ['|', '"'] mid := by
  induction hs : s.length using Nat.strongRecOn generalizing s with
  | ind length ih =>
    subst hs
    cases hatom : atom s with
    | miss => exact ⟨[], s, many_of_miss hatom, h, h.ends_of_atom_miss hatom⟩
    | tooDeep rest => exact absurd hatom (atom_ne_tooDeep s rest)
    | read a next =>
      have hlt := atom_length hatom
      obtain ⟨atoms, mid, hatoms, hmid, hends⟩ := ih next.length hlt (h.behind_atom hatom) rfl
      exact ⟨a :: atoms, mid, many_eq_read_cons.mpr ⟨next, hatom, hlt, hatoms⟩, hmid, hends⟩

/-- Whether a branch is empty or a single unbroken row. -/
def IsRow (branch : Branch) : Prop := branch = [] ∨ ∃ atoms, branch = [.row atoms]

/-- A branch of a bare text is the row of its atoms. -/
theorem Bare.branch (h : Bare ('"' :: t) bars s) (p : Nesting → Parser (List Branch))
    (nesting : Nesting) : ∃ branch mid, many (pieceOf p nesting) s = .read branch mid ∧
      IsRow branch ∧ Bare ('"' :: t) bars mid ∧ Ends ['|', '"'] mid := by
  obtain ⟨atoms, mid, hatoms, hmid, hends⟩ := h.row
  have hend : pieceOf p nesting mid = .miss := pieceOf_of_ends (hends.mono (by decide))
  by_cases hne : atoms = []
  · subst hne
    obtain rfl := many_eq_read_nil hatoms
    exact ⟨[], s, many_of_miss hend, .inl rfl, h, hends⟩
  · have hrow : pieceOf p nesting s = .read (.row atoms) mid :=
      pieceOf_row hne (h.head?_ne (by decide)) hatoms
    obtain ⟨a, as, rfl⟩ := List.exists_cons_of_ne_nil hne
    obtain ⟨next, -, hlt, hmore⟩ := many_eq_read_cons.mp hatoms
    have hshort : mid.length < s.length := Nat.lt_of_le_of_lt (length_le_of_many hmore) hlt
    exact ⟨[.row (a :: as)], mid, many_eq_read_cons.mpr ⟨mid, hrow, hshort, many_of_miss hend⟩,
      .inr ⟨a :: as, rfl⟩, hmid, hends⟩

/-- At the end of a branch the text is over, or goes on behind a bar. -/
theorem Bare.of_ends (h : Bare ('"' :: t) bars s) (hends : Ends ['|', '"'] s) :
    (bars = 0 ∧ s = '"' :: t) ∨
      ∃ fewer u, bars = fewer + 1 ∧ s = '|' :: u ∧ Bare ('"' :: t) fewer u := by
  cases h with
  | done => exact .inl ⟨rfl, rfl⟩
  | bar hrest => exact .inr ⟨_, _, rfl, rfl, hrest⟩
  | plain hc =>
    have hend := ends_cons.mp hends
    simp only [brackets, List.mem_cons, List.not_mem_nil, or_false] at hc hend
    tauto
  | escaped => exact absurd (ends_cons.mp hends) (by decide)

/-- Behind the first branch there is one branch for each bar. -/
theorem Bare.branches (h : Bare ('"' :: t) bars s) (hends : Ends ['|', '"'] s)
    (p : Nesting → Parser (List Branch)) (nesting : Nesting) : ∃ branches,
      many (char '|' >>= fun _ => many (pieceOf p nesting)) s = .read branches ('"' :: t) ∧
        branches.length = bars ∧ ∀ branch ∈ branches, IsRow branch := by
  induction bars generalizing s with
  | zero =>
    obtain ⟨-, rfl⟩ | ⟨_, _, hbars, -⟩ := h.of_ends hends
    · exact ⟨[], many_of_miss (bind_of_miss (char_eq_miss.mpr (by simp)) _), rfl, nofun⟩
    · cases hbars
  | succ bars ih =>
    obtain ⟨hbars, -⟩ | ⟨_, u, hbars, rfl, hu⟩ := h.of_ends hends
    · cases hbars
    · obtain rfl := Nat.succ.inj hbars
      obtain ⟨branch, mid, hbranch, hrow, hmid, hmidEnds⟩ := hu.branch p nesting
      obtain ⟨branches, hbranches, hlength, hrows⟩ := ih hmid hmidEnds
      refine ⟨branch :: branches, many_eq_read_cons.mpr ⟨mid, ?_, ?_, hbranches⟩, ?_, ?_⟩
      · rw [bind_of_read (char_cons _ _)]
        exact hbranch
      · exact Nat.lt_succ_of_le (length_le_of_many hbranch)
      · rw [List.length_cons, hlength]
      · exact List.forall_mem_cons.mpr ⟨hrow, hrows⟩

theorem Bare.choice (h : Bare ('"' :: t) bars s) (nesting : Nesting) : ∃ branches,
    Regex.choice nesting s = .read branches ('"' :: t) ∧ branches.length = bars + 1 ∧
      ∀ branch ∈ branches, IsRow branch := by
  let inner : Nesting → Parser (List Branch) := fun deeper => shorter s.length (Regex.choice deeper)
  obtain ⟨branch, mid, hbranch, hrow, hmid, hends⟩ := h.branch inner nesting
  obtain ⟨branches, hbranches, hlength, hrows⟩ := hmid.branches hends inner nesting
  refine ⟨branch :: branches, ?_, by rw [List.length_cons, hlength],
    List.forall_mem_cons.mpr ⟨hrow, hrows⟩⟩
  change recursive _ nesting s = _
  rw [recursive_eq]
  exact sepBy1_eq_read.mpr ⟨branch, mid, branches, rfl, hbranch, hbranches⟩

end Regex

/-- A text is an expression if each of its backslashes has a character to escape and neither a
quote nor a round or square bracket stands outside an escape. Between quotes it is read in full, at
any nesting and whatever follows the closing quote. There is one branch more than there are bars
outside escapes, and each branch is empty or a single unbroken row. -/
theorem Regex.quoted_of_unescaped {s outside : List Char}
    (h : Regex.unescaped? s = some outside) (hfree : ∀ c ∈ outside, c ∉ Regex.brackets)
    (nesting : Nesting) (rest : List Char) :
    ∃ regex, Regex.quoted nesting ('"' :: (s ++ '"' :: rest)) = .read regex rest ∧
      regex.branches.length = outside.count '|' + 1 ∧
      ∀ branch ∈ regex.branches, branch = [] ∨ ∃ atoms, branch = [.row atoms] := by
  obtain ⟨branches, hchoice, hlength, hrows⟩ :=
    (Regex.bare_of_unescaped h hfree ('"' :: rest)).choice nesting
  refine ⟨⟨branches⟩, ?_, hlength, hrows⟩
  exact between_eq_read.mpr ⟨'"', _, '"', _, char_cons _ _,
    map_eq_read.mpr ⟨branches, rfl, hchoice⟩, char_cons _ _⟩

/-- Bounds without a lower end, an empty branch, half of a property class and an escaped bracket. -/
theorem Regex.quoted_of_unescaped_halves :
    ∃ regex, Regex.quoted ⟨0, none⟩ "\"\x7b,3\x7d||\\p\x7bx-\\(+\"]".toList = .read regex [']'] ∧
      regex.branches.length = 3 ∧
      ∀ branch ∈ regex.branches, branch = [] ∨ ∃ atoms, branch = [.row atoms] := by
  have houtside : Regex.unescaped? "\x7b,3\x7d||\\p\x7bx-\\(+".toList =
      some "\x7b,3\x7d||\x7bx-+".toList := by decide
  have hfree : ∀ c ∈ "\x7b,3\x7d||\x7bx-+".toList, c ∉ Regex.brackets := by
    simp [Regex.brackets]
  exact Regex.quoted_of_unescaped houtside hfree ⟨0, none⟩ [']']

end CorpusCost
