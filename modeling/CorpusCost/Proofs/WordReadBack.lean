import CorpusCost.Proofs.ReaderLaws
import CorpusCost.Condition.Printer

/-!
# Words read back

A number, a name, bounds or a sign is written in one way only, and its reader takes that way back,
whatever spelling it was first read from. Each of them ends where the next character cannot
continue it, so every statement says what may follow.
-/

set_option autoImplicit false

namespace CorpusCost.Parser

open Text (natural integer)

/-! ## What a text begins with -/

/-- The text is empty or begins with one of `cs`. -/
def Ends (cs : List Char) (s : List Char) : Prop := ∀ c, s.head? = some c → c ∈ cs

@[simp] theorem ends_nil (cs : List Char) : Ends cs [] := by
  intro c h
  simp at h

@[simp] theorem ends_cons {cs : List Char} {c : Char} {s : List Char} :
    Ends cs (c :: s) ↔ c ∈ cs := by
  simp [Ends]

/-- What no member of `cs` satisfies, `c` does not. -/
theorem eq_false_of_any {cs : List Char} {test : Char → Bool} {c : Char} (hc : c ∈ cs)
    (h : cs.any test = false) : test c = false := by
  simpa using List.any_eq_false.mp h c hc

theorem Ends.stops {cs s : List Char} {test : Char → Bool} (h : Ends cs s)
    (hcs : cs.any test = false) : Stops test s := by
  intro c hc
  exact eq_false_of_any (h c hc) hcs

theorem Ends.mono {cs ds s : List Char} (h : Ends cs s) (hcs : cs ⊆ ds) : Ends ds s := by
  intro c hc
  exact hcs (h c hc)

theorem Ends.head?_ne {cs s : List Char} {d : Char} (h : Ends cs s) (hd : d ∉ cs) :
    s.head? ≠ some d := by
  intro hs
  exact hd (h d hs)

theorem Stops.mono {s : List Char} {test other : Char → Bool} (h : Stops test s)
    (himp : ∀ c, other c = true → test c = true) : Stops other s := by
  intro c hc
  have htest := h c hc
  cases hother : other c with
  | false => rfl
  | true => simp [himp c hother] at htest

/-- A text that begins with no character of `test` stays whole when those are dropped. -/
theorem dropWhile_of_stops {test : Char → Bool} {s : List Char} (h : Stops test s) :
    s.dropWhile test = s := by
  cases s with
  | nil => rfl
  | cons c s =>
    have hc := stops_cons.mp h
    simp [hc]

theorem stops_dropWhile (test : Char → Bool) (s : List Char) : Stops test (s.dropWhile test) := by
  intro c hc
  have hdrop := List.head?_dropWhile_not test s
  rw [hc] at hdrop
  simpa using hdrop

/-- Blanks are dropped from the front of a text that begins with one. -/
@[simp] theorem dropWhile_space (s : List Char) :
    (' ' :: s).dropWhile isBlank = s.dropWhile isBlank := rfl

theorem isBlank_cases {c : Char} (h : isBlank c = true) :
    c = ' ' ∨ c = '\t' ∨ c = '\r' ∨ c = '\n' := by
  simpa [isBlank, or_assoc] using h

/-- A character of a name is no blank. -/
theorem isBlank_of_isNameChar {c : Char} (h : isNameChar c = true) : isBlank c = false := by
  cases hc : isBlank c with
  | false => rfl
  | true => rcases isBlank_cases hc with rfl | rfl | rfl | rfl <;> simp [isNameChar] at h

theorem isNameChar_of_isDigit {c : Char} (h : c.isDigit = true) : isNameChar c = true := by
  simp [isNameChar, Char.isAlphanum, h]

theorem isNameChar_of_isNameStart {c : Char} (h : isNameStart c = true) :
    isNameChar c = true := by
  unfold isNameStart at h
  unfold isNameChar Char.isAlphanum
  simp only [Bool.or_eq_true] at h ⊢
  rcases h with h | h
  · exact .inl (.inl h)
  · exact .inr h

/-- No digit begins a name. -/
theorem isNameStart_of_isDigit {c : Char} (h : c.isDigit = true) : isNameStart c = false := by
  obtain ⟨-, hnine⟩ := Char.isDigit_iff_toNat.mp h
  cases hc : isNameStart c with
  | false => rfl
  | true =>
    exfalso
    rcases (Bool.or_eq_true_iff ..).mp hc with halpha | hunderscore
    · rcases (Bool.or_eq_true_iff ..).mp halpha with hupper | hlower
      · have hrange : 'A'.val ≤ c.val ∧ c.val ≤ 'Z'.val := of_decide_eq_true hupper
        exact absurd (Nat.le_trans hrange.1 hnine) (by decide)
      · have hrange : 'a'.val ≤ c.val :=
          of_decide_eq_true ((Bool.and_eq_true_iff ..).mp hlower).1
        exact absurd (Nat.le_trans hrange hnine) (by decide)
    · obtain rfl : c = '_' := by simpa using hunderscore
      exact absurd h (by decide)

theorem isDigit_of_isNameStart {c : Char} (h : isNameStart c = true) : c.isDigit = false := by
  cases hc : c.isDigit with
  | false => rfl
  | true =>
    have hstart := isNameStart_of_isDigit hc
    rw [h] at hstart
    exact absurd hstart (by decide)

theorem isBlank_of_isNameStart {c : Char} (h : isNameStart c = true) : isBlank c = false :=
  isBlank_of_isNameChar (isNameChar_of_isNameStart h)

/-- Blanks are skipped in front of what is none. -/
theorem dropWhile_blanks {gap s : List Char} (hgap : ∀ c ∈ gap, isBlank c = true)
    (hs : Stops isBlank s) : (gap ++ s).dropWhile isBlank = s := by
  rw [List.dropWhile_append_of_pos hgap, dropWhile_of_stops hs]

/-- A text that begins with no character of `test` does not begin with one behind blanks. -/
theorem Stops.behind_blanks {test : Char → Bool} {gap s : List Char} (hs : Stops test s)
    (hgap : ∀ c ∈ gap, isBlank c = true) (htest : ∀ c, test c = true → isBlank c = false) :
    Stops test (gap ++ s) := by
  cases gap with
  | nil => exact hs
  | cons c gap =>
    refine stops_cons.mpr ?_
    have hblank := hgap c List.mem_cons_self
    cases hc : test c with
    | false => rfl
    | true => exact absurd (htest c hc) (by simp [hblank])

/-! ## Numbers -/

theorem isDigit_of_mem_natural {n : Nat} {c : Char} (h : c ∈ natural n) : c.isDigit = true :=
  Nat.isDigit_of_mem_toDigits (by omega) (by omega) h

theorem digitsValue_natural (n : Nat) : digitsValue (natural n) = n := by
  rw [digitsValue, ← Nat.ofDigitChars_eq_foldl]
  exact Nat.ofDigitChars_toDigits (by omega) (by omega)

/-- The digits of a number begin with a digit. -/
theorem natural_eq_cons (n : Nat) : ∃ d ds, natural n = d :: ds ∧ d.isDigit = true := by
  cases hn : natural n with
  | nil => exact absurd hn Nat.toDigits_ne_nil
  | cons d ds => exact ⟨d, ds, rfl, isDigit_of_mem_natural (hn ▸ List.mem_cons_self)⟩

theorem numberUpTo_eq_read {max n : Nat} {s rest : List Char} :
    numberUpTo max s = .read n rest ↔
      ∃ digits, takeWhile1 Char.isDigit s = .read digits rest ∧ digitsValue digits = n ∧
        n ≤ max := by
  rw [numberUpTo, bind_eq_read]
  constructor
  · rintro ⟨digits, mid, hdigits, hvalue⟩
    split at hvalue
    · next hle =>
      obtain ⟨rfl, rfl⟩ := pure_eq_read.mp hvalue
      exact ⟨digits, hdigits, rfl, hle⟩
    · simp [never] at hvalue
  · rintro ⟨digits, hdigits, rfl, hle⟩
    exact ⟨digits, rest, hdigits, by rw [if_pos hle, pure_apply]⟩

theorem numberUpTo_natural {max n : Nat} {rest : List Char} (hn : n ≤ max)
    (hrest : Stops Char.isDigit rest) :
    numberUpTo max (natural n ++ rest) = .read n rest := by
  refine numberUpTo_eq_read.mpr ⟨natural n, ?_, digitsValue_natural n, hn⟩
  refine takeWhile1_eq_read.mpr ⟨Nat.toDigits_ne_nil, ?_, hrest, rfl⟩
  intro c hc
  exact isDigit_of_mem_natural hc

theorem numberUpTo_of_stops {max : Nat} {s : List Char} (h : Stops Char.isDigit s) :
    numberUpTo max s = .miss := by
  rw [numberUpTo, bind_eq_miss]
  exact .inl (takeWhile1_eq_miss.mpr h)

/-- A number is read back from its digits. -/
theorem number_readBack {s rest rest' : List Char} {n : Nat} (h : number s = .read n rest)
    (hrest : Stops Char.isDigit rest') : number (natural n ++ rest') = .read n rest' := by
  obtain ⟨-, -, -, hn⟩ := numberUpTo_eq_read.mp h
  exact numberUpTo_natural hn hrest

theorem number_of_stops {s : List Char} (h : Stops Char.isDigit s) : number s = .miss :=
  numberUpTo_of_stops h

/-- A number begins with a digit. -/
theorem number_eq_cons {s rest : List Char} {n : Nat} (h : number s = .read n rest) :
    ∃ d t, s = d :: t ∧ d.isDigit = true := by
  obtain ⟨digits, hdigits, -, -⟩ := numberUpTo_eq_read.mp h
  obtain ⟨hne, hall, -, rfl⟩ := takeWhile1_eq_read.mp hdigits
  cases digits with
  | nil => exact absurd rfl hne
  | cons d ds => exact ⟨d, ds ++ rest, rfl, hall d List.mem_cons_self⟩

/-- An optional number is read back from its digits, or from nothing where it was left out. -/
theorem optional_number_readBack {s rest rest' : List Char} {o : Option Nat}
    (h : optional number s = .read o rest) (hrest : Stops Char.isDigit rest') :
    optional number ((o.map natural).getD [] ++ rest') = .read o rest' := by
  rcases optional_eq_read.mp h with ⟨n, rfl, hn⟩ | ⟨rfl, -, -⟩
  · exact optional_eq_read.mpr (.inl ⟨n, rfl, number_readBack hn hrest⟩)
  · exact optional_eq_read.mpr (.inr ⟨rfl, number_of_stops hrest, rfl⟩)

/-- A number is written with its sign only where it is below zero, and read back so. -/
theorem signed_readBack {s rest rest' : List Char} {z : Int} (h : signed s = .read z rest)
    (hrest : Stops Char.isDigit rest') : signed (integer z ++ rest') = .read z rest' := by
  have hbelow : ∀ n : Nat, n ≤ maxSigned → signed (natural n ++ rest') = .read (n : Int) rest' := by
    intro n hn
    obtain ⟨d, ds, hds, hd⟩ := natural_eq_cons n
    have hsign : oneOf ['+', '-'] (natural n ++ rest') = .miss := by
      rw [hds, oneOf_eq_miss]
      rintro c hc hhead
      obtain rfl : d = c := by simpa using hhead
      have : d = '+' ∨ d = '-' := by simpa using hc
      rcases this with rfl | rfl <;> simp at hd
    rw [signed, bind_of_read (optional_eq_read.mpr (.inr ⟨rfl, hsign, rfl⟩))]
    exact bind_eq_read.mpr ⟨n, rest', numberUpTo_natural hn hrest, rfl⟩
  have hminus : ∀ n : Nat, n ≤ maxSigned + 1 →
      signed ('-' :: natural n ++ rest') = .read (-(n : Int)) rest' := by
    intro n hn
    have hsign : oneOf ['+', '-'] ('-' :: natural n ++ rest') = .read '-' (natural n ++ rest') :=
      oneOf_eq_read.mpr ⟨by simp, rfl⟩
    rw [signed, bind_of_read (optional_eq_read.mpr (.inl ⟨'-', rfl, hsign⟩))]
    exact bind_eq_read.mpr ⟨n, rest', numberUpTo_natural hn hrest, rfl⟩
  obtain ⟨sign, mid, -, hvalue⟩ := bind_eq_read.mp h
  split at hvalue
  · obtain ⟨n, last, hn, hz⟩ := bind_eq_read.mp hvalue
    obtain ⟨rfl, -⟩ := pure_eq_read.mp hz
    obtain ⟨-, -, -, hle⟩ := numberUpTo_eq_read.mp hn
    cases n with
    | zero => exact hbelow 0 (by simp)
    | succ n => exact hminus (n + 1) hle
  · obtain ⟨n, last, hn, hz⟩ := bind_eq_read.mp hvalue
    obtain ⟨rfl, -⟩ := pure_eq_read.mp hz
    obtain ⟨-, -, -, hle⟩ := numberUpTo_eq_read.mp hn
    exact hbelow n hle

theorem signed_of_stops {s : List Char} (hdigit : Stops Char.isDigit s)
    (hsign : Ends [')'] s) : signed s = .miss := by
  have hnone : oneOf ['+', '-'] s = .miss := by
    rw [oneOf_eq_miss]
    intro c hc
    apply hsign.head?_ne
    rintro hmem
    obtain rfl : c = ')' := by simpa using hmem
    simp at hc
  rw [signed, bind_of_read (optional_eq_read.mpr (.inr ⟨rfl, hnone, rfl⟩))]
  exact bind_eq_miss.mpr (.inl (numberUpTo_of_stops hdigit))

/-! ## Bounds -/

theorem bounds_eq_read {s rest : List Char} {b : Bounds} (h : bounds s = .read b rest) :
    b.lo ≤ maxUnsigned ∧ ∀ hi, b.hi = some hi → hi ≤ maxUnsigned := by
  obtain ⟨-, inside, -, after, -, hrange, -⟩ := between_eq_read.mp h
  rcases orElse_eq_read.mp hrange with hboth | ⟨-, hone⟩
  · simp only [bind_eq_read, pure_eq_read] at hboth
    obtain ⟨lo, _, hlo, _, _, _, hi, _, hhi, rfl, _⟩ := hboth
    obtain ⟨-, -, -, hle⟩ := numberUpTo_eq_read.mp hlo
    refine ⟨hle, ?_⟩
    rintro last rfl
    rcases optional_eq_read.mp hhi with ⟨n, hn, hread⟩ | ⟨hn, -, -⟩
    · obtain rfl : last = n := by simpa using hn
      obtain ⟨-, -, -, hle'⟩ := numberUpTo_eq_read.mp hread
      exact hle'
    · simp at hn
  · simp only [bind_eq_read, pure_eq_read] at hone
    obtain ⟨n, _, hn, rfl, _⟩ := hone
    obtain ⟨-, -, -, hle⟩ := numberUpTo_eq_read.mp hn
    refine ⟨hle, ?_⟩
    rintro last hlast
    obtain rfl : n = last := by simpa using hlast
    exact hle

/-- Bounds are read back from their written form, whatever follows it. -/
theorem bounds_written {b : Bounds} (hlo : b.lo ≤ maxUnsigned)
    (hhi : ∀ hi, b.hi = some hi → hi ≤ maxUnsigned) (rest : List Char) :
    bounds (b.written ++ rest) = .read b rest := by
  obtain ⟨lo, hi⟩ := b
  have hcomma : ∀ t, number (natural lo ++ ',' :: t) = .read lo (',' :: t) := by
    intro t
    exact numberUpTo_natural hlo (stops_cons.mpr rfl)
  cases hi with
  | none =>
    have hnone : optional number ('\x7d' :: rest) = .read none ('\x7d' :: rest) :=
      optional_eq_read.mpr (.inr ⟨rfl, number_of_stops (stops_cons.mpr rfl), rfl⟩)
    refine between_eq_read.mpr ⟨'\x7b', natural lo ++ ',' :: '\x7d' :: rest, '\x7d',
      '\x7d' :: rest, ?_, ?_, char_cons _ _⟩
    · simp [Bounds.written]
    · refine orElse_eq_read.mpr (.inl ?_)
      simp only [bind_eq_read]
      exact ⟨lo, _, hcomma _, ',', _, char_cons _ _, none, _, hnone, rfl⟩
  | some hi =>
    have hclose : ∀ n, n ≤ maxUnsigned →
        number (natural n ++ '\x7d' :: rest) = .read n ('\x7d' :: rest) := by
      intro n hn
      exact numberUpTo_natural hn (stops_cons.mpr rfl)
    by_cases heq : lo = hi
    · subst heq
      refine between_eq_read.mpr ⟨'\x7b', natural lo ++ '\x7d' :: rest, '\x7d',
        '\x7d' :: rest, ?_, ?_, char_cons _ _⟩
      · simp [Bounds.written]
      · refine orElse_eq_read.mpr (.inr ⟨?_, ?_⟩)
        · simp only [bind_eq_miss]
          refine .inr ⟨lo, _, hclose lo hlo, .inl ?_⟩
          simp [char_eq_miss]
        · simp only [bind_eq_read]
          exact ⟨lo, _, hclose lo hlo, rfl⟩
    · refine between_eq_read.mpr ⟨'\x7b', natural lo ++ ',' :: (natural hi ++ '\x7d' :: rest),
        '\x7d', '\x7d' :: rest, ?_, ?_, char_cons _ _⟩
      · simp [Bounds.written, heq]
      · refine orElse_eq_read.mpr (.inl ?_)
        simp only [bind_eq_read]
        exact ⟨lo, _, hcomma _, ',', _, char_cons _ _, some hi, _,
          optional_eq_read.mpr (.inl ⟨hi, rfl, hclose hi (hhi hi rfl)⟩), rfl⟩

theorem bounds_readBack {s rest : List Char} {b : Bounds} (h : bounds s = .read b rest)
    (rest' : List Char) : bounds (b.written ++ rest') = .read b rest' :=
  bounds_written (bounds_eq_read h).1 (bounds_eq_read h).2 rest'

/-! ## Names and keywords -/

theorem name_eq_read {s rest : List Char} {x : String} :
    name s = .read x rest ↔
      ∃ c cs, x.toList = c :: cs ∧ isNameStart c = true ∧ (∀ d ∈ cs, isNameChar d = true) ∧
        Stops isNameChar rest ∧ s = c :: cs ++ rest := by
  rw [name]
  simp only [bind_eq_read, satisfy_eq_read, takeWhile_eq_read, pure_eq_read]
  constructor
  · rintro ⟨c, mid, ⟨hc, rfl⟩, cs, last, ⟨hcs, hstop, rfl⟩, rfl, rfl⟩
    exact ⟨c, cs, by simp, hc, hcs, hstop, rfl⟩
  · rintro ⟨c, cs, hx, hc, hcs, hstop, rfl⟩
    refine ⟨c, cs ++ rest, ⟨hc, rfl⟩, cs, rest, ⟨hcs, hstop, rfl⟩, ?_, rfl⟩
    rw [← hx, String.ofList_toList]

theorem name_readBack {s rest rest' : List Char} {x : String} (h : name s = .read x rest)
    (hrest : Stops isNameChar rest') : name (x.toList ++ rest') = .read x rest' := by
  obtain ⟨c, cs, hx, hc, hcs, -, -⟩ := name_eq_read.mp h
  exact name_eq_read.mpr ⟨c, cs, hx, hc, hcs, hrest, by rw [hx]⟩

/-- A name begins with nothing that does not begin names. -/
theorem stops_name {s rest : List Char} {x : String} (h : name s = .read x rest)
    {test : Char → Bool} (htest : ∀ c, isNameStart c = true → test c = false) (t : List Char) :
    Stops test (x.toList ++ t) := by
  obtain ⟨c, cs, hx, hc, -, -, -⟩ := name_eq_read.mp h
  rw [hx]
  exact stops_cons.mpr (htest c hc)

theorem stops_isBlank_name {s rest : List Char} {x : String} (h : name s = .read x rest)
    (t : List Char) : Stops isBlank (x.toList ++ t) :=
  stops_name h (fun _ => isBlank_of_isNameStart) t

theorem name_head?_ne {s rest : List Char} {x : String} (h : name s = .read x rest) {d : Char}
    (hd : isNameStart d = false) (t : List Char) : (x.toList ++ t).head? ≠ some d := by
  intro hhead
  have hstops : Stops (fun c => !isNameStart c) (x.toList ++ t) :=
    stops_name h (fun c hc => by simp [hc]) t
  have hstart := hstops d hhead
  simp [hd] at hstart

theorem name_of_stops {s : List Char} (h : Stops isNameStart s) : name s = .miss := by
  rw [name, bind_eq_miss]
  exact .inl (satisfy_eq_miss.mpr h)

theorem keyword_eq_read {word : String} {s rest : List Char} {u : Unit} :
    keyword word s = .read u rest ↔ s = word.toList ++ rest ∧ Stops isNameChar rest := by
  rw [keyword]
  simp only [bind_eq_read, text_eq_read, absent_eq_read, satisfy_eq_miss]
  constructor
  · rintro ⟨-, mid, hs, hstop, rfl⟩
    exact ⟨hs, hstop⟩
  · rintro ⟨hs, hstop⟩
    exact ⟨(), rest, hs, hstop, rfl⟩

theorem keyword_written {word : String} {s : List Char} (h : Stops isNameChar s) :
    keyword word (word.toList ++ s) = .read () s := keyword_eq_read.mpr ⟨rfl, h⟩

/-- Where `word` does not stand, neither does the keyword. -/
theorem keyword_of_not_isPrefix {word : String} {s : List Char} (h : ¬ word.toList <+: s) :
    keyword word s = .miss := by
  rw [keyword, bind_eq_miss]
  exact .inl (text_eq_miss.mpr h)

/-- On a name, a keyword reads the whole name or nothing. -/
theorem keyword_name {word : String} {cs rest : List Char} (hcs : ∀ c ∈ cs, isNameChar c = true)
    (hword : word.toList.all isNameChar = true) (hrest : Stops isNameChar rest)
    (hne : cs ≠ word.toList) : keyword word (cs ++ rest) = .miss := by
  by_cases hprefix : word.toList <+: cs ++ rest
  · obtain ⟨more, hmore⟩ := hprefix
    rw [keyword, bind_eq_miss]
    refine .inr ⟨(), more, text_eq_read.mpr hmore.symm, absent_eq_miss.mpr ?_⟩
    have hlong : ∃ d ds, cs = word.toList ++ d :: ds := by
      rcases List.append_eq_append_iff.mp hmore with ⟨as, hcs', hmore'⟩ | ⟨bs, hword', hrest'⟩
      · cases as with
        | nil => exact absurd (by simpa using hcs') hne
        | cons d ds => exact ⟨d, ds, hcs'⟩
      · cases bs with
        | nil => exact absurd (by simpa using hword'.symm) hne
        | cons d ds =>
          have hd := List.all_eq_true.mp hword d (by rw [hword']; simp)
          rw [hrest'] at hrest
          simp [hd] at hrest
    obtain ⟨d, ds, rfl⟩ := hlong
    obtain rfl : more = d :: ds ++ rest := by simpa using hmore
    exact ⟨d, ds ++ rest, satisfy_eq_read.mpr ⟨hcs d (by simp), rfl⟩⟩
  · exact keyword_of_not_isPrefix hprefix

/-! ## Signs -/

theorem bang_eq_read {s rest : List Char} {negated : Bool} :
    bang s = .read negated rest ↔
      (negated = true ∧ ∃ t, s = '!' :: t ∧ t.dropWhile isBlank = rest) ∨
        negated = false ∧ s.head? ≠ some '!' ∧ s = rest := by
  rw [bang, present_eq_read, bind_eq_miss, char_eq_miss]
  constructor
  · rintro (⟨hnegated, u, hsign⟩ | ⟨hnegated, hhead | ⟨_, mid, -, hblanks⟩, hs⟩)
    · obtain ⟨_, t, ht, hblanks⟩ := bind_eq_read.mp hsign
      obtain ⟨-, rfl⟩ := char_eq_read.mp ht
      obtain ⟨-, hrest⟩ : u = () ∧ t.dropWhile isBlank = rest := by simpa using hblanks
      exact .inl ⟨hnegated, t, rfl, hrest⟩
    · exact .inr ⟨hnegated, hhead, hs⟩
    · simp at hblanks
  · rintro (⟨hnegated, t, rfl, rfl⟩ | ⟨hnegated, hhead, hs⟩)
    · exact .inl ⟨hnegated, (), bind_eq_read.mpr ⟨'!', t, char_cons _ _, blanks_apply t⟩⟩
    · exact .inr ⟨hnegated, .inl hhead, hs⟩

theorem bang_bangText {negated : Bool} {rest : List Char} (hblank : Stops isBlank rest)
    (hbang : negated = false → rest.head? ≠ some '!') :
    bang (bangText negated ++ rest) = .read negated rest := by
  cases negated with
  | true =>
    refine present_eq_read.mpr (.inl ⟨rfl, (), bind_eq_read.mpr ⟨'!', rest, char_cons _ _, ?_⟩⟩)
    rw [blanks_apply, dropWhile_of_stops hblank]
  | false =>
    refine present_eq_read.mpr (.inr ⟨rfl, bind_eq_miss.mpr (.inl ?_), rfl⟩)
    exact char_eq_miss.mpr (hbang rfl)

theorem stops_bangText {negated : Bool} {rest : List Char} {test : Char → Bool}
    (hrest : Stops test rest) (hbang : test '!' = false) :
    Stops test (bangText negated ++ rest) := by
  cases negated with
  | true => exact stops_cons.mpr hbang
  | false => exact hrest

/-- A comma is written with one blank after it. -/
theorem comma_written {rest : List Char} (h : Stops isBlank rest) :
    comma (',' :: ' ' :: rest) = .read ',' rest := by
  refine spaced_eq_read.mpr ⟨' ' :: rest, char_cons _ _, ?_⟩
  rw [dropWhile_space, dropWhile_of_stops h]

/-- An opening bracket and the blanks behind it. -/
theorem open_written {c : Char} {s : List Char} (h : Stops isBlank s) :
    (char c >>= fun _ => blanks) (c :: s) = .read () s := by
  rw [bind_of_read (char_cons c s), blanks_apply, dropWhile_of_stops h]

theorem afterBlanks_char {c : Char} (hc : isBlank c = false) (rest : List Char) :
    afterBlanks (char c) (c :: rest) = .read c rest := by
  rw [afterBlanks_apply, dropWhile_of_stops (stops_cons.mpr hc), char_cons]

theorem spaced_char_of_head?_ne {c : Char} {s : List Char}
    (h : (s.dropWhile isBlank).head? ≠ some c) : spaced (char c) s = .miss :=
  spaced_eq_miss.mpr (char_eq_miss.mpr h)

theorem spaced_char_written {c : Char} {rest : List Char} (hc : isBlank c = false)
    (h : Stops isBlank rest) : spaced (char c) (' ' :: c :: ' ' :: rest) = .read c rest := by
  refine spaced_eq_read.mpr ⟨' ' :: rest, ?_, ?_⟩
  · rw [dropWhile_space, dropWhile_of_stops (stops_cons.mpr hc), char_cons]
  · rw [dropWhile_space, dropWhile_of_stops h]

end CorpusCost.Parser
