import CorpusCost.Proofs.Alike
import CorpusCost.Regex.Parser

/-!
# Expressions with their bounds rewritten

Writing an expression back changes its text in one respect: counting bounds come out in their
canonical spelling. Two texts are recast into one another when they agree up to the closing quote
except for that. Readers that look no further than a curly bracket, a backslash or a quote cannot
tell such texts apart, and neither can a look-around, which passes over bounds character by
character. So what was no class, no property and no look-around before does not become one.
-/

set_option autoImplicit false

namespace CorpusCost.Regex

open CorpusCost.Parser

variable {α β : Type}

/-- `u'` is `u` with some bounds in their written form, up to the quote that ends both. -/
inductive Recast : List Char → List Char → Prop where
  /-- A quote ends the expression; what follows it is of no concern. -/
  | close (t t' : List Char) : Recast ('"' :: t) ('"' :: t')
  /-- Any character but a quote and a backslash. -/
  | plain {c : Char} {u u' : List Char} (hquote : c ≠ '"') (hslash : c ≠ '\\') :
      Recast u u' → Recast (c :: u) (c :: u')
  /-- A backslash with the character after it. -/
  | escaped (c : Char) {u u' : List Char} : Recast u u' → Recast ('\\' :: c :: u) ('\\' :: c :: u')
  /-- Bounds and their written form. -/
  | bounds {b : Bounds} {u v v' : List Char} :
      Parser.bounds u = .read b v → Recast v v' → Recast u (b.written ++ v')

/-- Bounds begin with a curly bracket, as read and as written. -/
theorem bounds_eq_cons {b : Bounds} {u v : List Char} (h : Parser.bounds u = .read b v) :
    (∃ t, u = '\x7b' :: t) ∧ ∃ t, b.written = '\x7b' :: t := by
  constructor
  · obtain ⟨_, inside, _, _, hopen, _, _⟩ := between_eq_read.mp h
    exact ⟨inside, (char_eq_read.mp hopen).2⟩
  · unfold Bounds.written
    split
    · exact ⟨_, rfl⟩
    · split
      · exact ⟨_, rfl⟩
      · exact ⟨_, rfl⟩

theorem Recast.head?_eq {u u' : List Char} (h : Recast u u') : u'.head? = u.head? := by
  cases h with
  | close t t' => rfl
  | plain => rfl
  | escaped c => rfl
  | bounds hb hv =>
    obtain ⟨⟨t, rfl⟩, ⟨t', ht'⟩⟩ := bounds_eq_cons hb
    rw [ht']
    rfl

/-- Behind a plain character other than a curly bracket, the texts are recast again. -/
theorem Recast.tail {c : Char} {u u' : List Char} (h : Recast (c :: u) (c :: u'))
    (hquote : c ≠ '"') (hslash : c ≠ '\\') (hbrace : c ≠ '\x7b') : Recast u u' := by
  generalize hs : c :: u = s at h
  generalize hs' : c :: u' = s' at h
  cases h with
  | close t t' => exact absurd (List.cons.inj hs).1 hquote
  | plain _ _ hrest =>
    obtain rfl := (List.cons.inj hs).2
    obtain rfl := (List.cons.inj hs').2
    exact hrest
  | escaped d => exact absurd (List.cons.inj hs).1 hslash
  | bounds hb hv =>
    obtain ⟨⟨t, rfl⟩, -⟩ := bounds_eq_cons hb
    exact absurd (List.cons.inj hs).1 hbrace

/-! ## Texts kept as written -/

/-- Texts behind `w` are recast into one another also together with `w`. -/
def Verbatim (w : List Char) : Prop := ∀ v v', Recast v v' → Recast (w ++ v) (w ++ v')

theorem verbatim_nil : Verbatim [] := by
  intro v v' h
  exact h

theorem verbatim_char {c : Char} (hquote : c ≠ '"') (hslash : c ≠ '\\') : Verbatim [c] := by
  intro v v' h
  exact .plain hquote hslash h

theorem verbatim_escape (c : Char) : Verbatim ['\\', c] := by
  intro v v' h
  exact .escaped c h

theorem Verbatim.append {w x : List Char} (hw : Verbatim w) (hx : Verbatim x) :
    Verbatim (w ++ x) := by
  intro v v' h
  rw [List.append_assoc, List.append_assoc]
  exact hw _ _ (hx v v' h)

theorem Verbatim.cons {c : Char} {w : List Char} (hw : Verbatim w) (hquote : c ≠ '"')
    (hslash : c ≠ '\\') : Verbatim (c :: w) := (verbatim_char hquote hslash).append hw

theorem verbatim_of_forall {w : List Char} (h : ∀ c ∈ w, c ≠ '"' ∧ c ≠ '\\') : Verbatim w := by
  induction w with
  | nil => exact verbatim_nil
  | cons c w ih =>
    have hc := h c (by simp)
    exact (ih fun d hd => h d (by simp [hd])).cons hc.1 hc.2

/-! ## Readers that cannot tell recast texts apart -/

section

variable {test : Char → Bool}

/-- A test that no quote, backslash or opening curly bracket passes. -/
def Blind (test : Char → Bool) : Prop :=
  test '"' = false ∧ test '\\' = false ∧ test '\x7b' = false

theorem steady_satisfy (htest : Blind test) : Steady Recast (satisfy test) := by
  intro u u' h
  obtain ⟨hquote, hslash, hbrace⟩ := htest
  cases h with
  | close t t' =>
    rw [satisfy_cons, satisfy_cons, hquote]
    trivial
  | @plain c u u' _ _ hrest =>
    rw [satisfy_cons, satisfy_cons]
    split
    · exact ⟨rfl, hrest⟩
    · trivial
  | escaped c =>
    rw [satisfy_cons, satisfy_cons, hslash]
    trivial
  | bounds hb hv =>
    obtain ⟨⟨t, rfl⟩, ⟨t', ht'⟩⟩ := bounds_eq_cons hb
    rw [ht', List.cons_append, satisfy_cons, satisfy_cons, hbrace]
    trivial

theorem steady_takeWhile (htest : Blind test) : Steady Recast (takeWhile test) := by
  intro u u' h
  obtain ⟨hquote, hslash, hbrace⟩ := htest
  change u.takeWhile test = u'.takeWhile test ∧ Recast (u.dropWhile test) (u'.dropWhile test)
  induction h with
  | close t t' =>
    simp only [List.takeWhile_cons, List.dropWhile_cons, hquote]
    exact ⟨rfl, .close t t'⟩
  | @plain c u u' hq hs hrest ih =>
    simp only [List.takeWhile_cons, List.dropWhile_cons]
    cases test c with
    | true => exact ⟨by simp [ih.1], ih.2⟩
    | false => exact ⟨rfl, .plain hq hs hrest⟩
  | escaped c hrest _ =>
    simp only [List.takeWhile_cons, List.dropWhile_cons, hslash]
    exact ⟨rfl, .escaped c hrest⟩
  | @bounds b u v v' hb hv _ =>
    have hrecast := Recast.bounds hb hv
    obtain ⟨⟨t, rfl⟩, ⟨t', ht'⟩⟩ := bounds_eq_cons hb
    rw [ht', List.cons_append] at hrecast ⊢
    simp only [List.takeWhile_cons, List.dropWhile_cons, hbrace]
    exact ⟨rfl, hrecast⟩

theorem steady_takeWhile1 (htest : Blind test) : Steady Recast (takeWhile1 test) :=
  (steady_satisfy htest).bind fun _ => (steady_takeWhile htest).bind fun _ => steady_pure _

end

theorem steady_char {c : Char} (hquote : c ≠ '"') (hslash : c ≠ '\\') (hbrace : c ≠ '\x7b') :
    Steady Recast (char c) :=
  steady_satisfy ⟨by simpa using hquote.symm, by simpa using hslash.symm,
    by simpa using hbrace.symm⟩

theorem steady_text {word : String} (hquote : '"' ∉ word.toList) (hslash : '\\' ∉ word.toList)
    (hbrace : '\x7b' ∉ word.toList) : Steady Recast (text word) := by
  refine steady_chars fun c hc => steady_char ?_ ?_ ?_
  · rintro rfl
    exact hquote hc
  · rintro rfl
    exact hslash hc
  · rintro rfl
    exact hbrace hc

/-! ## Bounds and classes -/

/-- Where a curly bracket opens no bounds, it opens none in a recast text. -/
theorem bounds_miss {u u' : List Char} (h : Recast u u')
    (hu : Parser.bounds ('\x7b' :: u) = .miss) : Parser.bounds ('\x7b' :: u') = .miss := by
  have hclose : Steady Recast (char '\x7d') := steady_char (by decide) (by decide) (by decide)
  have hcomma : Steady Recast (char ',') := steady_char (by decide) (by decide) (by decide)
  have hnumber : Steady Recast number := steady_number (steady_takeWhile1 ⟨rfl, rfl, rfl⟩)
  have hinside : Steady Recast ((do
      let lo ← number
      let _ ← char ','
      let hi ← Parser.optional number
      pure (⟨lo, hi⟩ : Bounds))
      <|> (do
      let n ← number
      pure ⟨n, some n⟩)) :=
    (hnumber.bind fun _ => hcomma.bind fun _ => hnumber.optional.bind fun _ =>
      steady_pure _).orElse (hnumber.bind fun _ => steady_pure _)
  have htail := hinside.bind fun b => hclose.bind fun _ => steady_pure b
  exact htail.miss h hu

theorem steady_namedClass : Steady Recast namedClass := by
  refine (steady_text (by decide) (by decide) (by decide)).bind fun _ => ?_
  refine (steady_takeWhile1 ⟨rfl, rfl, rfl⟩).bind fun _ => ?_
  exact (steady_text (by decide) (by decide) (by decide)).bind fun _ => steady_pure _

theorem steady_namedMember : Steady Recast namedMember := by
  refine (steady_text (by decide) (by decide) (by decide)).bind fun _ => ?_
  refine (steady_takeWhile1 ⟨rfl, rfl, rfl⟩).bind fun _ => ?_
  exact (steady_text (by decide) (by decide) (by decide)).bind fun _ => steady_pure _

/-- Where a curly bracket opens no property name, it opens none in a recast text. -/
theorem bracedProperty_miss {u u' : List Char} (h : Recast u u')
    (hu : bracedProperty ('\x7b' :: u) = .miss) : bracedProperty ('\x7b' :: u') = .miss := by
  have hclose : Steady Recast (char '\x7d') := steady_char (by decide) (by decide) (by decide)
  have htail : Steady Recast (do
      let name ← takeWhile1 fun c => c.isAlphanum || c == '_' || c == '='
      let closing ← char '\x7d'
      pure ('\x7b' :: name ++ [closing])) :=
    (steady_takeWhile1 ⟨rfl, rfl, rfl⟩).bind fun _ => hclose.bind fun _ => steady_pure _
  exact htail.miss h hu

end CorpusCost.Regex
