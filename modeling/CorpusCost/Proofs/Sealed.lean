import CorpusCost.Proofs.Alike
import CorpusCost.Proofs.Respaced
import CorpusCost.Regex.Parser

/-!
# Expressions sealed by their closing quote

No reader of an expression looks behind the quote that closes it: a quote is read by nothing inside
an expression but an escape, which takes it together with its backslash. So two texts that agree
up to the closing quote are read alike, and an expression between quotes is read the same whatever
follows it.
-/

set_option autoImplicit false

namespace CorpusCost.Regex

open CorpusCost.Parser

variable {α β : Type} {t t' : List Char}

/-- The two texts agree up to a closing quote, which `t` and `t'` follow. A text without one agrees
with itself only; there `t` and `t'` are the same. -/
inductive Sealed (t t' : List Char) : List Char → List Char → Prop where
  /-- The closing quote. -/
  | close : Sealed t t' ('"' :: t) ('"' :: t')
  /-- Any character but a quote and a backslash. -/
  | plain {c : Char} {u u' : List Char} (hquote : c ≠ '"') (hslash : c ≠ '\\') :
      Sealed t t' u u' → Sealed t t' (c :: u) (c :: u')
  /-- A backslash with the character after it. -/
  | escaped (c : Char) {u u' : List Char} :
      Sealed t t' u u' → Sealed t t' ('\\' :: c :: u) ('\\' :: c :: u')
  /-- The end of the text. -/
  | nil : t = t' → Sealed t t' [] []
  /-- A backslash at the end of the text. -/
  | slash : t = t' → Sealed t t' ['\\'] ['\\']

/-- Sealed texts differ in length as the texts behind their closing quotes do. -/
theorem Sealed.length_add {u u' : List Char} (h : Sealed t t' u u') :
    u.length + t'.length = u'.length + t.length := by
  induction h with
  | close =>
    simp only [List.length_cons]
    omega
  | plain _ _ _ ih =>
    simp only [List.length_cons]
    omega
  | escaped _ _ ih =>
    simp only [List.length_cons]
    omega
  | nil ht => rw [ht]
  | slash ht => rw [ht]

theorem shrinksAlike_sealed (t t' : List Char) : ShrinksAlike (Sealed t t') := by
  intro u u' v v' hu hv
  have hlu := hu.length_add
  have hlv := hv.length_add
  omega

/-- A text sealed with one that begins with a quote begins with the closing quote. -/
theorem Sealed.eq_of_quote {u r : List Char} (h : Sealed t t' ('"' :: u) r) :
    u = t ∧ r = '"' :: t' := by
  cases h with
  | close => exact ⟨rfl, rfl⟩
  | plain hquote => exact absurd rfl hquote

/-- Texts with the same string in front agree up to the quote that closes it. -/
theorem sealed_of_enclosed {v : List Char} (h : Enclosed v) (t t' : List Char) :
    Sealed t t' (v ++ '"' :: t) (v ++ '"' :: t') := by
  induction h with
  | nil => exact .close
  | plain hquote hslash _ ih => exact .plain hquote hslash ih
  | escaped c _ ih => exact .escaped c ih

theorem sealed_of_unclosed {v : List Char} (h : Unclosed v) (t : List Char) : Sealed t t v v := by
  induction h with
  | nil => exact .nil rfl
  | slash => exact .slash rfl
  | plain hquote hslash _ ih => exact .plain hquote hslash ih
  | escaped c _ ih => exact .escaped c ih

/-! ## Characters -/

section

variable {test : Char → Bool}

/-- A test that no quote and no backslash passes. -/
def Shy (test : Char → Bool) : Prop := test '"' = false ∧ test '\\' = false

theorem steady_satisfy_of_shy (htest : Shy test) : Steady (Sealed t t') (satisfy test) := by
  intro u u' h
  obtain ⟨hquote, hslash⟩ := htest
  cases h with
  | close =>
    rw [satisfy_cons, satisfy_cons, hquote]
    trivial
  | plain _ _ hrest =>
    rw [satisfy_cons, satisfy_cons]
    split
    · exact ⟨rfl, hrest⟩
    · trivial
  | escaped c =>
    rw [satisfy_cons, satisfy_cons, hslash]
    trivial
  | nil => trivial
  | slash =>
    rw [satisfy_cons, hslash]
    trivial

theorem steady_takeWhile1_of_shy (htest : Shy test) : Steady (Sealed t t') (takeWhile1 test) := by
  have hrow : Steady (Sealed t t') (takeWhile test) := by
    intro u u' h
    obtain ⟨hquote, hslash⟩ := htest
    change u.takeWhile test = u'.takeWhile test ∧
      Sealed t t' (u.dropWhile test) (u'.dropWhile test)
    induction h with
    | close =>
      simp only [List.takeWhile_cons, List.dropWhile_cons, hquote]
      exact ⟨rfl, .close⟩
    | @plain c u u' hq hs hrest ih =>
      simp only [List.takeWhile_cons, List.dropWhile_cons]
      cases test c with
      | true => exact ⟨congrArg (c :: ·) ih.1, ih.2⟩
      | false => exact ⟨rfl, .plain hq hs hrest⟩
    | escaped c hrest _ =>
      simp only [List.takeWhile_cons, List.dropWhile_cons, hslash]
      exact ⟨rfl, .escaped c hrest⟩
    | nil ht => exact ⟨rfl, .nil ht⟩
    | slash ht =>
      refine ⟨rfl, ?_⟩
      simp only [List.dropWhile_cons, hslash]
      exact .slash ht
  exact (steady_satisfy_of_shy htest).bind fun _ => hrow.bind fun _ => steady_pure _

/-- A backslash is read only together with the character after it, which may be any. -/
theorem steady_escaped {f : Char → Char → Parser β} (hf : ∀ b c, Steady (Sealed t t') (f b c)) :
    Steady (Sealed t t') (char '\\' >>= fun b => satisfy test >>= f b) := by
  intro u u' h
  cases h with
  | close =>
    rw [bind_of_miss (char_eq_miss.mpr (by simp)), bind_of_miss (char_eq_miss.mpr (by simp))]
    trivial
  | plain _ hslash =>
    rw [bind_of_miss (char_eq_miss.mpr (by simpa using hslash)),
      bind_of_miss (char_eq_miss.mpr (by simpa using hslash))]
    trivial
  | @escaped c u u' hrest =>
    rw [bind_of_read (char_cons _ _), bind_of_read (char_cons _ _)]
    by_cases hc : test c = true
    · rw [bind_of_read (satisfy_eq_read.mpr ⟨hc, rfl⟩),
        bind_of_read (satisfy_eq_read.mpr ⟨hc, rfl⟩)]
      exact hf _ _ _ _ hrest
    · rw [bind_of_miss (satisfy_eq_miss.mpr (stops_cons.mpr (by simpa using hc))),
        bind_of_miss (satisfy_eq_miss.mpr (stops_cons.mpr (by simpa using hc)))]
      trivial
  | nil =>
    rw [bind_of_miss rfl]
    trivial
  | slash =>
    rw [bind_of_read (char_cons _ _), bind_of_miss rfl]
    trivial

end

theorem steady_char_of_shy {c : Char} (hquote : c ≠ '"') (hslash : c ≠ '\\') :
    Steady (Sealed t t') (char c) :=
  steady_satisfy_of_shy ⟨by simpa using hquote.symm, by simpa using hslash.symm⟩

theorem steady_text_of_shy {word : String}
    (h : word.toList.any (fun c => c == '"' || c == '\\') = false) :
    Steady (Sealed t t') (text word) := by
  refine steady_chars fun c hc => ?_
  have hplain := eq_false_of_any hc h
  rw [Bool.or_eq_false_iff, beq_eq_false_iff_ne, beq_eq_false_iff_ne] at hplain
  exact steady_char_of_shy hplain.1 hplain.2

/-! ## The grammar of expressions -/

theorem steady_escape : Steady (Sealed t t') escape :=
  steady_escaped fun _ _ => steady_pure _

theorem steady_propertyClass : Steady (Sealed t t') propertyClass := by
  have hbraced : Steady (Sealed t t') bracedProperty :=
    (steady_char_of_shy (by decide) (by decide)).bind fun _ =>
      (steady_takeWhile1_of_shy ⟨rfl, rfl⟩).bind fun _ =>
        (steady_char_of_shy (by decide) (by decide)).bind fun _ => steady_pure _
  exact steady_escaped fun _ _ =>
    (hbraced.orElse ((steady_satisfy_of_shy ⟨rfl, rfl⟩).bind fun _ => steady_pure _)).bind
      fun _ => steady_pure _

theorem steady_symbol : Steady (Sealed t t') symbol :=
  ((steady_char_of_shy (by decide) (by decide)).map _).orElse <|
  ((steady_char_of_shy (by decide) (by decide)).map _).orElse <|
  ((steady_satisfy_of_shy ⟨rfl, rfl⟩).map _).orElse <|
  ((steady_satisfy_of_shy ⟨rfl, rfl⟩).map _).orElse <|
  (steady_propertyClass.map _).orElse <|
  (steady_escape.map _).orElse <|
  (steady_satisfy_of_shy ⟨rfl, rfl⟩).map _

theorem steady_member : Steady (Sealed t t') member := by
  have hnamed : Steady (Sealed t t') namedMember :=
    (steady_text_of_shy (by decide)).bind fun _ =>
      (steady_takeWhile1_of_shy ⟨rfl, rfl⟩).bind fun _ =>
        (steady_text_of_shy (by decide)).bind fun _ => steady_pure _
  have hplain : Steady (Sealed t t') classChar := steady_satisfy_of_shy ⟨rfl, rfl⟩
  exact (hnamed.map _).orElse <| (steady_escape.map _).orElse <|
    (hplain.bind fun _ => (steady_char_of_shy (by decide) (by decide)).bind fun _ =>
      hplain.bind fun _ => steady_pure _).orElse <|
    hplain.map _

theorem steady_charClass : Steady (Sealed t t') charClass :=
  (steady_char_of_shy (by decide) (by decide)).bind fun _ =>
    (steady_char_of_shy (by decide) (by decide)).present.bind fun _ =>
      (steady_member.many1 (shrinksAlike_sealed t t')).bind fun _ =>
        (steady_char_of_shy (by decide) (by decide)).bind fun _ => steady_pure _

theorem steady_bounds : Steady (Sealed t t') Parser.bounds := by
  have hnumber : Steady (Sealed t t') number := steady_number (steady_takeWhile1_of_shy ⟨rfl, rfl⟩)
  exact Paired.between (steady_char_of_shy (by decide) (by decide))
    (steady_char_of_shy (by decide) (by decide))
    ((hnumber.bind fun _ => (steady_char_of_shy (by decide) (by decide)).bind fun _ =>
        hnumber.optional.bind fun _ => steady_pure _).orElse
      (hnumber.bind fun _ => steady_pure _))

theorem steady_atom : Steady (Sealed t t') atom := by
  have hnamed : Steady (Sealed t t') namedClass :=
    (steady_text_of_shy (by decide)).bind fun _ =>
      (steady_takeWhile1_of_shy ⟨rfl, rfl⟩).bind fun _ =>
        (steady_text_of_shy (by decide)).bind fun _ => steady_pure _
  exact (steady_bounds.map _).orElse <| (hnamed.map _).orElse <| (steady_charClass.map _).orElse <|
    (steady_symbol.map _).orElse <| (steady_satisfy_of_shy ⟨rfl, rfl⟩).map _

theorem steady_lookBody (nesting : Nesting) : Steady (Sealed t t') (lookBody nesting) := by
  refine steady_recursive (shrinksAlike_sealed t t') ?_ nesting
  intro p q h nesting
  refine Paired.map _ (Paired.many (shrinksAlike_sealed t t') ?_)
  exact Paired.orElse steady_escape <|
    Paired.orElse ((steady_char_of_shy (by decide) (by decide)).bind fun _ =>
      (Paired.nested h nesting).bind fun _ =>
        (steady_char_of_shy (by decide) (by decide)).bind fun _ => steady_pure _) <|
    (steady_satisfy_of_shy ⟨rfl, rfl⟩).map _

theorem steady_look (nesting : Nesting) : Steady (Sealed t t') (look nesting) :=
  (steady_text_of_shy (by decide)).bind fun _ => (steady_lookBody nesting).bind fun _ =>
    (steady_char_of_shy (by decide) (by decide)).bind fun _ => steady_pure _

theorem steady_choice (nesting : Nesting) : Steady (Sealed t t') (choice nesting) := by
  refine steady_recursive (shrinksAlike_sealed t t') ?_ nesting
  intro p q h nesting
  refine Paired.sepBy1 (shrinksAlike_sealed t t') (steady_char_of_shy (by decide) (by decide)) ?_
  refine Paired.many (shrinksAlike_sealed t t') ?_
  exact Paired.orElse ((steady_look nesting).map _) <|
    Paired.orElse (Paired.map _ (Paired.between (steady_char_of_shy (by decide) (by decide))
      (steady_char_of_shy (by decide) (by decide)) (Paired.nested h nesting))) <|
    (steady_atom.many1 (shrinksAlike_sealed t t')).map _

/-! ## Expressions between quotes -/

/-- An expression between quotes is read the same whatever follows its closing quote. -/
theorem quoted_append {nesting : Nesting} {s rest : List Char} {regex : Regex}
    (h : quoted nesting s = .read regex rest) :
    ∃ v, s = '"' :: (v ++ '"' :: rest) ∧
      ∀ rest', quoted nesting ('"' :: (v ++ '"' :: rest')) = .read regex rest' := by
  obtain ⟨_, inside, _, after, hopen, hregex, hclose⟩ := between_eq_read.mp h
  obtain ⟨-, rfl⟩ := char_eq_read.mp hopen
  obtain ⟨-, rfl⟩ := char_eq_read.mp hclose
  have hsteady : ∀ t t' u', Sealed t t' inside u' →
      rest = t ∧ unquoted nesting u' = .read regex ('"' :: t') := by
    intro t t' u' hu
    have halike : Alike (Sealed t t') (unquoted nesting inside) (unquoted nesting u') :=
      (steady_choice nesting).map Regex.mk inside u' hu
    rw [hregex] at halike
    obtain ⟨r, hread, hr⟩ := halike.read_left
    obtain ⟨hrest, rfl⟩ := hr.eq_of_quote
    exact ⟨hrest, hread⟩
  rcases enclosed_or_unclosed inside with ⟨v, t, rfl, hv⟩ | hinside
  · obtain ⟨rfl, -⟩ := hsteady t t _ (sealed_of_enclosed hv t t)
    refine ⟨v, rfl, ?_⟩
    intro rest'
    obtain ⟨-, hread⟩ := hsteady rest rest' _ (sealed_of_enclosed hv rest rest')
    exact between_eq_read.mpr ⟨'"', _, '"', _, char_cons _ _, hread, char_cons _ _⟩
  · -- Without a closing quote, what follows it could be anything.
    obtain ⟨hrest, -⟩ := hsteady ('"' :: rest) ('"' :: rest) _ (sealed_of_unclosed hinside _)
    exact absurd hrest (List.cons_ne_self _ _).symm

end CorpusCost.Regex
