import CorpusCost.Parser.Lexeme

/-!
# Texts that differ in their blanks

Two texts are the same but for their blanks when they have the same characters and the same quoted
strings, with blanks between them at the same places, though not the same blanks; at either end of
the text there may be blanks in one alone. Inside a string a backslash protects the character after
it, and blanks count.

A text whose last quote opens a string that nothing closes is told from the others: no query is
read from it. Two other texts that are the same but for their blanks fall into the same stretches,
and what is left of them behind any stretch is again the same but for its blanks. `Outside` says of
a relation between texts what readers need of it for that.
-/

set_option autoImplicit false

namespace CorpusCost.Parser

/-! ## Quoted strings -/

/-- Only blanks, or nothing. -/
def AllBlank (b : List Char) : Prop := ∀ c ∈ b, isBlank c = true

instance {b : List Char} : Decidable (AllBlank b) :=
  List.decidableBAll (isBlank · = true) b

/-- What stands between the quotes of a string. -/
inductive Enclosed : List Char → Prop where
  | nil : Enclosed []
  | plain {c : Char} {v : List Char} (hquote : c ≠ '"') (hslash : c ≠ '\\') (h : Enclosed v) :
    Enclosed (c :: v)
  | escaped (c : Char) {v : List Char} (h : Enclosed v) : Enclosed ('\\' :: c :: v)

/-- What stands behind a quote that opens a string which nothing closes. -/
inductive Unclosed : List Char → Prop where
  | nil : Unclosed []
  | slash : Unclosed ['\\']
  | plain {c : Char} {v : List Char} (hquote : c ≠ '"') (hslash : c ≠ '\\') (h : Unclosed v) :
    Unclosed (c :: v)
  | escaped (c : Char) {v : List Char} (h : Unclosed v) : Unclosed ('\\' :: c :: v)

/-! ## Respaced texts -/

/-- The two texts are the same but for their blanks, in which they may differ outside of strings:
where one has blanks the other has, but for the end. -/
inductive Respaced : List Char → List Char → Prop where
  | ending {b b' : List Char} (hb : AllBlank b) (hb' : AllBlank b') : Respaced b b'
  | plain {c : Char} {u u' : List Char} (hblank : isBlank c = false) (hquote : c ≠ '"')
      (h : Respaced u u') : Respaced (c :: u) (c :: u')
  | run {b b' u u' : List Char} (hb : AllBlank b) (hb' : AllBlank b') (hne : b ≠ [])
      (hne' : b' ≠ []) (h : Respaced u u') : Respaced (b ++ u) (b' ++ u')
  | string {v u u' : List Char} (hv : Enclosed v) (h : Respaced u u') :
    Respaced ('"' :: (v ++ '"' :: u)) ('"' :: (v ++ '"' :: u'))
  | unclosed {v v' : List Char} (hv : Unclosed v) (hv' : Unclosed v')
      (h : v.filter (!isBlank ·) = v'.filter (!isBlank ·)) : Respaced ('"' :: v) ('"' :: v')

/-- The two texts are the same but for their blanks, of which there may be any at the beginning. -/
def SameButBlanks (text other : String) : Prop :=
  Respaced (text.toList.dropWhile isBlank) (other.toList.dropWhile isBlank)

theorem Respaced.symm {u u' : List Char} (h : Respaced u u') : Respaced u' u := by
  induction h with
  | ending hb hb' => exact .ending hb' hb
  | plain hblank hquote _ ih => exact .plain hblank hquote ih
  | run hb hb' hne hne' _ ih => exact .run hb' hb hne' hne ih
  | string hv _ ih => exact .string hv ih
  | unclosed hv hv' h => exact .unclosed hv' hv h.symm

/-- Behind a quote a string is closed, or nothing closes it. -/
theorem enclosed_or_unclosed (u : List Char) :
    (∃ v t, u = v ++ '"' :: t ∧ Enclosed v) ∨ Unclosed u := by
  induction hn : u.length using Nat.strongRecOn generalizing u with
  | ind n ih =>
    subst hn
    cases u with
    | nil => exact .inr .nil
    | cons c u =>
      by_cases hquote : c = '"'
      · subst hquote
        exact .inl ⟨[], u, rfl, .nil⟩
      by_cases hslash : c = '\\'
      · subst hslash
        cases u with
        | nil => exact .inr .slash
        | cons d u =>
          rcases ih u.length (by simp only [List.length_cons]; omega) u rfl with
            ⟨v, t, rfl, hv⟩ | hu
          · exact .inl ⟨'\\' :: d :: v, t, rfl, .escaped d hv⟩
          · exact .inr (.escaped d hu)
      rcases ih u.length (by simp) u rfl with ⟨v, t, rfl, hv⟩ | hu
      · exact .inl ⟨c :: v, t, rfl, .plain hquote hslash hv⟩
      · exact .inr (.plain hquote hslash hu)

/-- Every text is the same as itself but for its blanks. -/
theorem Respaced.refl (u : List Char) : Respaced u u := by
  induction hn : u.length using Nat.strongRecOn generalizing u with
  | ind n ih =>
    subst hn
    cases u with
    | nil => exact .ending nofun nofun
    | cons c u =>
      have hrest := ih u.length (by simp) u rfl
      by_cases hquote : c = '"'
      · subst hquote
        rcases enclosed_or_unclosed u with ⟨v, t, rfl, hv⟩ | hu
        · exact .string hv (ih t.length (by simp only [List.length_cons, List.length_append]; omega)
            t rfl)
        · exact .unclosed hu hu rfl
      cases hblank : isBlank c with
      | false => exact .plain hblank hquote hrest
      | true =>
        have hrun : AllBlank [c] := fun d hd => List.mem_singleton.mp hd ▸ hblank
        exact .run hrun hrun (List.cons_ne_nil _ _) (List.cons_ne_nil _ _) hrest

/-! ## What readers need of a relation between texts -/

/-- How two related texts begin: with what is of one kind in both, before related texts, or they end
with blanks alone. -/
inductive BeginsAlike (R : List Char → List Char → Prop) : List Char → List Char → Prop where
  | ending {b b' : List Char} (hb : AllBlank b) (hb' : AllBlank b') (h : R [] []) :
    BeginsAlike R b b'
  | plain {c : Char} {u u' : List Char} (hblank : isBlank c = false) (hquote : c ≠ '"')
      (h : R u u') : BeginsAlike R (c :: u) (c :: u')
  | run {b b' u u' : List Char} (hb : AllBlank b) (hb' : AllBlank b') (hne : b ≠ [])
      (hne' : b' ≠ []) (h : R u u') : BeginsAlike R (b ++ u) (b' ++ u')
  | string {v u u' : List Char} (hv : Enclosed v) (h : R u u') :
    BeginsAlike R ('"' :: (v ++ '"' :: u)) ('"' :: (v ++ '"' :: u'))
  | unclosed {v : List Char} (hv : Unclosed v) : BeginsAlike R ('"' :: v) ('"' :: v)

/-- Where nothing is left of one of the two, only blanks are left of the other. -/
theorem BeginsAlike.allBlank {R : List Char → List Char → Prop} {u u' : List Char}
    (h : BeginsAlike R u u') (hempty : u = [] ∨ u' = []) : AllBlank u ∧ AllBlank u' := by
  cases h with
  | ending hb hb' => exact ⟨hb, hb'⟩
  | plain => simp at hempty
  | run _ _ hne hne' => simp [hne, hne'] at hempty
  | string => simp at hempty
  | unclosed => simp at hempty

/-- What readers need of a relation between texts to answer alike on related ones. -/
structure Outside (R : List Char → List Char → Prop) : Prop where
  /-- Related texts begin alike. -/
  begins : ∀ u u', R u u' → BeginsAlike R u u'
  /-- What is left of related texts is shorter for both or for neither. -/
  shrinks : ∀ u u' v v', R u u' → R v v' → u ≠ [] → u' ≠ [] →
    (v.length < u.length ↔ v'.length < u'.length)

/-! ## Texts with an unclosed string -/

/-- The last quote of the text opens a string that nothing closes. -/
inductive Dangling : List Char → Prop where
  | plain {c : Char} {u : List Char} (hquote : c ≠ '"') (h : Dangling u) : Dangling (c :: u)
  | string {v u : List Char} (hv : Enclosed v) (h : Dangling u) : Dangling ('"' :: (v ++ '"' :: u))
  | unclosed {v : List Char} (hv : Unclosed v) : Dangling ('"' :: v)

theorem Dangling.ne_nil {u : List Char} (h : Dangling u) : u ≠ [] := by
  cases h <;> exact List.cons_ne_nil _ _

theorem Dangling.append {b u : List Char} (hb : AllBlank b) (h : Dangling u) :
    Dangling (b ++ u) := by
  induction b with
  | nil => exact h
  | cons c b ih =>
    have hquote : c ≠ '"' := by
      rintro rfl
      exact absurd (hb '"' (by simp)) (by decide)
    exact .plain hquote (ih fun d hd => hb d (by simp [hd]))

/-- The relation of a text with an unclosed string to itself. -/
def SameDangling (u u' : List Char) : Prop := u = u' ∧ Dangling u

theorem outside_sameDangling : Outside SameDangling where
  begins := by
    rintro u _ ⟨rfl, hu⟩
    cases hu with
    | @plain c u hquote h =>
      cases hblank : isBlank c with
      | false => exact .plain hblank hquote ⟨rfl, h⟩
      | true =>
        have hrun : AllBlank [c] := fun d hd => List.mem_singleton.mp hd ▸ hblank
        exact .run hrun hrun (List.cons_ne_nil _ _) (List.cons_ne_nil _ _) ⟨rfl, h⟩
    | string hv h => exact .string hv ⟨rfl, h⟩
    | unclosed hv => exact .unclosed hv
  shrinks := by
    rintro u _ v _ ⟨rfl, -⟩ ⟨rfl, -⟩ - -
    rfl

/-! ## Texts in stretches -/

/-- A stretch of a text with the stretch at the same place of another text. -/
inductive Stretch : List Char × List Char → Prop where
  | plain {c : Char} (hblank : isBlank c = false) (hquote : c ≠ '"') : Stretch ([c], [c])
  | run {b b' : List Char} (hb : AllBlank b) (hb' : AllBlank b') (hne : b ≠ []) (hne' : b' ≠ []) :
    Stretch (b, b')
  | string {v : List Char} (hv : Enclosed v) : Stretch ('"' :: (v ++ ['"']), '"' :: (v ++ ['"']))

theorem Stretch.ne_nil {pair : List Char × List Char} (h : Stretch pair) :
    pair.1 ≠ [] ∧ pair.2 ≠ [] := by
  cases h with
  | plain => exact ⟨List.cons_ne_nil _ _, List.cons_ne_nil _ _⟩
  | run _ _ hne hne' => exact ⟨hne, hne'⟩
  | string => exact ⟨List.cons_ne_nil _ _, List.cons_ne_nil _ _⟩

/-- What is left of two texts behind some of their common stretches, before blanks at the ends of
both; or nothing is left of either. -/
def Aligned (stretches : List (List Char × List Char)) (b b' u u' : List Char) : Prop :=
  (∃ left, left <:+ stretches ∧ u = left.flatMap Prod.fst ++ b ∧ u' = left.flatMap Prod.snd ++ b') ∨
    u = [] ∧ u' = []

theorem length_le_flatMap {β : Type} {f : β → List Char} {xs : List β}
    (hf : ∀ x ∈ xs, f x ≠ []) : xs.length ≤ (xs.flatMap f).length := by
  induction xs with
  | nil => exact Nat.le_refl 0
  | cons x xs ih =>
    obtain ⟨hx, hxs⟩ := List.forall_mem_cons.mp hf
    have hpos := List.length_pos_iff.mpr hx
    have hrest := ih hxs
    rw [List.flatMap_cons, List.length_append, List.length_cons]
    omega

/-- Of two ends of a list of stretches the one with more stretches has more characters. -/
theorem length_flatMap_lt_iff {β : Type} {f : β → List Char} {all left other : List β}
    (hf : ∀ x ∈ all, f x ≠ []) (hleft : left <:+ all) (hother : other <:+ all) :
    (other.flatMap f).length < (left.flatMap f).length ↔ other.length < left.length := by
  have hmore : ∀ more rest : List β, more ++ rest <:+ all →
      more.length ≤ (more.flatMap f).length := fun more rest hends =>
    length_le_flatMap fun x hx => hf x (hends.mem (List.mem_append_left rest hx))
  rcases List.suffix_or_suffix_of_suffix hleft hother with ⟨more, rfl⟩ | ⟨more, rfl⟩
  · have hlength := hmore more left hother
    rw [List.flatMap_append, List.length_append, List.length_append]
    omega
  · have hlength := hmore more other hleft
    rw [List.flatMap_append, List.length_append, List.length_append]
    cases more with
    | nil => simp
    | cons x more =>
      rw [List.length_cons] at hlength ⊢
      omega

theorem outside_aligned {stretches : List (List Char × List Char)} {b b' : List Char}
    (hstretches : ∀ pair ∈ stretches, Stretch pair) (hb : AllBlank b) (hb' : AllBlank b') :
    Outside (Aligned stretches b b') where
  begins := by
    rintro u u' (⟨left, hleft, rfl, rfl⟩ | ⟨rfl, rfl⟩)
    · cases left with
      | nil => exact .ending hb hb' (.inr ⟨rfl, rfl⟩)
      | cons pair left =>
        have hrest : Aligned stretches b b' (left.flatMap Prod.fst ++ b)
            (left.flatMap Prod.snd ++ b') :=
          .inl ⟨left, (List.suffix_cons pair left).trans hleft, rfl, rfl⟩
        have hpair := hstretches pair (hleft.mem List.mem_cons_self)
        cases hpair with
        | plain hblank hquote => exact .plain hblank hquote hrest
        | run hc hc' hne hne' =>
          simp only [List.flatMap_cons, List.append_assoc]
          exact .run hc hc' hne hne' hrest
        | string hv =>
          simp only [List.flatMap_cons, List.append_assoc, List.cons_append, List.nil_append]
          exact .string hv hrest
    · exact .ending nofun nofun (.inr ⟨rfl, rfl⟩)
  shrinks := by
    rintro u u' v v' hu hv hne hne'
    obtain ⟨left, hleft, rfl, rfl⟩ : ∃ left, left <:+ stretches ∧
        u = left.flatMap Prod.fst ++ b ∧ u' = left.flatMap Prod.snd ++ b' :=
      hu.resolve_right fun hnil => hne hnil.1
    rcases hv with ⟨other, hother, rfl, rfl⟩ | ⟨rfl, rfl⟩
    · have hne := fun pair h => (hstretches pair h).ne_nil
      have hfirst := length_flatMap_lt_iff (fun pair h => (hne pair h).1) hleft hother
      have hsecond := length_flatMap_lt_iff (fun pair h => (hne pair h).2) hleft hother
      simp only [List.length_append, Nat.add_lt_add_iff_right]
      rw [hfirst, hsecond]
    · rw [List.length_nil, List.length_pos_iff, List.length_pos_iff]
      exact ⟨fun _ => hne', fun _ => hne⟩

/-- Texts that are the same but for their blanks fall into the same stretches, or both end with an
unclosed string. -/
theorem Respaced.stretches {u u' : List Char} (h : Respaced u u') :
    (∃ (stretches : List (List Char × List Char)) (b b' : List Char),
      (∀ pair ∈ stretches, Stretch pair) ∧ AllBlank b ∧ AllBlank b' ∧
      u = stretches.flatMap Prod.fst ++ b ∧ u' = stretches.flatMap Prod.snd ++ b') ∨
      Dangling u ∧ Dangling u' := by
  induction h with
  | @ending b b' hb hb' => exact .inl ⟨[], b, b', nofun, hb, hb', rfl, rfl⟩
  | plain hblank hquote _ ih =>
    rcases ih with ⟨stretches, b, b', hall, hb, hb', rfl, rfl⟩ | ⟨hu, hu'⟩
    · exact .inl ⟨_ :: stretches, b, b',
        List.forall_mem_cons.mpr ⟨.plain hblank hquote, hall⟩, hb, hb', rfl, rfl⟩
    · exact .inr ⟨.plain hquote hu, .plain hquote hu'⟩
  | run hc hc' hne hne' _ ih =>
    rcases ih with ⟨stretches, b, b', hall, hb, hb', rfl, rfl⟩ | ⟨hu, hu'⟩
    · exact .inl ⟨_ :: stretches, b, b',
        List.forall_mem_cons.mpr ⟨.run hc hc' hne hne', hall⟩, hb, hb', by simp, by simp⟩
    · exact .inr ⟨hu.append hc, hu'.append hc'⟩
  | string hv _ ih =>
    rcases ih with ⟨stretches, b, b', hall, hb, hb', rfl, rfl⟩ | ⟨hu, hu'⟩
    · exact .inl ⟨_ :: stretches, b, b',
        List.forall_mem_cons.mpr ⟨.string hv, hall⟩, hb, hb', by simp, by simp⟩
    · exact .inr ⟨.string hv hu, .string hv hu'⟩
  | unclosed hv hv' _ => exact .inr ⟨.unclosed hv, .unclosed hv'⟩

end CorpusCost.Parser
