import CorpusCost.Proofs.ReadBack

/-!
# Texts cut short

A text is cut by taking its end `y` away. What a reader reads before the cut it reads from the text
that is cut, too, but for one thing: where it looked at what follows and did not like it, the cut
may have taken that away. So each law says what of the cut text may be left behind the construct,
and an alternative, an option or a repetition asks that what was passed over is not found there
now. The laws relate two readers, since a grammar that refers to itself stands inside its body for
texts of different lengths.
-/

set_option autoImplicit false

namespace CorpusCost.Parser

variable {α β γ ι : Type} {y : List Char} {Φ Ψ : List Char → Prop} {p q : Parser α}

/-- What `p` reads up to some place before the end `y` of a text, `q` reads from the text without
`y`, where `Φ` holds of what is left there. -/
structure Cut (y : List Char) (Φ : List Char → Prop) (p q : Parser α) : Prop where
  /-- What is left of a text ends it. -/
  suffix : ∀ {s rest : List Char} {a : α}, p s = .read a rest → rest <:+ s
  /-- The text without `y` is read alike. -/
  read : ∀ {t x : List Char} {a : α}, p (t ++ y) = .read a (x ++ y) → Φ x → q t = .read a x

/-- Anything may be left. -/
def Anything (_ : List Char) : Prop := True

/-- A text that has the end `y` in common with a longer one is a text without `y` followed by
it. -/
theorem exists_eq_append {u v : List Char} (h : u ++ y <:+ v) :
    ∃ w, v = w ++ u ++ y := by
  obtain ⟨w, rfl⟩ := h
  exact ⟨w, by simp⟩

/-! ## Putting readers together -/

/-- What a reader leaves anywhere, it leaves where `Φ` holds. -/
theorem Cut.imp (h : Cut y Ψ p q) (himp : ∀ x, Φ x → Ψ x) : Cut y Φ p q where
  suffix := h.suffix
  read hread hx := h.read hread (himp _ hx)

theorem Cut.of_anything (h : Cut y Anything p q) : Cut y Φ p q := h.imp fun _ _ => trivial

theorem cut_pure (a : α) : Cut y Φ (pure a : Parser α) (pure a) where
  suffix h := by
    obtain ⟨-, rfl⟩ := pure_eq_read.mp h
    exact List.suffix_refl _
  read h _ := by
    obtain ⟨rfl, hs⟩ := pure_eq_read.mp h
    exact pure_eq_read.mpr ⟨rfl, List.append_cancel_right hs⟩

theorem cut_never : Cut y Φ (never : Parser α) never where
  suffix h := by simp [never] at h
  read h := by simp [never] at h

/-- Behind the first reader stands what the second one reads. -/
theorem Cut.bind {f g : α → Parser β} (h : Cut y Ψ p q) (hf : ∀ a, Cut y Φ (f a) (g a))
    (hnext : ∀ a u b x, g a u = .read b x → Φ x → Ψ u) : Cut y Φ (p >>= f) (q >>= g) where
  suffix hread := by
    obtain ⟨a, mid, ha, hb⟩ := bind_eq_read.mp hread
    exact ((hf a).suffix hb).trans (h.suffix ha)
  read hread hx := by
    obtain ⟨a, mid, ha, hb⟩ := bind_eq_read.mp hread
    obtain ⟨w, rfl⟩ := exists_eq_append ((hf a).suffix hb)
    have hcut := (hf a).read hb hx
    exact bind_eq_read.mpr ⟨a, _, h.read ha (hnext a _ _ _ hcut hx), hcut⟩

/-- A reader that may be followed by anything stands before any other. -/
theorem Cut.seq {f g : α → Parser β} (h : Cut y Anything p q) (hf : ∀ a, Cut y Φ (f a) (g a)) :
    Cut y Φ (p >>= f) (q >>= g) :=
  h.bind hf fun _ _ _ _ _ _ => trivial

theorem Cut.map (f : α → β) (h : Cut y Φ p q) : Cut y Φ (f <$> p) (f <$> q) := by
  refine h.bind (f := fun a => pure (f a)) (g := fun a => pure (f a)) (fun a => cut_pure (f a)) ?_
  intro a u b x hu hx
  obtain ⟨-, rfl⟩ := pure_eq_read.mp hu
  exact hx

/-- Where `p` misses, `q` misses when the text is cut. -/
def Fades (y : List Char) (p q : Parser α) : Prop := ∀ x, p (x ++ y) = .miss → q x = .miss

theorem Fades.map (f : α → β) (h : Fades y p q) : Fades y (f <$> p) (f <$> q) := by
  intro x hmiss
  exact map_eq_miss.mpr (h x (map_eq_miss.mp hmiss))

/-- A second alternative is read from the cut text where the first one is not found there. -/
theorem Cut.orElse {p' q' : Parser α} (h : Cut y Φ p q) (h' : Cut y Φ p' q')
    (hmiss : ∀ t a x, p (t ++ y) = .miss → q' t = .read a x → Φ x → q t = .miss) :
    Cut y Φ (p <|> p') (q <|> q') where
  suffix hread := by
    rcases orElse_eq_read.mp hread with hfirst | ⟨-, hsecond⟩
    · exact h.suffix hfirst
    · exact h'.suffix hsecond
  read hread hx := by
    rcases orElse_eq_read.mp hread with hfirst | ⟨hp, hsecond⟩
    · exact orElse_eq_read.mpr (.inl (h.read hfirst hx))
    · have hcut := h'.read hsecond hx
      exact orElse_eq_read.mpr (.inr ⟨hmiss _ _ _ hp hcut hx, hcut⟩)

theorem Cut.orElse_of_fades {p' q' : Parser α} (h : Cut y Φ p q) (hfades : Fades y p q)
    (h' : Cut y Φ p' q') : Cut y Φ (p <|> p') (q <|> q') :=
  h.orElse h' fun t _ _ hp _ _ => hfades t hp

theorem Cut.optional (h : Cut y Φ p q) (hmiss : ∀ x, p (x ++ y) = .miss → Φ x → q x = .miss) :
    Cut y Φ (optional p) (optional q) where
  suffix hread := by
    rcases optional_eq_read.mp hread with ⟨a, -, ha⟩ | ⟨-, -, rfl⟩
    · exact h.suffix ha
    · exact List.suffix_refl _
  read hread hx := by
    rcases optional_eq_read.mp hread with ⟨a, rfl, ha⟩ | ⟨rfl, hp, hs⟩
    · exact optional_eq_read.mpr (.inl ⟨a, rfl, h.read ha hx⟩)
    · obtain rfl := List.append_cancel_right hs
      exact optional_eq_read.mpr (.inr ⟨rfl, hmiss _ hp hx, rfl⟩)

theorem Cut.present (h : Cut y Φ p q) (hmiss : ∀ x, p (x ++ y) = .miss → Φ x → q x = .miss) :
    Cut y Φ (present p) (present q) :=
  (h.optional hmiss).map _

theorem cut_absent (hmiss : ∀ x, p (x ++ y) = .miss → Φ x → q x = .miss) :
    Cut y Φ (absent p) (absent q) where
  suffix hread := by
    obtain ⟨-, rfl⟩ := absent_eq_read.mp hread
    exact List.suffix_refl _
  read hread hx := by
    obtain ⟨hp, hs⟩ := absent_eq_read.mp hread
    obtain rfl := List.append_cancel_right hs
    exact absent_eq_read.mpr ⟨hmiss _ hp hx, rfl⟩

theorem Cut.between {opening opening' : Parser β} {closing closing' : Parser γ}
    (hopen : Cut y Anything opening opening') (hclose : Cut y Φ closing closing')
    (h : Cut y Ψ p q) (hnext : ∀ u c x, closing' u = .read c x → Φ x → Ψ u) :
    Cut y Φ (between opening closing p) (between opening' closing' q) := by
  refine hopen.seq fun _ => h.bind (fun a => ?_) ?_
  · exact hclose.bind (fun _ => cut_pure a) fun _ u _ x hu hx => by
      obtain ⟨-, rfl⟩ := pure_eq_read.mp hu
      exact hx
  · intro a u b x hu hx
    obtain ⟨c, last, hc, hlast⟩ := bind_eq_read.mp hu
    obtain ⟨-, rfl⟩ := pure_eq_read.mp hlast
    exact hnext u c _ hc hx

theorem Cut.nested {p q : Nesting → Parser α} (h : ∀ nesting, Cut y Φ (p nesting) (q nesting))
    (nesting : Nesting) : Cut y Φ (nested nesting p) (nested nesting q) where
  suffix hread := (h _).suffix (nested_eq_read.mp hread).2
  read hread hx := by
    obtain ⟨hfull, hread⟩ := nested_eq_read.mp hread
    exact nested_eq_read.mpr ⟨hfull, (h _).read hread hx⟩

theorem OpensWith.ends {cs : List Char} (h : OpensWith cs q) {s rest : List Char} {a : α}
    (hread : q s = .read a rest) : Ends cs s := by
  obtain ⟨c, t, rfl, hc⟩ := h.read hread
  exact ends_cons.mpr hc

/-- Alternatives that begin with different characters are told apart before a cut, too. -/
theorem Cut.orElse_of_opensWith {cs ds : List Char} {p' q' : Parser α} (h : Cut y Φ p q)
    (h' : Cut y Φ p' q') (hq : OpensWith cs q) (hq' : OpensWith ds q')
    (hne : ds.any cs.contains = false) :
    Cut y Φ (p <|> p') (q <|> q') := by
  refine h.orElse h' ?_
  intro t a x _ hread _
  obtain ⟨c, u, rfl, hc⟩ := hq'.read hread
  have hother := eq_false_of_any hc hne
  rw [List.contains_eq_mem, decide_eq_false_iff_not] at hother
  refine hq _ fun d hd hhead => hother ?_
  obtain rfl : c = d := by simpa using hhead
  exact hd

/-! ## Repetitions -/

/-- What may stand behind the items of a row may stand before the row, where it may stand before
each item. -/
theorem of_many (hnext : ∀ t a x, q t = .read a x → Ψ x → Ψ t) {as : List α} {u x : List Char}
    (h : many q u = .read as x) (hx : Ψ x) : Ψ u := by
  refine reads_many (T := fun u _ x => Ψ x → Ψ u) (fun _ => id) ?_ u as x h hx
  intro u a mid as x ha _ hmore hx
  exact hnext u a mid ha (hmore hx)

/-- A row of items leaves an end of its text when each item does. -/
theorem suffix_of_many (h : ∀ {s rest : List Char} {a : α}, p s = .read a rest → rest <:+ s)
    {s rest : List Char} {as : List α} (hread : many p s = .read as rest) : rest <:+ s := by
  refine reads_many (T := fun s _ rest => rest <:+ s) List.suffix_refl ?_ s as rest hread
  intro s a mid as rest ha _ hmore
  exact hmore.trans (h ha)

theorem Cut.many (h : Cut y Ψ p q) (hnext : ∀ t a x, q t = .read a x → Ψ x → Ψ t)
    (hlast : ∀ x, Φ x → Ψ x ∧ q x = .miss) : Cut y Φ (many p) (many q) where
  suffix := suffix_of_many h.suffix
  read {t x as} hread hx := by
    induction as generalizing t with
    | nil =>
      obtain rfl := List.append_cancel_right (many_eq_read_nil hread)
      exact many_of_miss (hlast _ hx).2
    | cons a as ih =>
      obtain ⟨mid, ha, hshort, hmore⟩ := many_eq_read_cons.mp hread
      obtain ⟨w, rfl⟩ := exists_eq_append (suffix_of_many h.suffix hmore)
      have hcut := ih hmore
      have hlt : (w ++ x).length < t.length := by
        simp only [List.length_append] at hshort ⊢
        omega
      exact many_eq_read_cons.mpr
        ⟨w ++ x, h.read ha (of_many hnext hcut (hlast x hx).1), hlt, hcut⟩

theorem Cut.many1 (h : Cut y Ψ p q) (hnext : ∀ t a x, q t = .read a x → Ψ x → Ψ t)
    (hlast : ∀ x, Φ x → Ψ x ∧ q x = .miss) : Cut y Φ (many1 p) (many1 q) := by
  refine h.bind (fun a => ((h.many hnext hlast).map (a :: ·))) ?_
  intro a u as x hu hx
  obtain ⟨more, -, hmore⟩ := map_eq_read.mp hu
  exact of_many hnext hmore (hlast x hx).1

theorem Cut.sepBy1 {sep sep' : Parser β} (hsep : Cut y Anything sep sep') (h : Cut y Ψ p q)
    (hnext : ∀ t b u, sep' t = .read b u → Ψ t) (hlast : ∀ x, Φ x → Ψ x ∧ sep' x = .miss) :
    Cut y Φ (sepBy1 sep p) (sepBy1 sep' q) := by
  have hitem : Cut y Ψ (sep >>= fun _ => p) (sep' >>= fun _ => q) := hsep.seq fun _ => h
  have hstart : ∀ t a x, (sep' >>= fun _ => q) t = .read a x → Ψ x → Ψ t := by
    intro t a x ht _
    obtain ⟨b, mid, hb, -⟩ := bind_eq_read.mp ht
    exact hnext t b mid hb
  have hend : ∀ x, Φ x → Ψ x ∧ (sep' >>= fun _ => q) x = .miss := by
    intro x hx
    exact ⟨(hlast x hx).1, bind_of_miss (hlast x hx).2 _⟩
  refine h.bind (fun a => ((hitem.many hstart hend).map (a :: ·))) ?_
  intro a u as x hu hx
  obtain ⟨more, -, hmore⟩ := map_eq_read.mp hu
  exact of_many hstart hmore (hlast x hx).1

/-! ## Grammars that refer to themselves -/

/-- The reader `q` answers as `p` does, or misses. -/
def Partly (q p : Parser α) : Prop := ∀ t, q t = p t ∨ q t = .miss

theorem Partly.read (h : Partly q p) {t x : List Char} {a : α} (hq : q t = .read a x) :
    p t = .read a x := by
  rcases h t with ht | ht
  · exact ht.symm.trans hq
  · simp [hq] at ht

theorem Partly.miss (h : Partly q p) {t : List Char} (hp : p t = .miss) : q t = .miss := by
  rcases h t with ht | ht
  · exact ht.trans hp
  · exact ht

/-- A reader answers for short texts as it does for all. -/
theorem partly_shorter (n : Nat) (p : Parser α) : Partly (shorter n p) p := by
  intro t
  by_cases ht : t.length < n
  · exact .inl (if_pos ht)
  · exact .inr (if_neg ht)

/-- A grammar is read from cut texts when its body is, where some part of the grammar stands for
the constructs inside. -/
theorem cut_recursive {body : (ι → Parser α) → ι → Parser α}
    (hbody : ∀ p q : ι → Parser α, (∀ j, Cut y Φ (p j) (q j)) →
      (∀ j, Partly (q j) (recursive body j)) → ∀ i, Cut y Φ (body p i) (body q i)) (i : ι) :
    Cut y Φ (recursive body i) (recursive body i) := by
  have hinner : ∀ n : Nat, (∀ s : List Char, s.length < n → ∀ j rest a,
      recursive body j s = .read a rest → rest <:+ s ∧ ∀ t x, s = t ++ y → rest = x ++ y → Φ x →
        recursive body j t = .read a x) →
      ∀ i, Cut y Φ (body (fun j => shorter n (recursive body j)) i)
        (body (fun j => shorter (n - y.length) (recursive body j)) i) := by
    intro n h
    refine hbody _ _ (fun j => ⟨?_, ?_⟩) fun j => partly_shorter _ _
    · intro s rest a hread
      obtain ⟨hshort, hread⟩ := shorter_eq_read.mp hread
      exact (h s hshort j rest a hread).1
    · intro t x a hread hx
      obtain ⟨hshort, hread⟩ := shorter_eq_read.mp hread
      refine shorter_eq_read.mpr ⟨?_, (h _ hshort j _ a hread).2 t x rfl rfl hx⟩
      rw [List.length_append] at hshort
      omega
  have hall : ∀ i s rest a, recursive body i s = .read a rest →
      rest <:+ s ∧ ∀ t x, s = t ++ y → rest = x ++ y → Φ x → recursive body i t = .read a x := by
    refine recursive_induction (P := fun i s o => ∀ rest a, o = .read a rest →
      rest <:+ s ∧ ∀ t x, s = t ++ y → rest = x ++ y → Φ x → recursive body i t = .read a x) ?_
    intro i s ih rest a hread
    have hcut := hinner s.length (fun t ht j => ih j t ht) i
    refine ⟨hcut.suffix hread, ?_⟩
    rintro t x rfl rfl hx
    rw [recursive_eq]
    have hlength : (t ++ y).length - y.length = t.length := by simp
    rw [hlength] at hcut
    exact hcut.read hread hx
  exact ⟨fun hread => (hall i _ _ _ hread).1,
    fun hread hx => (hall i _ _ _ hread).2 _ _ rfl rfl hx⟩

end CorpusCost.Parser
