import CorpusCost.Proofs.ReadBack

/-!
# Readers that answer alike

Two texts may differ in something that a reader does not see. For a relation `R` between such
texts, two readers are paired when on related texts they read the same value and leave related
texts, or both miss, or both end reading for good; a reader is steady when it is paired with
itself. Each way of putting readers together keeps pairs. Repetitions and grammars that refer to
themselves measure what is left, and keep them where related texts shrink alike.
-/

set_option autoImplicit false

namespace CorpusCost.Parser

variable {α β γ ι : Type} {R : List Char → List Char → Prop}

/-- The two readings agree, and what they leave is related by `R`. -/
def Alike (R : List Char → List Char → Prop) : Outcome α → Outcome α → Prop
  | .read a r, .read a' r' => a = a' ∧ R r r'
  | .miss, .miss => True
  | .tooDeep _, .tooDeep _ => True
  | _, _ => False

theorem Alike.read_left {o' : Outcome α} {a : α} {r : List Char} (h : Alike R (.read a r) o') :
    ∃ r', o' = .read a r' ∧ R r r' := by
  cases o' with
  | read a' r' => exact ⟨r', by rw [h.1], h.2⟩
  | miss => exact absurd h id
  | tooDeep r' => exact absurd h id

theorem Alike.miss_left {o' : Outcome α} (h : Alike R .miss o') : o' = .miss := by
  cases o' with
  | read a' r' => exact absurd h id
  | miss => rfl
  | tooDeep r' => exact absurd h id

theorem Alike.tooDeep_left {o' : Outcome α} {r : List Char} (h : Alike R (.tooDeep r) o') :
    ∃ r', o' = .tooDeep r' := by
  cases o' with
  | read a' r' => exact absurd h id
  | miss => exact absurd h id
  | tooDeep r' => exact ⟨r', rfl⟩

/-- On related texts the two readers answer alike. -/
def Paired (R : List Char → List Char → Prop) (p q : Parser α) : Prop :=
  ∀ u u', R u u' → Alike R (p u) (q u')

/-- The reader cannot tell related texts apart. -/
abbrev Steady (R : List Char → List Char → Prop) (p : Parser α) : Prop := Paired R p p

variable {p q : Parser α}

theorem Paired.miss (h : Paired R p q) {u u' : List Char} (hR : R u u') (hu : p u = .miss) :
    q u' = .miss := by
  have halike := h u u' hR
  rw [hu] at halike
  exact halike.miss_left

theorem steady_pure (a : α) : Steady R (pure a : Parser α) := by
  intro u u' h
  exact ⟨rfl, h⟩

theorem steady_never : Steady R (never : Parser α) := by
  intro u u' _
  trivial

/-! ## Putting readers together -/

theorem Alike.bind_of {S : List Char → List Char → Prop} {f g : α → Parser β} {u u' : List Char}
    (h : Alike S (p u) (q u')) (hf : ∀ a v v', S v v' → Alike R (f a v) (g a v')) :
    Alike R ((p >>= f) u) ((q >>= g) u') := by
  cases hu : p u with
  | read a r =>
    rw [hu] at h
    obtain ⟨r', hu', hr⟩ := h.read_left
    rw [bind_of_read hu, bind_of_read hu']
    exact hf a r r' hr
  | miss =>
    rw [hu] at h
    rw [bind_of_miss hu, bind_of_miss h.miss_left]
    trivial
  | tooDeep r =>
    rw [hu] at h
    obtain ⟨r', hu'⟩ := h.tooDeep_left
    rw [bind_of_tooDeep hu, bind_of_tooDeep hu']
    trivial

theorem Alike.bind {f g : α → Parser β} {u u' : List Char} (h : Alike R (p u) (q u'))
    (hf : ∀ a, Paired R (f a) (g a)) : Alike R ((p >>= f) u) ((q >>= g) u') :=
  h.bind_of hf

theorem Paired.bind {f g : α → Parser β} (h : Paired R p q) (hf : ∀ a, Paired R (f a) (g a)) :
    Paired R (p >>= f) (q >>= g) := by
  intro u u' hR
  exact (h u u' hR).bind hf

theorem Paired.map (f : α → β) (h : Paired R p q) : Paired R (f <$> p) (f <$> q) :=
  h.bind fun a => steady_pure (f a)

theorem Paired.erased (h : Paired R p q) : Paired R (erased p) (erased q) :=
  h.map fun _ => ()

theorem Paired.orElse {p' q' : Parser α} (h : Paired R p q) (h' : Paired R p' q') :
    Paired R (p <|> p') (q <|> q') := by
  intro u u' hR
  have halike := h u u' hR
  cases hu : p u with
  | read a r =>
    rw [hu] at halike
    obtain ⟨r', hu', hr⟩ := halike.read_left
    rw [orElse_of_read hu, orElse_of_read hu']
    exact ⟨rfl, hr⟩
  | miss =>
    rw [hu] at halike
    rw [orElse_of_miss hu, orElse_of_miss halike.miss_left]
    exact h' u u' hR
  | tooDeep r =>
    rw [hu] at halike
    obtain ⟨r', hu'⟩ := halike.tooDeep_left
    rw [orElse_of_tooDeep hu, orElse_of_tooDeep hu']
    trivial

theorem Paired.optional (h : Paired R p q) : Paired R (optional p) (optional q) := by
  intro u u' hR
  have halike := h u u' hR
  unfold Parser.optional
  cases hu : p u with
  | read a r =>
    rw [hu] at halike
    obtain ⟨r', hu', hr⟩ := halike.read_left
    rw [hu']
    exact ⟨rfl, hr⟩
  | miss =>
    rw [hu] at halike
    rw [halike.miss_left]
    exact ⟨rfl, hR⟩
  | tooDeep r =>
    rw [hu] at halike
    obtain ⟨r', hu'⟩ := halike.tooDeep_left
    rw [hu']
    trivial

theorem Paired.present (h : Paired R p q) : Paired R (present p) (present q) :=
  h.optional.map _

theorem Paired.absent (h : Paired R p q) : Paired R (absent p) (absent q) := by
  intro u u' hR
  have halike := h u u' hR
  unfold Parser.absent
  cases hu : p u with
  | read a r =>
    rw [hu] at halike
    obtain ⟨r', hu', -⟩ := halike.read_left
    rw [hu']
    trivial
  | miss =>
    rw [hu] at halike
    rw [halike.miss_left]
    exact ⟨rfl, hR⟩
  | tooDeep r =>
    rw [hu] at halike
    obtain ⟨r', hu'⟩ := halike.tooDeep_left
    rw [hu']
    trivial

theorem Paired.between {opening opening' : Parser β} {closing closing' : Parser γ}
    (hopen : Paired R opening opening') (hclose : Paired R closing closing')
    (h : Paired R p q) :
    Paired R (between opening closing p) (between opening' closing' q) :=
  hopen.bind fun _ => h.bind fun a => hclose.bind fun _ => steady_pure a

theorem Paired.nested {p q : Nesting → Parser α} (h : ∀ nesting, Paired R (p nesting) (q nesting))
    (nesting : Nesting) : Paired R (nested nesting p) (nested nesting q) := by
  intro u u' hR
  unfold Parser.nested
  split
  · trivial
  · exact h _ u u' hR

/-! ## Characters -/

/-- A word of characters each of which is read steadily is read steadily. -/
theorem steady_chars {word : List Char} (h : ∀ c ∈ word, Steady R (char c)) :
    Steady R (chars word) := by
  induction word with
  | nil =>
    intro u u' hu
    exact ⟨rfl, hu⟩
  | cons w word ih =>
    have hchars : chars (w :: word) = (char w >>= fun _ => chars word) := by
      funext s
      cases s with
      | nil => rfl
      | cons c s =>
        rw [chars]
        split
        · next hc =>
          subst hc
          rw [bind_of_read (char_cons c s)]
        · next hc =>
          rw [bind_of_miss (char_eq_miss.mpr (by simpa using hc))]
    rw [hchars]
    exact (h w (by simp)).bind fun _ => ih fun c hc => h c (by simp [hc])

/-- A number is read steadily when its digits are. -/
theorem steady_number (h : Steady R (takeWhile1 Char.isDigit)) : Steady R number := by
  refine h.bind fun digits => ?_
  split
  · exact steady_pure _
  · exact steady_never

/-! ## Repetitions and recursion -/

theorem Paired.many_of (h : Paired R p q)
    (hR : ∀ u u' v v' a, R u u' → R v v' → p u = .read a v → q u' = .read a v' →
      (v.length < u.length ↔ v'.length < u'.length)) : Paired R (many p) (many q) := by
  intro u
  induction hn : u.length using Nat.strongRecOn generalizing u with
  | ind n ih =>
    subst hn
    intro u' hu
    have halike := h u u' hu
    rw [Parser.many, Parser.many]
    cases hp : p u with
    | read a v =>
      rw [hp] at halike
      obtain ⟨v', hq, hv⟩ := halike.read_left
      have hshrinks := hR u u' v v' a hu hv hp hq
      rw [hq]
      dsimp only
      by_cases hlt : v.length < u.length
      · have hmore := ih v.length hlt v rfl v' hv
        rw [if_pos hlt, if_pos (hshrinks.mp hlt)]
        cases hrest : Parser.many p v with
        | read as r =>
          rw [hrest] at hmore
          obtain ⟨r', hrest', hr⟩ := hmore.read_left
          rw [hrest']
          exact ⟨rfl, hr⟩
        | miss => exact absurd hrest (many_ne_miss p v)
        | tooDeep r =>
          rw [hrest] at hmore
          obtain ⟨r', hrest'⟩ := hmore.tooDeep_left
          rw [hrest']
          trivial
      · rw [if_neg hlt, if_neg (fun hlt' => hlt (hshrinks.mpr hlt'))]
        exact ⟨rfl, hu⟩
    | miss =>
      rw [hp] at halike
      rw [halike.miss_left]
      exact ⟨rfl, hu⟩
    | tooDeep r =>
      rw [hp] at halike
      obtain ⟨r', hq⟩ := halike.tooDeep_left
      rw [hq]
      trivial

/-- A grammar is steady when its body is paired with the grammar itself for the constructs inside,
on texts that shrink alike or of which it reads nothing. -/
theorem steady_recursive_of {body : (ι → Parser α) → ι → Parser α}
    (hR : ∀ i u u', R u u' →
      (∀ v v', R v v' → (v.length < u.length ↔ v'.length < u'.length)) ∨
        recursive body i u = .miss ∧ recursive body i u' = .miss)
    (hbody : ∀ n n',
      (∀ j, Paired R (shorter n (recursive body j)) (shorter n' (recursive body j))) →
      ∀ i, Paired R (body (fun j => shorter n (recursive body j)) i)
        (body (fun j => shorter n' (recursive body j)) i))
    (i : ι) : Steady R (recursive body i) := by
  intro u
  refine recursive_induction (P := fun i u o => ∀ u', R u u' → Alike R o (recursive body i u'))
    ?_ i u
  intro i u ih u' hu
  rcases hR i u u' hu with hshrinks | ⟨hmiss, hmiss'⟩
  · rw [recursive_eq]
    refine hbody u.length u'.length ?_ i u u' hu
    intro j v v' hv
    by_cases hlt : v.length < u.length
    · rw [shorter, if_pos hlt, shorter, if_pos ((hshrinks v v' hv).mp hlt)]
      exact ih j v hlt v' hv
    · rw [shorter, if_neg hlt, shorter, if_neg fun hlt' => hlt ((hshrinks v v' hv).mpr hlt')]
      trivial
  · rw [← recursive_eq body, hmiss, hmiss']
    trivial

/-- Related texts shrink alike: what is left of them is shorter for both or for neither. -/
def ShrinksAlike (R : List Char → List Char → Prop) : Prop :=
  ∀ u u' v v', R u u' → R v v' → (v.length < u.length ↔ v'.length < u'.length)

theorem Paired.many (hR : ShrinksAlike R) (h : Paired R p q) : Paired R (many p) (many q) :=
  h.many_of fun u u' v v' _ hu hv _ _ => hR u u' v v' hu hv

theorem Paired.many1 (hR : ShrinksAlike R) (h : Paired R p q) :
    Paired R (many1 p) (many1 q) :=
  h.bind fun _ => (h.many hR).bind fun _ => steady_pure _

theorem Paired.sepBy1 {sep sep' : Parser β} (hR : ShrinksAlike R) (hsep : Paired R sep sep')
    (h : Paired R p q) : Paired R (sepBy1 sep p) (sepBy1 sep' q) :=
  h.bind fun _ => ((hsep.bind fun _ => h).many hR).bind fun _ => steady_pure _

/-- A grammar is steady when its body is paired whatever paired readers stand for the constructs
inside. -/
theorem steady_recursive {body : (ι → Parser α) → ι → Parser α} (hR : ShrinksAlike R)
    (hbody : ∀ p q : ι → Parser α, (∀ j, Paired R (p j) (q j)) →
      ∀ i, Paired R (body p i) (body q i))
    (i : ι) : Steady R (recursive body i) :=
  steady_recursive_of (fun _ u u' hu => .inl fun v v' hv => hR u u' v v' hu hv)
    (fun _ _ h => hbody _ _ h) i

end CorpusCost.Parser
