import Mathlib.Data.List.Forall2
import CorpusCost.Proofs.ReadBack

/-!
# Readers with and without a limit on nesting

A construct is read twice, side by side: at a nesting that may be limited and at one that is not.
Up to the place where the limit ends the first reading, both answer the same. At that place the text
that was passed over holds an opening sign for each level that was still free, and one more. What
ends reading for good stays the answer of whatever the construct stands in, so each way of putting
readers together keeps the two readings side by side.
-/

set_option autoImplicit false

namespace CorpusCost.Parser

variable {α β γ : Type} {nesting free : Nesting}

/-- A sign after which nesting is counted. -/
def isOpener (c : Char) : Bool := c == '(' || c == '!'

/-- What a reading of `s` at `nesting` has in common with a reading that no limit ends. -/
inductive Guards (nesting : Nesting) (s : List Char) : Outcome α → Outcome α → Prop where
  /-- Both read the same value and leave the same end of the text. -/
  | read (a : α) {rest : List Char} (hrest : rest <:+ s) :
      Guards nesting s (.read a rest) (.read a rest)
  /-- Neither applies. -/
  | miss : Guards nesting s .miss .miss
  /-- The limit ended the first one, behind more opening signs than there was room for. -/
  | tooDeep {limit : Nat} {before rest : List Char} (o : Outcome α)
      (hlimit : nesting.limit = some limit) (hs : before ++ rest = s)
      (hdeep : limit < nesting.depth + before.countP isOpener) :
      Guards nesting s (.tooDeep rest) o

/-- A reading that goes on behind `before` is guarded from there on, at a nesting that grew by no
more than the opening signs in `before`. -/
theorem Guards.behind {inner : Nesting} {before t s : List Char} {o o' : Outcome α}
    (h : Guards inner t o o') (hs : before ++ t = s) (hlimit : inner.limit = nesting.limit)
    (hdepth : inner.depth ≤ nesting.depth + before.countP isOpener) : Guards nesting s o o' := by
  subst hs
  cases h with
  | read a hrest => exact .read a (hrest.trans (List.suffix_append before t))
  | miss => exact .miss
  | @tooDeep limit passed rest _ hinner ht hdeep =>
    subst ht
    refine .tooDeep _ (hlimit ▸ hinner) (List.append_assoc before passed rest) ?_
    rw [List.countP_append]
    omega

theorem Guards.of_suffix {t s : List Char} {o o' : Outcome α} (h : Guards nesting t o o')
    (ht : t <:+ s) : Guards nesting s o o' := by
  obtain ⟨before, hs⟩ := ht
  exact h.behind hs rfl (Nat.le_add_right _ _)

/-- Where the limit does not end the guarded reading, the two are the same. -/
theorem Guards.eq {s : List Char} {o o' : Outcome α} (h : Guards nesting s o o')
    (hne : ∀ rest, o ≠ .tooDeep rest) : o = o' := by
  cases h with
  | read a hrest => rfl
  | miss => rfl
  | tooDeep o hlimit hs hdeep => exact absurd rfl (hne _)

/-- Where it does, more opening signs were passed over than there was room for. -/
theorem Guards.exists_before {s rest : List Char} {o' : Outcome α}
    (h : Guards nesting s (.tooDeep rest) o') : ∃ limit before, nesting.limit = some limit ∧
      before ++ rest = s ∧ limit < nesting.depth + before.countP isOpener := by
  cases h with
  | tooDeep o hlimit hs hdeep => exact ⟨_, _, hlimit, hs, hdeep⟩

/-- On every text the reading of `p` at `nesting` is guarded by that of `q`. -/
def Guarded (nesting : Nesting) (p q : Parser α) : Prop := ∀ s, Guards nesting s (p s) (q s)

/-- What is read at a limited nesting is guarded by what is read at one without a limit. -/
def Transparent (p : Nesting → Parser α) : Prop :=
  ∀ ⦃nesting free : Nesting⦄, free.limit = none → Guarded nesting (p nesting) (p free)

theorem Transparent.deeper {p : Nesting → Parser α} (h : Transparent p) (nesting : Nesting)
    (hfree : free.limit = none) : Guarded nesting.deeper (p nesting.deeper) (p free.deeper) :=
  h hfree

/-! ## Putting readers together -/

section

variable {p q p' q' : Parser α} {f g : α → Parser β}

theorem guarded_pure (a : α) : Guarded nesting (pure a : Parser α) (pure a) := by
  intro s
  exact .read a (List.suffix_refl s)

theorem guarded_never : Guarded nesting (never : Parser α) never := by
  intro s
  exact .miss

theorem Guarded.bind (h : Guarded nesting p q) (hf : ∀ a, Guarded nesting (f a) (g a)) :
    Guarded nesting (p >>= f) (q >>= g) := by
  intro s
  have hs := h s
  rw [bind_apply, bind_apply]
  unfold andThen
  generalize p s = o at hs ⊢
  generalize q s = o' at hs ⊢
  cases hs with
  | read a hrest => exact (hf a _).of_suffix hrest
  | miss => exact .miss
  | tooDeep o hlimit hs hdeep => exact .tooDeep _ hlimit hs hdeep

theorem Guarded.map (f : α → β) (h : Guarded nesting p q) : Guarded nesting (f <$> p) (f <$> q) :=
  h.bind fun a => guarded_pure (f a)

theorem Guarded.orElse (h : Guarded nesting p q) (h' : Guarded nesting p' q') :
    Guarded nesting (p <|> p') (q <|> q') := by
  intro s
  have hs := h s
  change Guards nesting s (Parser.orElse p p' s) (Parser.orElse q q' s)
  unfold Parser.orElse
  generalize p s = o at hs ⊢
  generalize q s = o' at hs ⊢
  cases hs with
  | read a hrest => exact .read a hrest
  | miss => exact h' s
  | tooDeep o hlimit hs hdeep => exact .tooDeep _ hlimit hs hdeep

theorem guarded_firstOf {ps qs : List (Parser α)} (h : List.Forall₂ (Guarded nesting) ps qs) :
    Guarded nesting (firstOf ps) (firstOf qs) := by
  induction h with
  | nil => exact guarded_never
  | cons hfirst hothers ih =>
    cases hothers with
    | nil => exact hfirst
    | cons => exact hfirst.orElse ih

theorem Guarded.optional (h : Guarded nesting p q) :
    Guarded nesting (optional p) (optional q) := by
  intro s
  have hs := h s
  unfold Parser.optional
  generalize p s = o at hs ⊢
  generalize q s = o' at hs ⊢
  cases hs with
  | read a hrest => exact .read _ hrest
  | miss => exact .read _ (List.suffix_refl s)
  | tooDeep o hlimit hs hdeep => exact .tooDeep _ hlimit hs hdeep

theorem Guarded.present (h : Guarded nesting p q) : Guarded nesting (present p) (present q) :=
  h.optional.map _

theorem Guarded.absent (h : Guarded nesting p q) : Guarded nesting (absent p) (absent q) := by
  intro s
  have hs := h s
  unfold Parser.absent
  generalize p s = o at hs ⊢
  generalize q s = o' at hs ⊢
  cases hs with
  | read a hrest => exact .miss
  | miss => exact .read _ (List.suffix_refl s)
  | tooDeep o hlimit hs hdeep => exact .tooDeep _ hlimit hs hdeep

/-- Both rows go on or end together, since both leave the same of the text after each item. -/
theorem Guarded.many (h : Guarded nesting p q) : Guarded nesting (many p) (many q) := by
  intro s
  induction hn : s.length using Nat.strongRecOn generalizing s with
  | ind n ih =>
    subst hn
    have hs := h s
    rw [Parser.many, Parser.many]
    generalize p s = o at hs ⊢
    generalize q s = o' at hs ⊢
    cases hs with
    | miss => exact .read _ (List.suffix_refl s)
    | tooDeep o hlimit hs hdeep => exact .tooDeep _ hlimit hs hdeep
    | @read a rest hrest =>
      dsimp only
      by_cases hlt : rest.length < s.length
      · rw [if_pos hlt, if_pos hlt]
        have hmore := (ih rest.length hlt rest rfl).of_suffix hrest
        generalize Parser.many p rest = more at hmore ⊢
        generalize Parser.many q rest = more' at hmore ⊢
        cases hmore with
        | read as hlast => exact .read _ hlast
        | miss => exact .miss
        | tooDeep o hlimit hs hdeep => exact .tooDeep _ hlimit hs hdeep
      · rw [if_neg hlt, if_neg hlt]
        exact .read _ (List.suffix_refl s)

theorem Guarded.many1 (h : Guarded nesting p q) : Guarded nesting (many1 p) (many1 q) :=
  h.bind fun _ => h.many.bind fun _ => guarded_pure _

theorem Guarded.sepBy1 {sep sep' : Parser β} (hsep : Guarded nesting sep sep')
    (h : Guarded nesting p q) : Guarded nesting (sepBy1 sep p) (sepBy1 sep' q) :=
  h.bind fun _ => (hsep.bind fun _ => h).many.bind fun _ => guarded_pure _

theorem Guarded.between {opening opening' : Parser β} {closing closing' : Parser γ}
    (hopen : Guarded nesting opening opening') (hclose : Guarded nesting closing closing')
    (h : Guarded nesting p q) :
    Guarded nesting (between opening closing p) (between opening' closing' q) :=
  hopen.bind fun _ => h.bind fun a => hclose.bind fun _ => guarded_pure a

end

/-- A grammar is transparent when its body is, whatever transparent reader stands for the constructs
inside. -/
theorem transparent_recursive {body : (Nesting → Parser α) → Nesting → Parser α}
    (hbody : ∀ p, Transparent p → Transparent (body p)) : Transparent (recursive body) := by
  intro nesting free hfree s
  refine recursive_induction (P := fun nesting s o => ∀ free : Nesting, free.limit = none →
    Guards nesting s o (recursive body free s)) ?_ nesting s free hfree
  intro nesting s ih free hfree
  rw [recursive_eq]
  -- Inside the body both readings refer to the grammar for the same, shorter texts.
  refine hbody _ ?_ hfree s
  intro inner other hother t
  change Guards inner t (shorter _ (recursive body inner) t) (shorter _ (recursive body other) t)
  unfold shorter
  split
  · next hlt => exact ih inner t hlt other hother
  · exact .miss

/-! ## Nesting -/

/-- Without a limit, what stands inside a bracket is read as if it were not guarded. -/
theorem nested_of_free (hfree : free.limit = none) (p : Nesting → Parser α) :
    nested free p = p free.deeper := by
  funext s
  simp [nested, Nesting.full, hfree]

/-- The guard ends reading where as many brackets are open as may be, and counts the one before it
otherwise. -/
theorem guarded_nested {p q : Nesting → Parser α} (hfree : free.limit = none)
    (h : Guarded nesting.deeper (p nesting.deeper) (q free.deeper)) :
    Guarded nesting.deeper (nested nesting p) (nested free q) := by
  intro s
  rw [nested_of_free hfree]
  unfold nested
  split
  · next hfull =>
    cases hlimit : nesting.limit with
    | none => simp [Nesting.full, hlimit] at hfull
    | some limit =>
      -- The bracket before this place is counted in `nesting.deeper`, so none is missing.
      have hdepth : limit ≤ nesting.depth := by simpa [Nesting.full, hlimit] using hfull
      exact .tooDeep _ hlimit (List.nil_append s) (Nat.lt_add_one_of_le hdepth)
  · exact h s

/-- Whether all that `p` reads holds an opening sign. -/
def Opens (p : Parser α) : Prop :=
  ∀ s, p s = .miss ∨
    ∃ a before rest, before ++ rest = s ∧ 0 < before.countP isOpener ∧ p s = .read a rest

theorem opens_char {c : Char} (hc : isOpener c = true) : Opens (char c) := by
  intro s
  by_cases hhead : s.head? = some c
  · obtain ⟨rest, rfl⟩ := List.head?_eq_some_iff.mp hhead
    exact .inr ⟨c, [c], rest, rfl, by simp [hc], char_cons c rest⟩
  · exact .inl (char_eq_miss.mpr hhead)

/-- Blanks may stand behind the opening sign. -/
theorem Opens.blanks {p : Parser α} (h : Opens p) :
    Opens (do let _ ← p; blanks) := by
  intro s
  rcases h s with hmiss | ⟨a, before, rest, hs, hcount, hread⟩
  · exact .inl (bind_of_miss hmiss _)
  · obtain ⟨skipped, hskipped⟩ := List.dropWhile_suffix (l := rest) isBlank
    refine .inr ⟨(), before ++ skipped, rest.dropWhile isBlank, ?_, ?_, bind_of_read hread _⟩
    · rw [List.append_assoc, hskipped, hs]
    · rw [List.countP_append]
      omega

/-- Behind an opening sign, what is guarded one bracket deeper is guarded here. -/
theorem Opens.bind {p : Parser α} {f g : α → Parser β} (h : Opens p)
    (hf : ∀ a, Guarded nesting.deeper (f a) (g a)) : Guarded nesting (p >>= f) (p >>= g) := by
  intro s
  rcases h s with hmiss | ⟨a, before, rest, hs, hcount, hread⟩
  · rw [bind_of_miss hmiss, bind_of_miss hmiss]
    exact .miss
  · rw [bind_of_read hread, bind_of_read hread]
    refine (hf a rest).behind hs rfl ?_
    change nesting.depth + 1 ≤ _
    omega

/-- A construct in brackets is guarded where what it holds is guarded one bracket deeper. -/
theorem Opens.between {opening : Parser β} {closing : Parser γ} {p q : Parser α}
    (h : Opens opening) (hclose : Guarded nesting.deeper closing closing)
    (hinner : Guarded nesting.deeper p q) :
    Guarded nesting (between opening closing p) (between opening closing q) :=
  h.bind fun _ => hinner.bind fun a => hclose.bind fun _ => guarded_pure a

/-! ## Words -/

theorem guarded_satisfy (test : Char → Bool) : Guarded nesting (satisfy test) (satisfy test) := by
  intro s
  cases s with
  | nil => exact .miss
  | cons c s =>
    rw [satisfy_cons]
    split
    · exact .read c (List.suffix_cons c s)
    · exact .miss

theorem guarded_char (c : Char) : Guarded nesting (char c) (char c) := guarded_satisfy _

theorem guarded_chars (word : List Char) : Guarded nesting (chars word) (chars word) := by
  intro s
  induction word generalizing s with
  | nil => exact .read () (List.suffix_refl s)
  | cons w word ih =>
    cases s with
    | nil => exact .miss
    | cons c s =>
      rw [chars]
      split
      · exact (ih s).of_suffix (List.suffix_cons c s)
      · exact .miss

theorem guarded_text (word : String) : Guarded nesting (text word) (text word) :=
  guarded_chars word.toList

theorem guarded_takeWhile (test : Char → Bool) :
    Guarded nesting (takeWhile test) (takeWhile test) := by
  intro s
  exact .read _ (List.dropWhile_suffix test)

theorem guarded_takeWhile1 (test : Char → Bool) :
    Guarded nesting (takeWhile1 test) (takeWhile1 test) :=
  (guarded_satisfy test).bind fun _ => (guarded_takeWhile test).bind fun _ => guarded_pure _

theorem guarded_blanks : Guarded nesting blanks blanks := by
  intro s
  exact .read () (List.dropWhile_suffix isBlank)

section

variable {p q : Parser α}

theorem Guarded.afterBlanks (h : Guarded nesting p q) :
    Guarded nesting (afterBlanks p) (afterBlanks q) :=
  guarded_blanks.bind fun _ => h

theorem Guarded.spaced (h : Guarded nesting p q) : Guarded nesting (spaced p) (spaced q) :=
  guarded_blanks.between guarded_blanks h

theorem Guarded.parenthesized (h : Guarded nesting p q) :
    Guarded nesting (parenthesized p) (parenthesized q) :=
  (guarded_char '(').spaced.between (guarded_char ')').afterBlanks h

end

theorem guarded_comma : Guarded nesting comma comma := (guarded_char ',').spaced

theorem guarded_name : Guarded nesting name name :=
  (guarded_satisfy _).bind fun _ => (guarded_takeWhile _).bind fun _ => guarded_pure _

theorem guarded_keyword (word : String) : Guarded nesting (keyword word) (keyword word) :=
  (guarded_text word).bind fun _ => (guarded_satisfy _).absent

theorem guarded_numberUpTo (max : Nat) : Guarded nesting (numberUpTo max) (numberUpTo max) := by
  refine (guarded_takeWhile1 _).bind fun digits => ?_
  split
  · exact guarded_pure _
  · exact guarded_never

theorem guarded_number : Guarded nesting number number := guarded_numberUpTo _

theorem guarded_signed : Guarded nesting signed signed := by
  refine (guarded_satisfy _).optional.bind fun sign => ?_
  split
  · exact (guarded_numberUpTo _).bind fun _ => guarded_pure _
  · exact (guarded_numberUpTo _).bind fun _ => guarded_pure _

theorem guarded_bounds : Guarded nesting bounds bounds := by
  refine (guarded_char _).between (guarded_char _) (Guarded.orElse ?_ ?_)
  · exact guarded_number.bind fun _ => (guarded_char ',').bind fun _ =>
      guarded_number.optional.bind fun _ => guarded_pure _
  · exact guarded_number.bind fun _ => guarded_pure _

theorem guarded_bang : Guarded nesting bang bang :=
  ((guarded_char '!').bind fun _ => guarded_blanks).present

end CorpusCost.Parser
