import CorpusCost.Parser.Lexeme

/-!
# Laws of readers

What it means that a reader reads a value, and where a reader misses, one law for each way of
putting readers together. The laws are equivalences: from left to right they take a reading apart,
from right to left they put one together.
-/

set_option autoImplicit false

namespace CorpusCost

variable {α β γ : Type}

/-- What was read, with its value changed. -/
def Outcome.map (f : α → β) : Outcome α → Outcome β
  | .read a rest => .read (f a) rest
  | .miss => .miss
  | .tooDeep rest => .tooDeep rest

theorem Outcome.map_eq_read {f : α → β} {o : Outcome α} {b : β} {rest : List Char} :
    o.map f = .read b rest ↔ ∃ a, f a = b ∧ o = .read a rest := by
  cases o with
  | read a last => simp [Outcome.map, and_left_comm]
  | miss => simp [Outcome.map]
  | tooDeep last => simp [Outcome.map]

theorem Outcome.map_eq_miss {f : α → β} {o : Outcome α} : o.map f = .miss ↔ o = .miss := by
  cases o <;> simp [Outcome.map]

/-- What was read, without its value. -/
def Outcome.erased (o : Outcome α) : Outcome Unit := o.map fun _ => ()

namespace Parser

/-! ## Putting readers together -/

@[simp] theorem pure_eq_read {a b : α} {s rest : List Char} :
    (pure a : Parser α) s = .read b rest ↔ a = b ∧ s = rest := by
  simp

theorem bind_eq_read {p : Parser α} {f : α → Parser β} {s rest : List Char} {b : β} :
    (p >>= f) s = .read b rest ↔ ∃ a mid, p s = .read a mid ∧ f a mid = .read b rest := by
  rw [bind_apply, andThen]
  cases p s with
  | read a mid => simp [and_assoc]
  | miss => simp
  | tooDeep mid => simp

theorem bind_eq_miss {p : Parser α} {f : α → Parser β} {s : List Char} :
    (p >>= f) s = .miss ↔ p s = .miss ∨ ∃ a mid, p s = .read a mid ∧ f a mid = .miss := by
  rw [bind_apply, andThen]
  cases p s with
  | read a mid => simp [and_assoc]
  | miss => simp
  | tooDeep mid => simp

theorem map_apply (f : α → β) (p : Parser α) (s : List Char) : (f <$> p) s = (p s).map f := by
  change (p >>= fun a => pure (f a)) s = _
  rw [bind_apply, andThen]
  cases p s <;> rfl

theorem map_eq_read {p : Parser α} {f : α → β} {s rest : List Char} {b : β} :
    (f <$> p) s = .read b rest ↔ ∃ a, f a = b ∧ p s = .read a rest := by
  rw [map_apply, Outcome.map_eq_read]

theorem map_eq_miss {p : Parser α} {f : α → β} {s : List Char} :
    (f <$> p) s = .miss ↔ p s = .miss := by
  rw [map_apply, Outcome.map_eq_miss]

/-- The reader without its values. -/
def erased (p : Parser α) : Parser Unit := fun s => (p s).erased

theorem erased_apply (p : Parser α) (s : List Char) : erased p s = (p s).erased := rfl

theorem erased_bind {p : Parser α} {f : α → Parser β} {g : Parser Unit}
    (hf : ∀ a, erased (f a) = g) (s : List Char) :
    ((p >>= f) s).erased = (erased p >>= fun _ => g) s := by
  cases hp : p s with
  | read a mid =>
    have herased : erased p s = .read () mid := by rw [erased_apply, hp]; rfl
    rw [bind_of_read hp, bind_of_read herased, ← hf a, erased_apply]
  | miss =>
    have herased : erased p s = .miss := by rw [erased_apply, hp]; rfl
    rw [bind_of_miss hp, bind_of_miss herased]
    rfl
  | tooDeep rest =>
    have herased : erased p s = .tooDeep rest := by rw [erased_apply, hp]; rfl
    rw [bind_of_tooDeep hp, bind_of_tooDeep herased]
    rfl

theorem orElse_eq_read {p q : Parser α} {s rest : List Char} {a : α} :
    (p <|> q) s = .read a rest ↔
      p s = .read a rest ∨ p s = .miss ∧ q s = .read a rest := by
  change orElse p q s = _ ↔ _
  rw [orElse]
  cases p s <;> simp

theorem orElse_eq_miss {p q : Parser α} {s : List Char} :
    (p <|> q) s = .miss ↔ p s = .miss ∧ q s = .miss := by
  change orElse p q s = _ ↔ _
  rw [orElse]
  cases p s <;> simp

theorem optional_eq_read {p : Parser α} {s rest : List Char} {o : Option α} :
    optional p s = .read o rest ↔
      (∃ a, o = some a ∧ p s = .read a rest) ∨ o = none ∧ p s = .miss ∧ s = rest := by
  rw [optional]
  cases p s with
  | read a mid => simp [eq_comm, and_left_comm]
  | miss => simp [eq_comm]
  | tooDeep mid => simp

@[simp] theorem optional_ne_miss (p : Parser α) (s : List Char) : optional p s ≠ .miss := by
  rw [optional]
  cases p s <;> simp

theorem present_eq_read {p : Parser α} {s rest : List Char} {b : Bool} :
    present p s = .read b rest ↔
      (b = true ∧ ∃ a, p s = .read a rest) ∨ b = false ∧ p s = .miss ∧ s = rest := by
  rw [present, map_eq_read]
  constructor
  · rintro ⟨o, rfl, hread⟩
    rcases optional_eq_read.mp hread with ⟨a, rfl, hp⟩ | ⟨rfl, hp, hs⟩
    · exact .inl ⟨rfl, a, hp⟩
    · exact .inr ⟨rfl, hp, hs⟩
  · rintro (⟨rfl, a, hp⟩ | ⟨rfl, hp, hs⟩)
    · exact ⟨some a, rfl, optional_eq_read.mpr (.inl ⟨a, rfl, hp⟩)⟩
    · exact ⟨none, rfl, optional_eq_read.mpr (.inr ⟨rfl, hp, hs⟩)⟩

theorem absent_eq_read {p : Parser α} {s rest : List Char} {u : Unit} :
    absent p s = .read u rest ↔ p s = .miss ∧ s = rest := by
  rw [absent]
  cases p s <;> simp

theorem absent_eq_miss {p : Parser α} {s : List Char} :
    absent p s = .miss ↔ ∃ a rest, p s = .read a rest := by
  rw [absent]
  cases p s <;> simp

theorem between_eq_read {opening : Parser β} {closing : Parser γ} {p : Parser α}
    {s rest : List Char} {a : α} :
    between opening closing p s = .read a rest ↔
      ∃ x inside y after, opening s = .read x inside ∧ p inside = .read a after ∧
        closing after = .read y rest := by
  rw [between]
  simp only [bind_eq_read, pure_eq_read]
  constructor
  · rintro ⟨x, inside, hopen, b, after, hp, y, mid, hclose, rfl, rfl⟩
    exact ⟨x, inside, y, after, hopen, hp, hclose⟩
  · rintro ⟨x, inside, y, after, hopen, hp, hclose⟩
    exact ⟨x, inside, hopen, a, after, hp, y, rest, hclose, rfl, rfl⟩

theorem between_eq_miss {opening : Parser β} {closing : Parser γ} {p : Parser α}
    {s : List Char} :
    between opening closing p s = .miss ↔
      opening s = .miss ∨ ∃ x inside, opening s = .read x inside ∧
        (p inside = .miss ∨ ∃ a after, p inside = .read a after ∧ closing after = .miss) := by
  rw [between]
  simp [bind_eq_miss]

theorem nested_eq_read {nesting : Nesting} {p : Nesting → Parser α} {s rest : List Char} {a : α} :
    nested nesting p s = .read a rest ↔
      nesting.full = false ∧ p nesting.deeper s = .read a rest := by
  rw [nested]
  cases nesting.full <;> simp

theorem nested_eq_miss {nesting : Nesting} {p : Nesting → Parser α} {s : List Char} :
    nested nesting p s = .miss ↔ nesting.full = false ∧ p nesting.deeper s = .miss := by
  rw [nested]
  cases nesting.full <;> simp

/-! ## What holds of all readings

A relation between a text, the value read from it and what is left. Whatever is known of the readings
of the parts is handed on by the ways of putting readers together that add nothing to a text. -/

/-- Whether `R` holds of every reading of a reader. -/
def Reads (R : List Char → α → List Char → Prop) (p : Parser α) : Prop :=
  ∀ s a rest, p s = .read a rest → R s a rest

section

variable {R : List Char → α → List Char → Prop}

theorem reads_map {S : List Char → β → List Char → Prop} {p : Parser α} {f : α → β}
    (h : Reads (fun s a => S s (f a)) p) : Reads S (f <$> p) := by
  intro s b rest hread
  obtain ⟨a, rfl, hinner⟩ := map_eq_read.mp hread
  exact h s a rest hinner

theorem reads_orElse {p q : Parser α} (hp : Reads R p) (hq : Reads R q) : Reads R (p <|> q) := by
  intro s a rest hread
  rcases orElse_eq_read.mp hread with hread | ⟨-, hread⟩
  · exact hp s a rest hread
  · exact hq s a rest hread

theorem reads_firstOf {ps : List (Parser α)} (h : ∀ p ∈ ps, Reads R p) :
    Reads R (firstOf ps) := by
  induction ps with
  | nil => exact nofun
  | cons p ps ih =>
    rw [List.forall_mem_cons] at h
    cases ps with
    | nil => exact h.1
    | cons q ps => exact reads_orElse h.1 (ih h.2)

/-- Inside a bracket there is room for a further one. -/
theorem reads_nested {nesting : Nesting} {p : Nesting → Parser α}
    (h : nesting.full = false → Reads R (p nesting.deeper)) : Reads R (nested nesting p) := by
  intro s a rest hread
  obtain ⟨hfull, hread⟩ := nested_eq_read.mp hread
  exact h hfull s a rest hread

end

/-! ## Repetitions -/

theorem length_lt_append {s : List Char} (h : s ≠ []) (rest : List Char) :
    rest.length < (s ++ rest).length := by
  have hpos := List.length_pos_iff.mpr h
  rw [List.length_append]
  omega

theorem many_of_miss {p : Parser α} {s : List Char} (h : p s = .miss) :
    many p s = .read [] s := by
  rw [many, h]

theorem many_ne_miss (p : Parser α) (s : List Char) : many p s ≠ .miss := by
  induction hn : s.length using Nat.strongRecOn generalizing s with
  | ind n ih =>
    rw [many]
    cases hp : p s with
    | read a mid =>
      dsimp only
      split
      · next hlt =>
        have hmid := ih mid.length (by omega) mid rfl
        cases hrest : many p mid with
        | read as rest => simp
        | miss => exact absurd hrest hmid
        | tooDeep rest => simp
      · simp
    | miss => simp
    | tooDeep mid => simp

theorem many_eq_read_nil {p : Parser α} {s rest : List Char} (h : many p s = .read [] rest) :
    s = rest := by
  rw [many] at h
  cases hp : p s with
  | read a mid =>
    rw [hp] at h
    dsimp only at h
    split at h
    · cases hrest : many p mid <;> rw [hrest] at h <;> simp at h
    · simpa using h
  | miss =>
    rw [hp] at h
    simpa using h
  | tooDeep mid =>
    rw [hp] at h
    simp at h

theorem many_eq_read_cons {p : Parser α} {s rest : List Char} {a : α} {as : List α} :
    many p s = .read (a :: as) rest ↔
      ∃ mid, p s = .read a mid ∧ mid.length < s.length ∧ many p mid = .read as rest := by
  rw [many]
  cases hp : p s with
  | read b mid =>
    dsimp only
    split
    · next hlt =>
      cases hrest : many p mid with
      | read bs last =>
        constructor
        · intro h
          obtain ⟨⟨rfl, rfl⟩, rfl⟩ : (b = a ∧ bs = as) ∧ last = rest := by simpa using h
          exact ⟨mid, rfl, hlt, hrest⟩
        · rintro ⟨mid', hread, -, hrest'⟩
          obtain ⟨rfl, rfl⟩ : b = a ∧ mid = mid' := by simpa using hread
          rw [hrest] at hrest'
          obtain ⟨rfl, rfl⟩ : bs = as ∧ last = rest := by simpa using hrest'
          rfl
      | miss => exact absurd hrest (many_ne_miss p mid)
      | tooDeep last =>
        constructor
        · intro h
          simp at h
        · rintro ⟨mid', hread, -, hrest'⟩
          obtain ⟨rfl, rfl⟩ : b = a ∧ mid = mid' := by simpa using hread
          rw [hrest] at hrest'
          simp at hrest'
    · next hge =>
      constructor
      · intro h
        simp at h
      · rintro ⟨mid', hread, hlt, -⟩
        obtain ⟨rfl, rfl⟩ : b = a ∧ mid = mid' := by simpa using hread
        exact absurd hlt hge
  | miss => simp
  | tooDeep mid => simp

/-- What holds where a row is empty and is kept by one item more holds of every row. -/
theorem reads_many {T : List Char → List α → List Char → Prop} {p : Parser α}
    (hnil : ∀ s, T s [] s) (hcons : ∀ s a mid as rest, p s = .read a mid →
      mid.length < s.length → T mid as rest → T s (a :: as) rest) : Reads T (many p) := by
  intro s as
  induction as generalizing s with
  | nil =>
    intro rest hread
    obtain rfl := many_eq_read_nil hread
    exact hnil s
  | cons a as ih =>
    intro rest hread
    obtain ⟨mid, hfirst, hshort, hothers⟩ := many_eq_read_cons.mp hread
    exact hcons s a mid as rest hfirst hshort (ih mid rest hothers)

/-- A repetition leaves no more than there was. -/
theorem length_le_of_many {p : Parser α} {s rest : List Char} {as : List α}
    (h : many p s = .read as rest) : rest.length ≤ s.length := by
  refine reads_many (T := fun s _ rest => rest.length ≤ s.length) (fun _ => Nat.le_refl _) ?_
    s as rest h
  intro s a mid as rest _ hshort hrest
  omega

/-- A repetition ends where its item cannot be read, or takes nothing. -/
theorem not_shorter_of_many {p : Parser α} {s rest : List Char} {as : List α}
    (h : many p s = .read as rest) {a : α} {mid : List Char} (hread : p rest = .read a mid) :
    ¬ mid.length < rest.length := by
  induction as generalizing s with
  | nil =>
    obtain rfl := many_eq_read_nil h
    intro hlt
    rw [many, hread] at h
    dsimp only at h
    rw [if_pos hlt] at h
    cases hmore : many p mid <;> rw [hmore] at h <;> simp at h
  | cons b as ih =>
    obtain ⟨next, -, -, hmore⟩ := many_eq_read_cons.mp h
    exact ih hmore

/-- An item in front leaves the repetition where it ends without the item. -/
theorem erased_many_of_read {p : Parser α} {s mid : List Char} {a : α} (h : p s = .read a mid)
    (hmid : mid.length < s.length) : (many p s).erased = (many p mid).erased := by
  rw [many, h]
  dsimp only
  rw [if_pos hmid]
  cases many p mid <;> rfl

/-- A repetition depends on its item only at texts that are no longer than its own. -/
theorem many_congr {p q : Parser α} {s : List Char} (h : ∀ t, t.length ≤ s.length → p t = q t) :
    many p s = many q s := by
  induction hn : s.length using Nat.strongRecOn generalizing s with
  | ind n ih =>
    subst hn
    rw [many, many, h s (Nat.le_refl _)]
    cases q s with
    | read a mid =>
      dsimp only
      split
      · next hlt => rw [ih mid.length hlt (fun t ht => h t (by omega)) rfl]
      · rfl
    | miss => rfl
    | tooDeep mid => rfl

/-- An item with a row of further ones behind it. -/
theorem row_eq_read {p q : Parser α} {s rest : List Char} {as : List α} :
    (do let a ← p
        let more ← many q
        pure (a :: more) : Parser (List α)) s = .read as rest ↔
      ∃ a mid more, as = a :: more ∧ p s = .read a mid ∧ many q mid = .read more rest := by
  simp only [bind_eq_read, pure_eq_read]
  constructor
  · rintro ⟨a, mid, hp, more, last, hmore, rfl, rfl⟩
    exact ⟨a, mid, more, rfl, hp, hmore⟩
  · rintro ⟨a, mid, more, rfl, hp, hmore⟩
    exact ⟨a, mid, hp, more, rest, hmore, rfl, rfl⟩

/-- A row is missed where its first item is. -/
theorem row_eq_miss {p q : Parser α} {s : List Char} :
    (do let a ← p
        let more ← many q
        pure (a :: more) : Parser (List α)) s = .miss ↔ p s = .miss := by
  simp [bind_eq_miss, many_ne_miss]

theorem many1_eq_read {p : Parser α} {s rest : List Char} {as : List α} :
    many1 p s = .read as rest ↔
      ∃ a mid more, as = a :: more ∧ p s = .read a mid ∧ many p mid = .read more rest :=
  row_eq_read

theorem many1_eq_miss {p : Parser α} {s : List Char} : many1 p s = .miss ↔ p s = .miss :=
  row_eq_miss

theorem sepBy1_eq_read {sep : Parser β} {p : Parser α} {s rest : List Char} {as : List α} :
    sepBy1 sep p s = .read as rest ↔
      ∃ a mid more, as = a :: more ∧ p s = .read a mid ∧
        many (sep >>= fun _ => p) mid = .read more rest :=
  row_eq_read

theorem sepBy1_eq_miss {sep : Parser β} {p : Parser α} {s : List Char} :
    sepBy1 sep p s = .miss ↔ p s = .miss :=
  row_eq_miss

/-! ## Characters -/

/-- The text does not begin with a character that satisfies `test`. -/
def Stops (test : Char → Bool) (s : List Char) : Prop :=
  ∀ c, s.head? = some c → test c = false

@[simp] theorem stops_nil (test : Char → Bool) : Stops test [] := by
  intro c h
  simp at h

@[simp] theorem stops_cons {test : Char → Bool} {c : Char} {s : List Char} :
    Stops test (c :: s) ↔ test c = false := by
  simp [Stops]

theorem satisfy_eq_read {test : Char → Bool} {s rest : List Char} {c : Char} :
    satisfy test s = .read c rest ↔ test c = true ∧ s = c :: rest := by
  cases s with
  | nil => simp
  | cons d s =>
    rw [satisfy_cons]
    split
    · next h =>
      constructor
      · intro hread
        obtain ⟨rfl, rfl⟩ : d = c ∧ s = rest := by simpa using hread
        exact ⟨h, rfl⟩
      · rintro ⟨-, hs⟩
        obtain ⟨rfl, rfl⟩ : d = c ∧ s = rest := by simpa using hs
        rfl
    · next h =>
      constructor
      · intro hread
        simp at hread
      · rintro ⟨hc, hs⟩
        obtain ⟨rfl, rfl⟩ : d = c ∧ s = rest := by simpa using hs
        exact absurd hc h

theorem satisfy_eq_miss {test : Char → Bool} {s : List Char} :
    satisfy test s = .miss ↔ Stops test s := by
  cases s with
  | nil => simp
  | cons d s =>
    rw [satisfy_cons, stops_cons]
    cases test d <;> simp

theorem char_eq_read {c d : Char} {s rest : List Char} :
    char c s = .read d rest ↔ d = c ∧ s = c :: rest := by
  rw [char, satisfy_eq_read, beq_iff_eq]
  constructor
  · rintro ⟨rfl, hs⟩
    exact ⟨rfl, hs⟩
  · rintro ⟨rfl, hs⟩
    exact ⟨rfl, hs⟩

@[simp] theorem char_cons (c : Char) (s : List Char) : char c (c :: s) = .read c s :=
  char_eq_read.mpr ⟨rfl, rfl⟩

theorem char_eq_miss {c : Char} {s : List Char} : char c s = .miss ↔ s.head? ≠ some c := by
  rw [char, satisfy_eq_miss]
  cases s <;> simp

theorem oneOf_eq_read {cs s rest : List Char} {c : Char} :
    oneOf cs s = .read c rest ↔ c ∈ cs ∧ s = c :: rest := by
  rw [oneOf, satisfy_eq_read]
  simp

theorem oneOf_eq_miss {cs s : List Char} : oneOf cs s = .miss ↔ ∀ c ∈ cs, s.head? ≠ some c := by
  rw [oneOf, satisfy_eq_miss]
  cases s with
  | nil => simp
  | cons d s =>
    simp only [stops_cons, List.contains_eq_mem, decide_eq_false_iff_not, List.head?_cons,
      ne_eq, Option.some.injEq]
    constructor
    · rintro hd c hc rfl
      exact hd hc
    · intro h hd
      exact h d hd rfl

theorem noneOf_eq_read {cs s rest : List Char} {c : Char} :
    noneOf cs s = .read c rest ↔ c ∉ cs ∧ s = c :: rest := by
  rw [noneOf, satisfy_eq_read]
  simp

theorem anyChar_eq_read {s rest : List Char} {c : Char} :
    anyChar s = .read c rest ↔ s = c :: rest := by
  rw [anyChar, satisfy_eq_read]
  simp

theorem chars_eq_read {word s rest : List Char} {u : Unit} :
    chars word s = .read u rest ↔ s = word ++ rest := by
  induction word generalizing s with
  | nil => simp [chars]
  | cons w word ih =>
    cases s with
    | nil => simp [chars]
    | cons c s =>
      rw [chars]
      split
      · next h => simp [ih, h]
      · next h => simp [h]

theorem chars_eq_miss {word s : List Char} : chars word s = .miss ↔ ¬ word <+: s := by
  induction word generalizing s with
  | nil => simp [chars]
  | cons w word ih =>
    cases s with
    | nil => simp [chars]
    | cons c s =>
      rw [chars, List.cons_prefix_cons]
      split
      · next h => simp [ih, h]
      · next h => simp [Ne.symm h]

theorem text_eq_read {word : String} {s rest : List Char} {u : Unit} :
    text word s = .read u rest ↔ s = word.toList ++ rest := chars_eq_read

theorem text_eq_miss {word : String} {s : List Char} :
    text word s = .miss ↔ ¬ word.toList <+: s := chars_eq_miss

theorem takeWhile_eq_read {test : Char → Bool} {s cs rest : List Char} :
    takeWhile test s = .read cs rest ↔
      (∀ c ∈ cs, test c = true) ∧ Stops test rest ∧ s = cs ++ rest := by
  rw [takeWhile]
  simp only [Outcome.read.injEq]
  constructor
  · rintro ⟨rfl, rfl⟩
    refine ⟨fun c hc => List.all_eq_true.mp List.all_takeWhile c hc, ?_,
      List.takeWhile_append_dropWhile.symm⟩
    intro c hc
    have hdrop := List.head?_dropWhile_not test s
    rw [hc] at hdrop
    simpa using hdrop
  · rintro ⟨hall, hstop, rfl⟩
    rw [List.takeWhile_append_of_pos hall, List.dropWhile_append_of_pos hall]
    cases rest with
    | nil => simp
    | cons c rest =>
      have hc := stops_cons.mp hstop
      simp [hc]

theorem takeWhile1_eq_read {test : Char → Bool} {s cs rest : List Char} :
    takeWhile1 test s = .read cs rest ↔
      cs ≠ [] ∧ (∀ c ∈ cs, test c = true) ∧ Stops test rest ∧ s = cs ++ rest := by
  rw [takeWhile1]
  simp only [bind_eq_read, pure_eq_read, satisfy_eq_read, takeWhile_eq_read]
  constructor
  · rintro ⟨c, mid, ⟨hc, rfl⟩, more, last, ⟨hmore, hstop, rfl⟩, rfl, rfl⟩
    refine ⟨List.cons_ne_nil _ _, ?_, hstop, rfl⟩
    intro d hd
    rcases List.mem_cons.mp hd with rfl | hd
    · exact hc
    · exact hmore d hd
  · rintro ⟨hne, hall, hstop, rfl⟩
    cases cs with
    | nil => exact absurd rfl hne
    | cons c more =>
      refine ⟨c, more ++ rest, ⟨hall c (by simp), rfl⟩, more, rest, ⟨?_, hstop, rfl⟩, rfl, rfl⟩
      intro d hd
      exact hall d (by simp [hd])

theorem takeWhile1_eq_miss {test : Char → Bool} {s : List Char} :
    takeWhile1 test s = .miss ↔ Stops test s := by
  rw [takeWhile1]
  simp [bind_eq_miss, satisfy_eq_miss, takeWhile]

/-! ## What a reader opens with

A reader that opens with a sign misses every text that does not begin with it. The property is that
of the first reader in a row, so each law goes along the way a reader is put together. -/

/-- A construct that begins with one of `cs`, and is not found elsewhere. -/
def OpensWith (cs : List Char) (p : Parser α) : Prop :=
  ∀ s, (∀ c ∈ cs, s.head? ≠ some c) → p s = .miss

section

variable {cs : List Char} {p : Parser α}

theorem OpensWith.miss {c : Char} (h : OpensWith [c] p) {s : List Char} (hs : s.head? ≠ some c) :
    p s = .miss :=
  h s fun _ hd => by
    obtain rfl := List.mem_singleton.mp hd
    exact hs

theorem OpensWith.read (h : OpensWith cs p) {s rest : List Char} {a : α}
    (hread : p s = .read a rest) : ∃ c t, s = c :: t ∧ c ∈ cs := by
  cases s with
  | nil => simp [h [] (by simp)] at hread
  | cons c t =>
    by_cases hc : c ∈ cs
    · exact ⟨c, t, rfl, hc⟩
    · have hmiss : p (c :: t) = .miss := by
        refine h _ fun d hd hhead => hc ?_
        obtain rfl : c = d := by simpa using hhead
        exact hd
      simp [hmiss] at hread

theorem OpensWith.eq_cons {c : Char} (h : OpensWith [c] p) {s rest : List Char} {a : α}
    (hread : p s = .read a rest) : ∃ t, s = c :: t := by
  obtain ⟨d, t, rfl, hd⟩ := h.read hread
  obtain rfl := List.mem_singleton.mp hd
  exact ⟨t, rfl⟩

theorem OpensWith.bind (h : OpensWith cs p) (f : α → Parser β) : OpensWith cs (p >>= f) :=
  fun s hs => bind_of_miss (h s hs) f

theorem OpensWith.map (h : OpensWith cs p) (f : α → β) : OpensWith cs (f <$> p) :=
  h.bind fun a => pure (f a)

theorem OpensWith.between {opening : Parser β} (h : OpensWith cs opening) (closing : Parser γ)
    (p : Parser α) : OpensWith cs (between opening closing p) :=
  fun s hs => between_eq_miss.mpr (.inl (h s hs))

theorem OpensWith.orElse {ds : List Char} {q : Parser α} (h : OpensWith cs p)
    (hq : OpensWith ds q) : OpensWith (cs ++ ds) (p <|> q) := by
  intro s hs
  exact orElse_eq_miss.mpr ⟨h s fun c hc => hs c (List.mem_append_left ds hc),
    hq s fun c hc => hs c (List.mem_append_right cs hc)⟩

end

theorem opensWith_char (c : Char) : OpensWith [c] (char c) :=
  fun _ hs => char_eq_miss.mpr (hs c (List.mem_singleton_self c))

/-- A word begins with its first letter. -/
theorem opensWith_text {word : String} (c : Char) (hword : word.toList.head? = some c) :
    OpensWith [c] (text word) := by
  obtain ⟨cs, hcs⟩ := List.head?_eq_some_iff.mp hword
  intro s hs
  rw [text_eq_miss, hcs]
  rintro ⟨t, rfl⟩
  exact hs c (List.mem_singleton_self c) rfl

theorem opensWith_keyword {word : String} (c : Char) (hword : word.toList.head? = some c) :
    OpensWith [c] (keyword word) :=
  (opensWith_text c hword).bind _

/-! ## Blanks -/

@[simp] theorem blanks_apply (s : List Char) : blanks s = .read () (s.dropWhile isBlank) := rfl

@[simp] theorem afterBlanks_apply (p : Parser α) (s : List Char) :
    afterBlanks p s = p (s.dropWhile isBlank) := rfl

theorem spaced_eq_read {p : Parser α} {s rest : List Char} {a : α} :
    spaced p s = .read a rest ↔
      ∃ mid, p (s.dropWhile isBlank) = .read a mid ∧ mid.dropWhile isBlank = rest := by
  rw [spaced, between_eq_read]
  constructor
  · rintro ⟨x, inside, y, after, hopen, hp, hclose⟩
    obtain ⟨-, rfl⟩ : x = () ∧ s.dropWhile isBlank = inside := by simpa using hopen
    obtain ⟨-, rfl⟩ : y = () ∧ after.dropWhile isBlank = rest := by simpa using hclose
    exact ⟨after, hp, rfl⟩
  · rintro ⟨mid, hp, rfl⟩
    exact ⟨(), _, (), mid, blanks_apply s, hp, blanks_apply mid⟩

theorem spaced_eq_miss {p : Parser α} {s : List Char} :
    spaced p s = .miss ↔ p (s.dropWhile isBlank) = .miss := by
  rw [spaced, between_eq_miss]
  simp

/-! ## Grammars that refer to themselves -/

variable {ι : Type}

/-- The reader `p`, for texts shorter than `n`. -/
def shorter (n : Nat) (p : Parser α) : Parser α := fun s =>
  if s.length < n then p s else .miss

theorem shorter_eq_read {n : Nat} {p : Parser α} {s rest : List Char} {a : α} :
    shorter n p s = .read a rest ↔ s.length < n ∧ p s = .read a rest := by
  rw [shorter]
  split
  · next h => simp [h]
  · next h => simp [h]

theorem recursive_eq (body : (ι → Parser α) → ι → Parser α) (i : ι) (s : List Char) :
    recursive body i s = body (fun j => shorter s.length (recursive body j)) i s := by
  rw [recursive]
  rfl

/-- What a grammar makes of a text is shown from what it makes of the shorter ones, since those are
all that the constructs inside its body can see. -/
theorem recursive_induction {body : (ι → Parser α) → ι → Parser α}
    {P : ι → List Char → Outcome α → Prop}
    (h : ∀ i s, (∀ j t, t.length < s.length → P j t (recursive body j t)) →
      P i s (body (fun j => shorter s.length (recursive body j)) i s))
    (i : ι) (s : List Char) : P i s (recursive body i s) := by
  induction hs : s.length using Nat.strongRecOn generalizing s i with
  | ind length ih =>
    subst hs
    rw [recursive_eq]
    exact h i s fun j t ht => ih t.length ht j t rfl

/-- A relation holds of the readings of a grammar if its body hands it on from the constructs
inside. -/
theorem reads_recursive {body : (ι → Parser α) → ι → Parser α}
    (R : ι → List Char → α → List Char → Prop)
    (hbody : ∀ p : ι → Parser α, (∀ j, Reads (R j) (p j)) → ∀ i, Reads (R i) (body p i)) (i : ι) :
    Reads (R i) (recursive body i) := by
  intro s
  refine recursive_induction (P := fun i s o => ∀ a rest, o = .read a rest → R i s a rest) ?_ i s
  intro i s ih
  refine hbody _ ?_ i s
  intro j t b last hinner
  obtain ⟨hshort, hinner⟩ := shorter_eq_read.mp hinner
  exact ih j t hshort b last hinner

end Parser

end CorpusCost
