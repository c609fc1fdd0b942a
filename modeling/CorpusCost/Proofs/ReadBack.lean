import CorpusCost.Proofs.WordReadBack

/-!
# Reading back what was written

A construct is restored when every value that its reader reads from some text is read back from
the written form of the value. The value may come back renewed, the written form has a certain
beginning, and a certain end must follow it. The readers that refer to themselves are restored as
soon as their bodies are: a family of readers stands for the construct inside, the one with the
number `n` answering for texts shorter than `n`.
-/

set_option autoImplicit false

namespace CorpusCost.Parser

open Text (joined)

variable {α β ι : Type}

/-- How a construct is written and how it comes back. -/
structure Form (α : Type) where
  /-- The written form. -/
  written : α → List Char
  /-- The value that is read back. -/
  renewed : α → α
  /-- What a text beginning with the written form begins with. -/
  Begins : List Char → Prop
  /-- What may follow the written form. -/
  Follows : List Char → Prop

/-- Each value that `p` reads is read back by `again n` from a text shorter than `n`. -/
def Restores (p : Parser α) (again : Nat → Parser α) (form : Form α) : Prop :=
  ∀ s a rest, p s = .read a rest → ∀ rest', form.Follows rest' →
    form.Begins (form.written a ++ rest') ∧
      ∀ n, (form.written a ++ rest').length < n →
        again n (form.written a ++ rest') = .read (form.renewed a) rest'

/-- To restore a construct it is enough to name a text that its written form begins. -/
theorem restores_of_written {p : Parser α} {again : Nat → Parser α} {form : Form α}
    (h : ∀ s a rest, p s = .read a rest → ∀ rest', form.Follows rest' →
      ∃ t, form.written a ++ rest' = t ∧ form.Begins t ∧
        ∀ n, t.length < n → again n t = .read (form.renewed a) rest') :
    Restores p again form := by
  intro s a rest hread rest' hfollows
  obtain ⟨t, rfl, hbegins, hagain⟩ := h s a rest hread rest' hfollows
  exact ⟨hbegins, hagain⟩

/-- A grammar is restored when its body is, whatever restores the constructs inside and misses where
the body does. The body takes at least one character before it refers to the grammar. -/
theorem restores_recursive {body : (ι → Parser α) → ι → Parser α} {form : Form α}
    (Absent : List Char → Prop) (habsent : ∀ p i s, Absent s → body p i s = .miss)
    (hbody : ∀ (p : ι → Parser α) (again : Nat → ι → Parser α),
      (∀ i, Restores (p i) (fun n => again n i) form) →
      (∀ n i s, Absent s → again n i s = .miss) →
      ∀ i, Restores (body p i) (fun n => body (again (n - 1)) i) form) (i : ι) :
    Restores (recursive body i) (fun _ => recursive body i) form := by
  have hmiss : ∀ n j s, Absent s → shorter n (recursive body j) s = .miss := by
    intro n j s hs
    rw [shorter, recursive_eq, habsent _ j s hs, ite_self]
  refine reads_recursive (fun j _ a _ => ∀ rest', form.Follows rest' →
    form.Begins (form.written a ++ rest') ∧ ∀ n, (form.written a ++ rest').length < n →
      recursive body j (form.written a ++ rest') = .read (form.renewed a) rest') ?_ i
  intro p hp j s a rest hread rest' hfollows
  have hinner : ∀ j, Restores (p j) (fun n => shorter n (recursive body j)) form := by
    intro j t b last hread' last' hfollows'
    obtain ⟨hbegins, hagain⟩ := hp j t b last hread' last' hfollows'
    exact ⟨hbegins, fun n hn => shorter_eq_read.mpr ⟨hn, hagain n hn⟩⟩
  obtain ⟨hbegins, hagain⟩ := hbody p (fun n j => shorter n (recursive body j)) hinner hmiss j
    s a rest hread rest' hfollows
  refine ⟨hbegins, ?_⟩
  intro n hn
  refine (recursive_eq body j _).trans ?_
  exact hagain ((form.written a ++ rest').length + 1) (by omega)

/-! ## Repetitions -/

section

variable {p : Parser α} {again : Nat → Parser α} {form : Form α}

/-- Constructs in a row are read back one after the other, where the beginning of one may follow
another. -/
theorem many_readBack (h : Restores p again form)
    (hnext : ∀ t, form.Begins t → form.Follows t) (hne : ∀ a, form.written a ≠ [])
    {as : List α} {s rest rest' : List Char} (hread : many p s = .read as rest)
    (hfollows : form.Follows rest') :
    form.Follows (as.flatMap form.written ++ rest') ∧
      ∀ n, (as.flatMap form.written ++ rest').length < n → again n rest' = .miss →
        many (again n) (as.flatMap form.written ++ rest') =
          .read (as.map form.renewed) rest' := by
  induction as generalizing s with
  | nil =>
    refine ⟨hfollows, ?_⟩
    intro n _ hmiss
    exact many_of_miss hmiss
  | cons a as ih =>
    obtain ⟨mid, ha, -, has⟩ := many_eq_read_cons.mp hread
    obtain ⟨hmore, hagain⟩ := ih has
    obtain ⟨hbegins, hfirst⟩ := h s a mid ha _ hmore
    rw [List.flatMap_cons, List.append_assoc]
    refine ⟨hnext _ hbegins, ?_⟩
    intro n hn hmiss
    have hpos := List.length_pos_iff.mpr (hne a)
    refine many_eq_read_cons.mpr ⟨_, hfirst n hn, ?_, hagain n ?_ hmiss⟩
    · simp only [List.length_append]
      omega
    · simp only [List.length_append] at hn ⊢
      omega

/-- The form of a construct behind the separator `mark`. -/
def Form.behind (form : Form α) (mark : List Char) : Form α where
  written a := mark ++ form.written a
  renewed := form.renewed
  Begins t := ∃ u, form.Begins u ∧ t = mark ++ u
  Follows := form.Follows

theorem Restores.behind {sep : Parser β} {x : β} {mark : List Char} (h : Restores p again form)
    (hsep : ∀ t, form.Begins t → sep (mark ++ t) = .read x t) :
    Restores (sep >>= fun _ => p) (fun n => sep >>= fun _ => again n) (form.behind mark) := by
  intro s a rest hread rest' hfollows
  obtain ⟨-, mid, -, ha⟩ := bind_eq_read.mp hread
  obtain ⟨hbegins, hagain⟩ := h mid a rest ha rest' hfollows
  change (∃ u, _ ∧ mark ++ form.written a ++ rest' = mark ++ u) ∧ ∀ n,
    (mark ++ form.written a ++ rest').length < n →
      (sep >>= fun _ => again n) (mark ++ form.written a ++ rest') = _
  rw [List.append_assoc]
  refine ⟨⟨_, hbegins, rfl⟩, ?_⟩
  intro n hn
  rw [List.length_append] at hn
  rw [bind_of_read (hsep _ hbegins)]
  exact hagain n (by omega)

theorem joined_cons (mark part : List Char) (parts : List (List Char)) :
    joined mark (part :: parts) = part ++ parts.flatMap (mark ++ ·) := by
  induction parts generalizing part with
  | nil => simp
  | cons next parts ih =>
    rw [Text.joined_cons_cons, ih, List.flatMap_cons, List.append_assoc, List.append_assoc]

/-- The form of a list of constructs with `mark` between any two, ended where `Ended` holds. -/
def Form.listed (form : Form α) (mark : List Char) (Ended : List Char → Prop) :
    Form (List α) where
  written as := joined mark (as.map form.written)
  renewed as := as.map form.renewed
  Begins := form.Begins
  Follows t := form.Follows t ∧ Ended t

/-- A list with separators is restored when its members are; behind the last one a further member
must not be readable. -/
theorem Restores.sepBy1 {sep : Parser β} {x : β} {mark : List Char} {Ended : List Char → Prop}
    (h : Restores p again form) (hmark : mark ≠ [])
    (hsep : ∀ t, form.Begins t → sep (mark ++ t) = .read x t)
    (hnext : ∀ t, form.Begins t → form.Follows (mark ++ t))
    (hend : ∀ n t, Ended t → (sep >>= fun _ => again n) t = .miss) :
    Restores (sepBy1 sep p) (fun n => sepBy1 sep (again n)) (form.listed mark Ended) := by
  intro s as rest hread rest' hfollows
  obtain ⟨hfollows, hended⟩ := hfollows
  obtain ⟨a, mid, more, rfl, ha, hmore⟩ := sepBy1_eq_read.mp hread
  have hchain : ∀ t, (form.behind mark).Begins t → (form.behind mark).Follows t := by
    rintro t ⟨u, hu, rfl⟩
    exact hnext u hu
  have hne : ∀ b, (form.behind mark).written b ≠ [] := by
    intro b
    exact List.append_ne_nil_of_left_ne_nil hmark _
  obtain ⟨hrow, hagain⟩ := many_readBack (h.behind hsep) hchain hne hmore hfollows
  obtain ⟨hbegins, hfirst⟩ := h s a mid ha _ hrow
  have htext : joined mark ((a :: more).map form.written) ++ rest' =
      form.written a ++ (more.flatMap (form.behind mark).written ++ rest') := by
    rw [List.map_cons, joined_cons, List.flatMap_map, List.append_assoc]
    rfl
  change form.Begins (joined mark ((a :: more).map form.written) ++ rest') ∧ ∀ n,
    (joined mark ((a :: more).map form.written) ++ rest').length < n →
      Parser.sepBy1 sep (again n) (joined mark ((a :: more).map form.written) ++ rest') = _
  rw [htext]
  refine ⟨hbegins, ?_⟩
  intro n hn
  rw [List.length_append] at hn
  refine sepBy1_eq_read.mpr ⟨form.renewed a, _, more.map form.renewed, rfl, hfirst n ?_,
    hagain n (by omega) (hend n rest' hended)⟩
  rw [List.length_append]
  omega

/-- Where blanks separate the members of a row, the first one may stand behind blanks, too. -/
theorem many1_afterBlanks_eq (p : Parser α) (s : List Char) :
    many1 (afterBlanks p) s = Parser.sepBy1 blanks p (s.dropWhile isBlank) := rfl

/-- A row of constructs with one blank between any two is restored. -/
theorem Restores.many1_afterBlanks {Ended : List Char → Prop} (h : Restores p again form)
    (hblank : ∀ t, form.Begins t → Stops isBlank t)
    (hnext : ∀ t, form.Begins t → form.Follows (' ' :: t))
    (hend : ∀ n t, Ended t → again n (t.dropWhile isBlank) = .miss) :
    Restores (many1 (afterBlanks p)) (fun n => many1 (afterBlanks (again n)))
      (form.listed [' '] Ended) := by
  have hsep : ∀ t, form.Begins t → blanks ([' '] ++ t) = .read () t := by
    intro t ht
    rw [blanks_apply, List.singleton_append, dropWhile_space, dropWhile_of_stops (hblank t ht)]
  have hrow := h.sepBy1 (List.cons_ne_nil _ _) hsep hnext hend
  intro s as rest hread rest' hfollows
  obtain ⟨hbegins, hagain⟩ := hrow _ as rest hread rest' hfollows
  refine ⟨hbegins, ?_⟩
  intro n hn
  refine (many1_afterBlanks_eq (again n) _).trans ?_
  rw [dropWhile_of_stops (hblank _ hbegins)]
  exact hagain n hn

end

end CorpusCost.Parser
