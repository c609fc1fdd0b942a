import CorpusCost.Proofs.CutTexts

/-!
# Words of cut texts

Characters, names, keywords and numbers end where the next character does not continue them, and a
cut takes no character in front of it away: they are read from cut texts whatever is left. Only a
number that may be left out needs to know what stands in its place, since the cut makes shorter
numbers of longer ones.
-/

set_option autoImplicit false

namespace CorpusCost.Parser

variable {α β γ : Type} {y : List Char} {Φ Ψ : List Char → Prop} {p q : Parser α}
  {test : Char → Bool}

/-! ## What stands ahead -/

/-- The next character that is no blank, if there is one, is one of `ends`. -/
def Ahead (ends s : List Char) : Prop := Ends ends (s.dropWhile isBlank)

@[simp] theorem ahead_nil (ends : List Char) : Ahead ends [] := ends_nil ends

theorem Ahead.mono {ends more s : List Char} (h : Ahead ends s) (hmore : ends ⊆ more) :
    Ahead more s :=
  Ends.mono h hmore

/-- What no blank satisfies and what does not begin a text behind its blanks does not begin it. -/
theorem stops_of_dropWhile {s : List Char} (h : Stops test (s.dropWhile isBlank))
    (hblank : [' ', '\t', '\r', '\n'].any test = false) : Stops test s := by
  cases s with
  | nil => exact stops_nil test
  | cons c s =>
    cases hc : isBlank c with
    | true => exact stops_cons.mpr (eq_false_of_any (by simpa using isBlank_cases hc) hblank)
    | false =>
      rw [dropWhile_of_stops (stops_cons.mpr hc)] at h
      exact h

theorem Ahead.stops {ends s : List Char} (h : Ahead ends s) (hends : ends.any test = false)
    (hblank : [' ', '\t', '\r', '\n'].any test = false) : Stops test s :=
  stops_of_dropWhile (Ends.stops h hends) hblank

theorem Ahead.head?_ne {ends s : List Char} (h : Ahead ends s) {c : Char}
    (hends : ends.any (· == c) = false) (hblank : [' ', '\t', '\r', '\n'].any (· == c) = false) :
    s.head? ≠ some c := by
  intro hhead
  simpa using h.stops hends hblank c hhead

theorem Ahead.spaced_char {ends s : List Char} (h : Ahead ends s) {c : Char} (hc : c ∉ ends) :
    spaced (char c) s = .miss :=
  spaced_char_of_head?_ne (Ends.head?_ne h hc)

/-- Where a character is read behind blanks, it stands ahead. -/
theorem ahead_of_afterBlanks {c d : Char} {s rest : List Char}
    (h : afterBlanks (char c) s = .read d rest) : Ahead [c] s := by
  rw [afterBlanks_apply] at h
  exact (opensWith_char c).ends h

theorem ahead_of_spaced {c d : Char} {s rest : List Char}
    (h : spaced (char c) s = .read d rest) : Ahead [c] s := by
  obtain ⟨mid, hmid, -⟩ := spaced_eq_read.mp h
  have hafter : afterBlanks (char c) s = .read d mid := hmid
  exact ahead_of_afterBlanks hafter

/-! ## Characters -/

/-- What does not begin a text does not begin it when it is cut. -/
theorem Stops.of_append {x : List Char} (h : Stops test (x ++ y)) : Stops test x := by
  cases x with
  | nil => exact stops_nil test
  | cons c x => exact stops_cons.mpr (stops_cons.mp h)

theorem Stops.dropWhile_of_append {x : List Char} (h : Stops test ((x ++ y).dropWhile isBlank)) :
    Stops test (x.dropWhile isBlank) := by
  rw [List.dropWhile_append] at h
  split at h
  · next hempty =>
    rw [List.isEmpty_iff.mp hempty]
    exact stops_nil test
  · exact h.of_append

theorem fades_satisfy (test : Char → Bool) : Fades y (satisfy test) (satisfy test) := by
  intro x h
  exact satisfy_eq_miss.mpr (satisfy_eq_miss.mp h).of_append

theorem fades_char (c : Char) : Fades y (char c) (char c) := fades_satisfy _

theorem fades_text (word : String) : Fades y (text word) (text word) := by
  intro x h
  rw [text_eq_miss] at h ⊢
  exact fun hword => h (hword.trans (List.prefix_append x y))

theorem cut_satisfy (test : Char → Bool) : Cut y Φ (satisfy test) (satisfy test) where
  suffix h := by
    obtain ⟨-, rfl⟩ := satisfy_eq_read.mp h
    exact List.suffix_cons _ _
  read {t x c} h _ := by
    obtain ⟨hc, hs⟩ := satisfy_eq_read.mp h
    exact satisfy_eq_read.mpr ⟨hc, List.append_cancel_right (hs.trans (List.cons_append).symm)⟩

theorem cut_char (c : Char) : Cut y Φ (char c) (char c) := cut_satisfy _

theorem cut_text (word : String) : Cut y Φ (text word) (text word) where
  suffix h := ⟨word.toList, (text_eq_read.mp h).symm⟩
  read h _ := by
    have hs := text_eq_read.mp h
    rw [← List.append_assoc] at hs
    exact text_eq_read.mpr (List.append_cancel_right hs)

theorem cut_takeWhile (test : Char → Bool) : Cut y Φ (takeWhile test) (takeWhile test) where
  suffix h := ⟨_, (takeWhile_eq_read.mp h).2.2.symm⟩
  read h _ := by
    obtain ⟨hall, hstop, hs⟩ := takeWhile_eq_read.mp h
    rw [← List.append_assoc] at hs
    exact takeWhile_eq_read.mpr ⟨hall, hstop.of_append, List.append_cancel_right hs⟩

theorem cut_takeWhile1 (test : Char → Bool) : Cut y Φ (takeWhile1 test) (takeWhile1 test) :=
  (cut_satisfy test).seq fun _ => (cut_takeWhile test).seq fun _ => cut_pure _

theorem cut_blanks : Cut y Φ blanks blanks := (cut_takeWhile isBlank).map fun _ => ()

theorem Cut.afterBlanks (h : Cut y Φ p q) : Cut y Φ (afterBlanks p) (afterBlanks q) :=
  cut_blanks.seq fun _ => h

theorem Cut.spaced (h : Cut y Anything p q) : Cut y Φ (spaced p) (spaced q) :=
  cut_blanks.between cut_blanks h fun _ _ _ _ _ => trivial

theorem cut_comma : Cut y Φ comma comma := (cut_char ',').spaced

/-- Between brackets, the closing one stands ahead of what is left. -/
theorem Cut.bracketed {opening closing : Char} (h : Cut y (Ahead [closing]) p q) :
    Cut y Φ (Parser.between (do let _ ← char opening; blanks) (Parser.afterBlanks (char closing)) p)
      (Parser.between (do let _ ← char opening; blanks) (Parser.afterBlanks (char closing)) q) :=
  Cut.between ((cut_char opening).seq fun _ => cut_blanks) (cut_char closing).afterBlanks h
    fun _ _ _ hclose _ => ahead_of_afterBlanks hclose

theorem Cut.parenthesized (h : Cut y (Ahead [')']) p q) :
    Cut y Φ (parenthesized p) (parenthesized q) :=
  Cut.between (cut_char '(').spaced (cut_char ')').afterBlanks h
    fun _ _ _ hclose _ => ahead_of_afterBlanks hclose

/-- A mark behind blanks is there before the cut or not at all. -/
theorem cut_present_afterBlanks (c : Char) :
    Cut y Φ (present (Parser.afterBlanks (char c))) (present (Parser.afterBlanks (char c))) :=
  (cut_char c).afterBlanks.present fun _ hmiss _ =>
    satisfy_eq_miss.mpr (Stops.dropWhile_of_append (satisfy_eq_miss.mp hmiss))

theorem cut_bang : Cut y Φ bang bang := by
  refine ((cut_char '!').seq fun _ => cut_blanks).present ?_
  intro x hmiss _
  rcases bind_eq_miss.mp hmiss with hsign | ⟨_, mid, -, hblanks⟩
  · exact bind_of_miss (fades_char '!' x hsign) _
  · simp at hblanks

/-! ## Names and numbers -/

theorem cut_name : Cut y Φ name name :=
  (cut_satisfy _).seq fun _ => (cut_takeWhile _).seq fun _ => cut_pure _

theorem cut_keyword (word : String) : Cut y Φ (keyword word) (keyword word) :=
  (cut_text word).seq fun _ => cut_absent fun x hmiss _ => fades_satisfy _ x hmiss

theorem cut_numberUpTo (max : Nat) : Cut y Φ (numberUpTo max) (numberUpTo max) := by
  refine (cut_takeWhile1 _).seq fun digits => ?_
  split
  · exact cut_pure _
  · exact cut_never

theorem cut_number : Cut y Φ number number := cut_numberUpTo maxUnsigned

theorem cut_signed : Cut y Φ signed signed := by
  refine ((cut_satisfy _).optional fun x hmiss _ => fades_satisfy _ x hmiss).seq fun sign => ?_
  split
  · exact (cut_numberUpTo _).map _
  · exact (cut_numberUpTo _).map _

/-- A number that may be left out is left out before a cut, too, where no digit stands. -/
theorem cut_optional_number (hdigit : ∀ x, Φ x → Stops Char.isDigit x) :
    Cut y Φ (optional number) (optional number) :=
  cut_number.optional fun x _ hx => number_of_stops (hdigit x hx)

theorem cut_bounds : Cut y Φ bounds bounds := by
  have hrange : Cut y (Ends ['\x7d']) (do
      let lo ← number
      let _ ← char ','
      let hi ← optional number
      pure (⟨lo, hi⟩ : Bounds)) (do
      let lo ← number
      let _ ← char ','
      let hi ← optional number
      pure (⟨lo, hi⟩ : Bounds)) :=
    cut_number.seq fun lo => (cut_char ',').seq fun _ =>
      (cut_optional_number fun x hx => hx.stops (by decide)).map (Bounds.mk lo)
  have hone : Cut y (Ends ['\x7d']) (do
      let n ← number
      pure (⟨n, some n⟩ : Bounds)) (do
      let n ← number
      pure (⟨n, some n⟩ : Bounds)) := cut_number.map _
  refine Cut.between (cut_char '\x7b') (cut_char '\x7d') (hrange.orElse hone ?_) ?_
  · -- No comma stands where the closing bracket does.
    intro t b x _ hread hx
    obtain ⟨n, mid, hn, hmid⟩ := bind_eq_read.mp hread
    obtain ⟨-, rfl⟩ := pure_eq_read.mp hmid
    rw [bind_of_read hn]
    exact bind_of_miss (char_eq_miss.mpr (hx.head?_ne (by decide))) _
  · intro u c x hclose _
    exact (opensWith_char _).ends hclose

end CorpusCost.Parser
