import CorpusCost.Proofs.CutConditions
import CorpusCost.Proofs.Respaced

/-!
# Words in respaced texts

Readers that do not see which blanks stand between words. A name, a keyword, a number or a sign is
read the same from texts that are the same but for their blanks, since no blank and no quote belongs
to one; any blanks are skipped alike; and a string between quotes is the same in both texts, so that
it is read alike up to the quote that closes it. Repetitions and grammars that refer to themselves
keep this for readers that do not apply before blanks or at the end of the text.
-/

set_option autoImplicit false

namespace CorpusCost.Parser

variable {α β γ ι : Type} {R : List Char → List Char → Prop} {p q : Parser α}

/-! ## Blanks -/

theorem AllBlank.dropWhile {b : List Char} (hb : AllBlank b) : b.dropWhile isBlank = [] := by
  rw [← List.append_nil b, List.dropWhile_append_of_pos hb, List.dropWhile_nil]

/-- A reader that does not apply where only blanks are left. -/
def NeedsInk (p : Parser α) : Prop := ∀ b, AllBlank b → p b = .miss

theorem NeedsInk.bind (h : NeedsInk p) (f : α → Parser β) : NeedsInk (p >>= f) :=
  fun b hb => bind_of_miss (h b hb) f

theorem NeedsInk.map (h : NeedsInk p) (f : α → β) : NeedsInk (f <$> p) :=
  h.bind fun a => pure (f a)

theorem NeedsInk.orElse (h : NeedsInk p) (hq : NeedsInk q) : NeedsInk (p <|> q) :=
  fun b hb => orElse_eq_miss.mpr ⟨h b hb, hq b hb⟩

theorem NeedsInk.shorter (h : NeedsInk p) (n : Nat) : NeedsInk (shorter n p) := by
  intro b hb
  rw [Parser.shorter, h b hb, ite_self]

theorem NeedsInk.afterBlanks (h : NeedsInk p) : NeedsInk (afterBlanks p) := by
  intro b hb
  rw [afterBlanks_apply, hb.dropWhile]
  exact h [] nofun

theorem NeedsInk.spaced (h : NeedsInk p) : NeedsInk (spaced p) := by
  intro b hb
  rw [spaced_eq_miss, hb.dropWhile]
  exact h [] nofun

theorem OpensWith.needsInk {cs : List Char} (h : OpensWith cs p) (hcs : cs.any isBlank = false) :
    NeedsInk p := by
  intro b hb
  refine h b fun c hc hhead => ?_
  have hblank : isBlank c = true := hb c (List.mem_of_mem_head? hhead)
  rw [eq_false_of_any hc hcs] at hblank
  exact absurd hblank (by decide)

/-! ## Characters -/

/-- A test that no blank and no quote passes. -/
def Inked (test : Char → Bool) : Prop := [' ', '\t', '\r', '\n', '"'].any test = false

instance {test : Char → Bool} : Decidable (Inked test) :=
  instDecidableEqBool _ false

/-- A word with no blank and no quote in it. -/
def InkedWord (word : String) : Prop := ∀ c ∈ word.toList, Inked (· == c)

instance {word : String} : Decidable (InkedWord word) :=
  List.decidableBAll (fun c => Inked (· == c)) word.toList

theorem Inked.quote {test : Char → Bool} (h : Inked test) : test '"' = false :=
  eq_false_of_any (by decide) h

theorem Inked.blank {test : Char → Bool} (h : Inked test) {c : Char} (hc : isBlank c = true) :
    test c = false := by
  refine eq_false_of_any ?_ h
  simp only [isBlank, Bool.or_eq_true, beq_iff_eq] at hc
  rcases hc with ((rfl | rfl) | rfl) | rfl <;> decide

section

variable {test : Char → Bool} (htest : ∀ {c}, isBlank c = true → test c = false)

include htest

theorem AllBlank.stops {b : List Char} (hb : AllBlank b) : Stops test b :=
  fun c hc => htest (hb c (List.mem_of_mem_head? hc))

theorem AllBlank.stops_append {b : List Char} (hb : AllBlank b) (hne : b ≠ []) (u : List Char) :
    Stops test (b ++ u) := by
  cases b with
  | nil => exact absurd rfl hne
  | cons c b => exact stops_cons.mpr (htest (hb c List.mem_cons_self))

end

theorem Inked.needsInk {test : Char → Bool} (h : Inked test) : NeedsInk (satisfy test) :=
  fun _ hb => satisfy_eq_miss.mpr (hb.stops h.blank)

theorem takeWhile_of_stops {test : Char → Bool} {s : List Char} (h : Stops test s) :
    s.takeWhile test = [] := by
  cases s with
  | nil => rfl
  | cons c s => rw [List.takeWhile_cons_of_neg (by simp [stops_cons.mp h])]

section

variable (hR : Outside R)

include hR

/-- Related texts begin with the same character that is neither a blank nor a quote, or neither text
begins with one. -/
theorem Outside.first {test : Char → Bool} (htest : Inked test) {u u' : List Char} (hu : R u u') :
    (∃ c v v', u = c :: v ∧ u' = c :: v' ∧ R v v') ∨ Stops test u ∧ Stops test u' := by
  cases hR.begins u u' hu with
  | ending hb hb' => exact .inr ⟨hb.stops htest.blank, hb'.stops htest.blank⟩
  | plain hblank hquote h => exact .inl ⟨_, _, _, rfl, rfl, h⟩
  | run hb hb' hne hne' h =>
    exact .inr ⟨hb.stops_append htest.blank hne _, hb'.stops_append htest.blank hne' _⟩
  | string hv h => exact .inr ⟨stops_cons.mpr htest.quote, stops_cons.mpr htest.quote⟩
  | unclosed hv => exact .inr ⟨stops_cons.mpr htest.quote, stops_cons.mpr htest.quote⟩

theorem Outside.satisfy {test : Char → Bool} (htest : Inked test) : Steady R (satisfy test) := by
  intro u u' hu
  rcases hR.first htest hu with ⟨c, v, v', rfl, rfl, hv⟩ | ⟨hstops, hstops'⟩
  · rw [satisfy_cons, satisfy_cons]
    split
    · exact ⟨rfl, hv⟩
    · trivial
  · rw [satisfy_eq_miss.mpr hstops, satisfy_eq_miss.mpr hstops']
    trivial

theorem Outside.takeWhile {test : Char → Bool} (htest : Inked test) :
    Steady R (takeWhile test) := by
  intro u
  induction hn : u.length using Nat.strongRecOn generalizing u with
  | ind n ih =>
    subst hn
    intro u' hu
    change u.takeWhile test = u'.takeWhile test ∧ R (u.dropWhile test) (u'.dropWhile test)
    rcases hR.first htest hu with ⟨c, v, v', rfl, rfl, hv⟩ | ⟨hstops, hstops'⟩
    · obtain ⟨htake, hdrop⟩ := ih v.length (by simp) v rfl v' hv
      simp only [List.takeWhile_cons, List.dropWhile_cons]
      cases test c with
      | true => exact ⟨congrArg (c :: ·) htake, hdrop⟩
      | false => exact ⟨rfl, hu⟩
    · rw [dropWhile_of_stops hstops, dropWhile_of_stops hstops', takeWhile_of_stops hstops,
        takeWhile_of_stops hstops']
      exact ⟨rfl, hu⟩

/-- Any blanks are skipped alike. -/
theorem Outside.blanks : Steady R blanks := by
  intro u
  induction hn : u.length using Nat.strongRecOn generalizing u with
  | ind n ih =>
    subst hn
    intro u' hu
    change () = () ∧ R (u.dropWhile isBlank) (u'.dropWhile isBlank)
    refine ⟨rfl, ?_⟩
    cases hR.begins u u' hu with
    | ending hb hb' h =>
      rw [hb.dropWhile, hb'.dropWhile]
      exact h
    | plain hblank hquote h =>
      rw [List.dropWhile_cons_of_neg (by simp [hblank]),
        List.dropWhile_cons_of_neg (by simp [hblank])]
      exact hu
    | @run b b' v v' hb hb' hne hne' hv =>
      have hshort := length_lt_append hne v
      rw [List.dropWhile_append_of_pos hb, List.dropWhile_append_of_pos hb']
      exact (ih v.length hshort v rfl v' hv).2
    | string hv h => exact hu
    | unclosed hv => exact hu

/-! ## Words -/

theorem Outside.char {c : Char} (hc : Inked (· == c)) : Steady R (char c) :=
  hR.satisfy hc

theorem Outside.text {word : String} (hword : InkedWord word) :
    Steady R (text word) :=
  steady_chars fun c hc => hR.char (hword c hc)

theorem Outside.takeWhile1 {test : Char → Bool} (htest : Inked test) :
    Steady R (takeWhile1 test) :=
  (hR.satisfy htest).bind fun _ => (hR.takeWhile htest).bind fun _ => steady_pure _

theorem Outside.name : Steady R name :=
  (hR.satisfy (by decide)).bind fun _ => (hR.takeWhile (by decide)).bind fun _ => steady_pure _

theorem Outside.keyword {word : String} (hword : InkedWord word) :
    Steady R (keyword word) :=
  (hR.text hword).bind fun _ => (hR.satisfy (by decide)).absent

theorem Outside.numberUpTo (max : Nat) : Steady R (numberUpTo max) := by
  refine (hR.takeWhile1 (by decide)).bind fun digits => ?_
  split
  · exact steady_pure _
  · exact steady_never

theorem Outside.number : Steady R number := hR.numberUpTo maxUnsigned

theorem Outside.signed : Steady R signed := by
  refine Paired.bind (hR.satisfy (by decide)).optional fun sign => ?_
  split
  · exact (hR.numberUpTo _).bind fun _ => steady_pure _
  · exact (hR.numberUpTo _).bind fun _ => steady_pure _

theorem Outside.bounds : Steady R bounds :=
  Paired.between (hR.char (by decide)) (hR.char (by decide)) <| Paired.orElse
    (hR.number.bind fun _ => (hR.char (by decide)).bind fun _ =>
      hR.number.optional.bind fun _ => steady_pure _)
    (hR.number.bind fun _ => steady_pure _)

theorem Outside.afterBlanks (h : Paired R p q) : Paired R (afterBlanks p) (afterBlanks q) :=
  hR.blanks.bind fun _ => h

theorem Outside.spaced (h : Paired R p q) : Paired R (spaced p) (spaced q) :=
  hR.blanks.between hR.blanks h

theorem Outside.comma : Steady R comma := hR.spaced (hR.char (by decide))

theorem Outside.parenthesized (h : Paired R p q) :
    Paired R (parenthesized p) (parenthesized q) :=
  (hR.spaced (hR.char (by decide))).between (hR.afterBlanks (hR.char (by decide))) h

/-- What stands in brackets, with any blanks behind the opening and before the closing one. -/
theorem Outside.bracketed {opening closing : Char} (hopening : Inked (· == opening))
    (hclosing : Inked (· == closing)) (h : Paired R p q) :
    Paired R
      (between (do let _ ← Parser.char opening; Parser.blanks)
        (Parser.afterBlanks (Parser.char closing)) p)
      (between (do let _ ← Parser.char opening; Parser.blanks)
        (Parser.afterBlanks (Parser.char closing)) q) :=
  Paired.between ((hR.char hopening).bind fun _ => hR.blanks)
    (hR.afterBlanks (hR.char hclosing)) h

theorem Outside.bang : Steady R bang :=
  Paired.present ((hR.char (by decide)).bind fun _ => hR.blanks)

/-! ## Strings -/

omit hR in
/-- A closing quote is found in both of two sealed texts or in neither, and behind it are the texts
that are sealed. -/
theorem alike_closing {t t' r r' : List Char} (h : Regex.Sealed t t' r r') (ht : R t t') :
    Alike R (Parser.char '"' r) (Parser.char '"' r') := by
  cases h with
  | close => exact ⟨rfl, ht⟩
  | plain hquote =>
    rw [char_eq_miss.mpr (by simpa using hquote), char_eq_miss.mpr (by simpa using hquote)]
    trivial
  | escaped c =>
    rw [char_eq_miss.mpr (by simp), char_eq_miss.mpr (by simp)]
    trivial
  | nil => trivial
  | slash =>
    rw [char_eq_miss.mpr (by simp)]
    trivial

omit hR in
/-- No string is read that nothing closes. -/
theorem Unclosed.not_read {v : List Char} (h : Unclosed v)
    (hp : ∀ t t', Steady (Regex.Sealed t t') p) (a : α) (rest : List Char) :
    between (Parser.char '"') (Parser.char '"') p ('"' :: v) ≠ .read a rest := by
  intro hread
  obtain ⟨_, inside, _, after, hopen, hinside, hclose⟩ := between_eq_read.mp hread
  obtain ⟨-, heq⟩ := char_eq_read.mp hopen
  obtain rfl : v = inside := (List.cons.inj heq).2
  obtain ⟨-, rfl⟩ := char_eq_read.mp hclose
  -- What follows the closing quote could be anything, so it could be longer than it is.
  have halike := hp ('"' :: rest) ('"' :: rest) v v (Regex.sealed_of_unclosed h _)
  rw [hinside] at halike
  obtain ⟨hrest, -⟩ := halike.2.eq_of_quote
  exact absurd hrest (List.cons_ne_self _ _).symm

/-- A reader that does not look behind the closing quote reads a string alike from related texts. -/
theorem Outside.string (hp : ∀ t t', Steady (Regex.Sealed t t') p) :
    Steady R (between (Parser.char '"') (Parser.char '"') p) := by
  have hmiss : ∀ {s : List Char}, Stops (· == '"') s →
      between (Parser.char '"') (Parser.char '"') p s = .miss :=
    fun hs => bind_of_miss (satisfy_eq_miss.mpr hs) _
  have hopen : ∀ s, between (Parser.char '"') (Parser.char '"') p ('"' :: s) =
      (p >>= fun a => Parser.char '"' >>= fun _ => pure a) s :=
    fun s => bind_of_read (char_cons _ s) _
  have hblank : ∀ {c}, isBlank c = true → (c == '"') = false := by
    intro c hc
    rw [beq_eq_false_iff_ne]
    rintro rfl
    exact absurd hc (by decide)
  intro u u' hu
  cases hR.begins u u' hu with
  | ending hb hb' =>
    rw [hmiss (hb.stops hblank), hmiss (hb'.stops hblank)]
    trivial
  | plain _ hquote =>
    rw [hmiss (stops_cons.mpr (by simpa using hquote)),
      hmiss (stops_cons.mpr (by simpa using hquote))]
    trivial
  | run hb hb' hne hne' =>
    rw [hmiss (hb.stops_append hblank hne _), hmiss (hb'.stops_append hblank hne' _)]
    trivial
  | @string v t t' hv h =>
    rw [hopen, hopen]
    exact (hp t t' _ _ (Regex.sealed_of_enclosed hv t t')).bind_of fun a r r' hr =>
      (alike_closing hr h).bind fun _ => steady_pure a
  | unclosed hv =>
    cases hread : between (Parser.char '"') (Parser.char '"') p ('"' :: _) with
    | read a rest => exact absurd hread (hv.not_read hp a rest)
    | miss => trivial
    | tooDeep rest => trivial

theorem Outside.quoted (nesting : Nesting) : Steady R (Regex.quoted nesting) :=
  hR.string fun _ _ => (Regex.steady_choice nesting).map Regex.mk

omit hR in
theorem bind_pure_eq (p : Parser α) : (p >>= pure) = p := by
  funext s
  rw [bind_apply, andThen]
  cases p s <;> rfl

omit hR in
theorem steady_literalLetter (t t' : List Char) : Steady (Regex.Sealed t t') literalLetter := by
  have hescaped : Steady (Regex.Sealed t t') (Parser.char '\\' >>= fun _ => anyChar >>= pure) :=
    Regex.steady_escaped fun _ _ => steady_pure _
  rw [bind_pure_eq] at hescaped
  exact hescaped.orElse (Regex.steady_satisfy_of_shy ⟨rfl, rfl⟩)

theorem Outside.literal : Steady R literal :=
  (hR.string fun t t' =>
    (steady_literalLetter t t').many (Regex.shrinksAlike_sealed t t')).map String.ofList

/-! ## Repetitions and recursion -/

theorem Outside.many (hp : NeedsInk p) (hq : NeedsInk q) (h : Paired R p q) :
    Paired R (many p) (many q) := by
  refine h.many_of fun u u' v v' a hu hv hread hread' => ?_
  have hne : u ≠ [] := by
    rintro rfl
    simp [hp [] nofun] at hread
  have hne' : u' ≠ [] := by
    rintro rfl
    simp [hq [] nofun] at hread'
  exact hR.shrinks u u' v v' hu hv hne hne'

theorem Outside.many1 (hp : NeedsInk p) (hq : NeedsInk q) (h : Paired R p q) :
    Paired R (many1 p) (many1 q) :=
  h.bind fun _ => (hR.many hp hq h).bind fun _ => steady_pure _

theorem Outside.sepBy1 {sep : Parser β} (hsep : Steady R sep) (hink : NeedsInk sep)
    (h : Paired R p q) : Paired R (sepBy1 sep p) (sepBy1 sep q) :=
  h.bind fun _ => (hR.many (hink.bind _) (hink.bind _) (hsep.bind fun _ => h)).bind
    fun _ => steady_pure _

/-- A grammar that does not apply where only blanks are left is steady when its body is paired
whatever such readers stand for the constructs inside. -/
theorem Outside.recursive {body : (ι → Parser α) → ι → Parser α}
    (hink : ∀ p i, NeedsInk (body p i))
    (hbody : ∀ p q : ι → Parser α, (∀ j, NeedsInk (p j)) → (∀ j, NeedsInk (q j)) →
      (∀ j, Paired R (p j) (q j)) → ∀ i, Paired R (body p i) (body q i))
    (i : ι) : Steady R (recursive body i) := by
  have hgrammar : ∀ j, NeedsInk (Parser.recursive body j) := by
    intro j b hb
    rw [recursive_eq]
    exact hink _ j b hb
  refine steady_recursive_of ?_ (fun n n' => hbody _ _ (fun j => (hgrammar j).shorter n)
    fun j => (hgrammar j).shorter n') i
  intro j u u' hu
  by_cases hempty : u = [] ∨ u' = []
  · obtain ⟨hb, hb'⟩ := (hR.begins u u' hu).allBlank hempty
    exact .inr ⟨hgrammar j u hb, hgrammar j u' hb'⟩
  · rw [not_or] at hempty
    exact .inl fun v v' hv => hR.shrinks u u' v v' hu hv hempty.1 hempty.2

end

end CorpusCost.Parser
