import CorpusCost.Proofs.ReadBack

/-!
# What readers consume

`Consumes R p` says that the reader `p` splits a text into what it takes and what it leaves, and
that `R` relates the value it reads to what it takes. There is one law for each way of putting
readers together: the texts taken by the parts, one after the other, are the text taken by the
whole. For a grammar that refers to itself it is enough that its body takes what it should where the
constructs inside do.
-/

set_option autoImplicit false

namespace CorpusCost.Parser

variable {α β γ ι : Type} {R : α → List Char → Prop} {S : β → List Char → Prop}

/-- Whether `R` relates every value that a reader reads to the text that it takes for it. -/
def Consumes (R : α → List Char → Prop) (p : Parser α) : Prop :=
  ∀ s a rest, p s = .read a rest → ∃ taken, s = taken ++ rest ∧ R a taken

theorem Consumes.imp {R' : α → List Char → Prop} (himp : ∀ a u, R a u → R' a u) {p : Parser α}
    (h : Consumes R p) : Consumes R' p := by
  intro s a rest hread
  obtain ⟨taken, rfl, hR⟩ := h s a rest hread
  exact ⟨taken, rfl, himp a taken hR⟩

theorem consumes_pure {a : α} (h : R a []) : Consumes R (pure a : Parser α) := by
  intro s b rest hread
  obtain ⟨rfl, rfl⟩ := pure_eq_read.mp hread
  exact ⟨[], rfl, h⟩

theorem consumes_bind {p : Parser α} {f : α → Parser β} (hp : Consumes R p)
    (hf : ∀ a u, R a u → Consumes (fun b v => S b (u ++ v)) (f a)) : Consumes S (p >>= f) := by
  intro s b rest hread
  obtain ⟨a, mid, hfirst, hsecond⟩ := bind_eq_read.mp hread
  obtain ⟨u, rfl, hR⟩ := hp s a mid hfirst
  obtain ⟨v, rfl, hS⟩ := hf a u hR mid b rest hsecond
  exact ⟨u ++ v, by rw [List.append_assoc], hS⟩

theorem consumes_map {p : Parser α} {f : α → β} (hp : Consumes (fun a => S (f a)) p) :
    Consumes S (f <$> p) :=
  reads_map hp

theorem consumes_orElse {p q : Parser α} (hp : Consumes R p) (hq : Consumes R q) :
    Consumes R (p <|> q) :=
  reads_orElse hp hq

theorem consumes_firstOf {ps : List (Parser α)} (h : ∀ p ∈ ps, Consumes R p) :
    Consumes R (firstOf ps) :=
  reads_firstOf h

theorem consumes_satisfy (test : Char → Bool) : Consumes (fun c u => u = [c]) (satisfy test) := by
  intro s c rest hread
  obtain ⟨-, rfl⟩ := satisfy_eq_read.mp hread
  exact ⟨[c], rfl, rfl⟩

theorem consumes_char (c : Char) : Consumes (fun _ u => u = [c]) (char c) := by
  intro s d rest hread
  obtain ⟨-, rfl⟩ := char_eq_read.mp hread
  exact ⟨[c], rfl, rfl⟩

theorem consumes_optional {T : Option α → List Char → Prop} {p : Parser α} (hnone : T none [])
    (hp : Consumes (fun a => T (some a)) p) : Consumes T (optional p) := by
  intro s o rest hread
  rcases optional_eq_read.mp hread with ⟨a, rfl, hinner⟩ | ⟨rfl, -, rfl⟩
  · exact hp s a rest hinner
  · exact ⟨[], rfl, hnone⟩

/-- A relation that holds of an empty row and is kept by one item more holds of a whole row. -/
theorem consumes_many {T : List α → List Char → Prop} {p : Parser α} (hp : Consumes R p)
    (hnil : T [] []) (hcons : ∀ a u as v, R a u → T as v → T (a :: as) (u ++ v)) :
    Consumes T (many p) := by
  refine reads_many (fun s => ⟨[], rfl, hnil⟩) ?_
  rintro s a mid as rest hfirst - ⟨v, rfl, hT⟩
  obtain ⟨u, rfl, hR⟩ := hp s a _ hfirst
  exact ⟨u ++ v, by rw [List.append_assoc], hcons a u as v hR hT⟩

theorem consumes_many1 {T : List α → List Char → Prop} {p : Parser α} (hp : Consumes R p)
    (hnil : T [] []) (hcons : ∀ a u as v, R a u → T as v → T (a :: as) (u ++ v)) :
    Consumes T (many1 p) :=
  consumes_bind hp fun a u hR => consumes_bind (consumes_many hp hnil hcons) fun as v hT =>
    consumes_pure (by simpa using hcons a u as v hR hT)

/-- A relation that holds of one item and is kept by one item more, before the first with its
separator, holds of a whole row. -/
theorem consumes_sepBy1 {T : List α → List Char → Prop} {sep : Parser β} {p : Parser α}
    (hsep : Consumes S sep) (hp : Consumes R p) (hone : ∀ a u, R a u → T [a] u)
    (hcons : ∀ a u b t as v, R a u → S b t → T as v → as ≠ [] → T (a :: as) (u ++ t ++ v)) :
    Consumes T (sepBy1 sep p) := by
  -- Behind the first item stands what makes a row of any item before it.
  have hmore : Consumes (fun as v => ∀ a u, R a u → T (a :: as) (u ++ v))
      (many (do let _ ← sep; p)) := by
    refine consumes_many (R := fun b tu => ∃ c t u, tu = t ++ u ∧ S c t ∧ R b u) ?_ ?_ ?_
    · exact consumes_bind hsep fun c t hS => hp.imp fun b u hR => ⟨c, t, u, rfl, hS, hR⟩
    · intro a u hR
      simpa using hone a u hR
    · rintro b _ as v ⟨c, t, w, rfl, hS, hw⟩ htail a u hR
      simpa using hcons a u c t (b :: as) (w ++ v) hR hS (htail b w hw) (List.cons_ne_nil b as)
  exact consumes_bind hp fun a u hR => consumes_bind hmore fun as v hT =>
    consumes_pure (by simpa using hT a u hR)

theorem consumes_between {o : Parser β} {c : Parser γ} {p : Parser α} {T : γ → List Char → Prop}
    {R' : α → List Char → Prop} (ho : Consumes S o) (hp : Consumes R p) (hc : Consumes T c)
    (h : ∀ a b d t u v, S b t → R a u → T d v → R' a (t ++ u ++ v)) :
    Consumes R' (between o c p) :=
  consumes_bind ho fun b t hS => consumes_bind hp fun a u hR => consumes_bind hc fun d v hT =>
    consumes_pure (by simpa using h a b d t u v hS hR hT)

theorem consumes_nested {nesting : Nesting} {p : Nesting → Parser α}
    (hp : Consumes R (p nesting.deeper)) : Consumes R (nested nesting p) :=
  reads_nested fun _ => hp

/-- A grammar takes what its body takes where the constructs inside do. -/
theorem consumes_recursive {body : (ι → Parser α) → ι → Parser α}
    (hbody : ∀ p : ι → Parser α, (∀ j, Consumes R (p j)) → ∀ i, Consumes R (body p i)) (i : ι) :
    Consumes R (recursive body i) :=
  reads_recursive (fun _ s a rest => ∃ taken, s = taken ++ rest ∧ R a taken) hbody i

end CorpusCost.Parser
