import CorpusCost.Proofs.ReadBack

/-!
# What readers can yield

`Yields P p` says that `P` holds of every value that the reader `p` reads, whatever the text. There
is one law for each way of putting readers together; for a grammar that refers to itself it is
enough that its body yields such values where the constructs inside do.
-/

set_option autoImplicit false

namespace CorpusCost.Parser

variable {α β γ ι : Type} {P : α → Prop} {Q : β → Prop}

/-- Whether `P` holds of every value that a reader reads. -/
def Yields (P : α → Prop) (p : Parser α) : Prop := ∀ s a rest, p s = .read a rest → P a

theorem yields_of_forall (h : ∀ a, P a) (p : Parser α) : Yields P p := fun _ a _ _ => h a

theorem Yields.imp {P' : α → Prop} (himp : ∀ a, P a → P' a) {p : Parser α} (h : Yields P p) :
    Yields P' p :=
  fun s a rest hread => himp a (h s a rest hread)

theorem Yields.and {P' : α → Prop} {p : Parser α} (h : Yields P p) (h' : Yields P' p) :
    Yields (fun a => P a ∧ P' a) p :=
  fun s a rest hread => ⟨h s a rest hread, h' s a rest hread⟩

theorem yields_pure {a : α} (h : P a) : Yields P (pure a : Parser α) := by
  intro s b rest hread
  obtain ⟨rfl, -⟩ := pure_eq_read.mp hread
  exact h

theorem yields_bind {p : Parser α} {f : α → Parser β} (hp : Yields P p)
    (hf : ∀ a, P a → Yields Q (f a)) : Yields Q (p >>= f) := by
  intro s b rest hread
  obtain ⟨a, mid, hfirst, hsecond⟩ := bind_eq_read.mp hread
  exact hf a (hp s a mid hfirst) mid b rest hsecond

/-- Where nothing needs to be known of what is read first. -/
theorem yields_then {p : Parser α} {f : α → Parser β} (hf : ∀ a, Yields Q (f a)) :
    Yields Q (p >>= f) :=
  yields_bind (yields_of_forall (fun _ => trivial) p) fun a (_ : True) => hf a

theorem yields_map {p : Parser α} {f : α → β} (hp : Yields (fun a => Q (f a)) p) :
    Yields Q (f <$> p) :=
  reads_map hp

theorem yields_orElse {p q : Parser α} (hp : Yields P p) (hq : Yields P q) :
    Yields P (p <|> q) :=
  reads_orElse hp hq

theorem yields_firstOf {ps : List (Parser α)} (h : ∀ p ∈ ps, Yields P p) :
    Yields P (firstOf ps) :=
  reads_firstOf h

theorem yields_optional {p : Parser α} (hp : Yields P p) :
    Yields (fun o => ∀ a ∈ o, P a) (optional p) := by
  intro s o rest hread
  rcases optional_eq_read.mp hread with ⟨a, rfl, hinner⟩ | ⟨rfl, -, -⟩
  · rintro b ⟨⟩
    exact hp s a rest hinner
  · exact nofun

theorem yields_many {p : Parser α} (hp : Yields P p) :
    Yields (fun as => ∀ a ∈ as, P a) (many p) := by
  refine reads_many (fun _ => nofun) ?_
  intro s a mid as rest hfirst _ hothers
  exact List.forall_mem_cons.mpr ⟨hp s a mid hfirst, hothers⟩

theorem yields_many1 {p : Parser α} (hp : Yields P p) :
    Yields (fun as => as ≠ [] ∧ ∀ a ∈ as, P a) (many1 p) :=
  yields_bind hp fun a ha => yields_bind (yields_many hp) fun as has =>
    yields_pure ⟨List.cons_ne_nil a as, List.forall_mem_cons.mpr ⟨ha, has⟩⟩

theorem yields_sepBy1 {sep : Parser β} {p : Parser α} (hp : Yields P p) :
    Yields (fun as => as ≠ [] ∧ ∀ a ∈ as, P a) (sepBy1 sep p) :=
  yields_bind hp fun a ha => yields_bind (yields_many (yields_then fun _ => hp)) fun as has =>
    yields_pure ⟨List.cons_ne_nil a as, List.forall_mem_cons.mpr ⟨ha, has⟩⟩

theorem yields_between {opening : Parser β} {closing : Parser γ} {p : Parser α}
    (hp : Yields P p) : Yields P (between opening closing p) :=
  yields_then fun _ => yields_bind hp fun _ ha => yields_then fun _ => yields_pure ha

theorem yields_afterBlanks {p : Parser α} (hp : Yields P p) : Yields P (afterBlanks p) :=
  yields_then fun _ => hp

theorem yields_parenthesized {p : Parser α} (hp : Yields P p) : Yields P (parenthesized p) :=
  yields_between hp

theorem yields_nested {nesting : Nesting} {p : Nesting → Parser α}
    (hp : nesting.full = false → Yields P (p nesting.deeper)) : Yields P (nested nesting p) :=
  reads_nested hp

/-- A grammar yields what its body yields where the constructs inside do. -/
theorem yields_recursive {body : (ι → Parser α) → ι → Parser α} (R : ι → α → Prop)
    (hbody : ∀ p : ι → Parser α, (∀ j, Yields (R j) (p j)) → ∀ i, Yields (R i) (body p i))
    (i : ι) : Yields (R i) (recursive body i) :=
  reads_recursive (fun i _ a _ => R i a) hbody i

end CorpusCost.Parser
