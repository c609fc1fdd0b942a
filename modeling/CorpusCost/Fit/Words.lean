import CorpusCost.Number.Scalar

/-!
# Random draws

Everything random is drawn from a source of 64-bit words: whole numbers below a bound, fractions of
one, and fair coins. Each draw takes one word, except that a number below a bound takes further
words while the lower half of a product falls outside a zone that all numbers share evenly, up to
a limit (`Draw.maxTries`).
-/

set_option autoImplicit false

namespace CorpusCost

/-- A source of 64-bit words. -/
class WordSource (σ : Type) where
  /-- The next word, and the source after it. -/
  next : σ → UInt64 × σ

namespace Draw

variable {σ α : Type} [WordSource σ]

/-- How many words a number below a bound may reject. Drawing by rejection has no such limit of its
own; with it a draw ends on every source. No bound rejects more than half of all words, so a source
that comes to the limit is one made for it. -/
def maxTries : Nat := 65536

/-- The number of zero bits above the highest set bit of a word that is not zero. -/
def leadingZeros (n : Nat) : Nat := 63 - n.log2

/-- The greatest lower half with which a product gives a number below `n`. -/
def zone (n : Nat) : Nat := n <<< leadingZeros n - 1

/-- The next word times `n`, and the source after it. -/
def product (n : Nat) (source : σ) : Nat × σ :=
  let (word, source) := WordSource.next source
  (word.toNat * n, source)

theorem product_div_lt {n : Nat} (hn : 0 < n) (source : σ) :
    (product n source).1 / UInt64.size < n :=
  Nat.div_lt_of_lt_mul (Nat.mul_lt_mul_of_pos_right (UInt64.toNat_lt_size _) hn)

/-- A number below `n`, which is at least one. Words are rejected while the lower half of their
product is outside the zone, but at most `tries` of them: the word after those is taken as it is. -/
def belowWithin (n : Nat) : Nat → σ → Nat × σ
  | 0, source => ((product n source).1 / UInt64.size, (product n source).2)
  | tries + 1, source =>
    if (product n source).1 % UInt64.size ≤ zone n then
      ((product n source).1 / UInt64.size, (product n source).2)
    else belowWithin n tries (product n source).2

/-- A number below `n`, which is at least one. It rejects words only up to `maxTries`. -/
def below (n : Nat) (source : σ) : Nat × σ := belowWithin n maxTries source

theorem belowWithin_lt {n : Nat} (hn : 0 < n) (tries : Nat) (source : σ) :
    (belowWithin n tries source).1 < n := by
  induction tries generalizing source with
  | zero => exact product_div_lt hn source
  | succ tries ih =>
    rw [belowWithin]
    split
    · exact product_div_lt hn source
    · exact ih _

/-- A number below a bound is below it. -/
theorem below_lt {n : Nat} (hn : 0 < n) (source : σ) : (below n source).1 < n :=
  belowWithin_lt hn _ _

/-- The number of fractions that can be drawn: two to the fifty-second power. -/
def fractions : Nat := 0x10000000000000

/-- A fraction of one: one of `fractions` that are evenly spaced from zero up. -/
def fraction [Scalar α] (source : σ) : α × σ :=
  let (word, source) := WordSource.next source
  (((word >>> 12).toNat : α) / (fractions : α), source)

/-- A fair coin. -/
def coin (source : σ) : Bool × σ :=
  let (word, source) := WordSource.next source
  (decide (word < 0x8000000000000000), source)

/-- `count` draws, one after the other. -/
def repeated {β : Type} (draw : σ → β × σ) : Nat → σ → List β × σ
  | 0, source => ([], source)
  | count + 1, source =>
    let (value, source) := draw source
    let (values, source) := repeated draw count source
    (value :: values, source)

/-- A draw for each item of a list, in order. -/
def forEach {β γ : Type} (draw : β → σ → γ × σ) : List β → σ → List γ × σ
  | [], source => ([], source)
  | item :: items, source =>
    let (value, source) := draw item source
    let (values, source) := forEach draw items source
    (value :: values, source)

omit [WordSource σ] in
theorem length_repeated {β : Type} (draw : σ → β × σ) (count : Nat) (source : σ) :
    (repeated draw count source).1.length = count := by
  induction count generalizing source with
  | zero => rfl
  | succ count ih => simp [repeated, ih]

omit [WordSource σ] in
theorem length_forEach {β γ : Type} (draw : β → σ → γ × σ) (items : List β) (source : σ) :
    (forEach draw items source).1.length = items.length := by
  induction items generalizing source with
  | nil => rfl
  | cons item items ih => simp [forEach, ih]

end Draw

/-! ## Scripted words -/

/-- Given words, taken over and over. -/
structure ScriptedWords where
  /-- All words. -/
  words : List UInt64
  /-- The words not taken yet in this round. -/
  pending : List UInt64

namespace ScriptedWords

/-- The given words from the beginning. -/
def ofList (words : List UInt64) : ScriptedWords := ⟨words, words⟩

instance : WordSource ScriptedWords where
  next script :=
    match script.pending with
    | word :: pending => (word, { script with pending })
    | [] =>
      match script.words with
      | word :: pending => (word, { script with pending })
      | [] => (0, script)

end ScriptedWords

end CorpusCost
