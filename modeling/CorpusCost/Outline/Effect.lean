import CorpusCost.Number.Scalar
import CorpusCost.Outline.Walk

/-!
# Effects of exhaustive expressions

An unbroken row of an expression that makes a search go over much of the lexicon has an exhaustion
score. The row has this score as its effect; a node it lies in has the score divided by the square
of its distance, counted from one at the row itself. Effects of several rows add up.
-/

set_option autoImplicit false

namespace CorpusCost

namespace Regex

/-- The score of a row that begins with a repeated wildcard. -/
def leadingWildcardScore : Nat := 40

/-- The score of a row with a repeated wildcard further on, or with counting bounds. -/
def wildcardScore : Nat := 15

/-- Whether a repeated wildcard begins at the head of a row. -/
def startsWithWildcard : List Atom → Bool
  | .symbol .any :: .symbol (.repeater _) :: _ => true
  | _ => false

/-- Whether a repeated wildcard stands anywhere in a row. -/
def hasWildcard : List Atom → Bool
  | [] => false
  | atom :: atoms => startsWithWildcard (atom :: atoms) || hasWildcard atoms

/-- Whether an atom is counting bounds. -/
def Atom.isBounds : Atom → Bool
  | .bounds _ => true
  | _ => false

/-- How much of the lexicon a row makes a search go over. -/
def exhaustionScore (atoms : List Atom) : Nat :=
  if startsWithWildcard atoms then leadingWildcardScore
  else if hasWildcard atoms || atoms.any Atom.isBounds then wildcardScore
  else 0

end Regex

/-- The exhaustion score of a node. -/
def Node.exhaustionScore : Node → Nat
  | .row atoms => Regex.exhaustionScore atoms
  | _ => 0

variable {α : Type} [Scalar α]

/-- The effects that have come up, by the numbers of nodes in ascending order. -/
structure EffectTable (α : Type) where
  /-- Numbers of nodes with their effects. -/
  entries : List (Nat × α)

namespace EffectTable

/-- The entries with `value` added to the effect of node `id`. -/
def addTo (id : Nat) (value : α) : List (Nat × α) → List (Nat × α)
  | [] => [(id, Scalar.zero + value)]
  | (other, effect) :: entries =>
    if id = other then (other, effect + value) :: entries
    else if id < other then (id, Scalar.zero + value) :: (other, effect) :: entries
    else (other, effect) :: addTo id value entries

/-- The table with `value` added to the effect of node `id`. -/
def add (table : EffectTable α) (id : Nat) (value : α) : EffectTable α :=
  ⟨addTo id value table.entries⟩

/-- The effect of node `id`; zero if none has come up. -/
def get (table : EffectTable α) (id : Nat) : α :=
  (table.entries.lookup id).getD Scalar.zero

/-- The sum of all effects. -/
def total (table : EffectTable α) : α :=
  table.entries.foldl (fun sum entry => sum + entry.2) Scalar.zero

/-- The number of nodes whose effect has come up. -/
def size (table : EffectTable α) : Nat := table.entries.length

/-- Adds the effects of a row with the given score to the nodes of a path, which is given from the
row up, `distance` being that of its first entry. -/
def spread (score : Nat) (distance : Nat) (table : EffectTable α) : Path → EffectTable α
  | [] => table
  | entry :: path =>
    let square : α := (distance : α) * (distance : α)
    spread score (distance + 1) (table.add entry.id ((score : α) / square)) path

/-- Adds the effects of the node at the end of a path. -/
def visit (table : EffectTable α) (path : Path) : EffectTable α :=
  match path.reverse with
  | [] => table
  | entry :: ancestors =>
    let score := entry.node.exhaustionScore
    if score = 0 then table
    else (table.add entry.id (score : α)).spread score 2 ancestors

/-- The effects of a query. -/
def ofQuery (query : Query) : EffectTable α :=
  query.outline.paths.foldl visit ⟨[]⟩

end EffectTable

end CorpusCost
