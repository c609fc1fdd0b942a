import Mathlib.Algebra.BigOperators.Group.List.Basic
import Mathlib.Algebra.Order.BigOperators.Group.List
import Mathlib.Algebra.Order.Field.Basic
import Mathlib.Algebra.Order.Ring.Rat
import Mathlib.Tactic.Positivity
import Mathlib.Tactic.Ring
import CorpusCost.Outline.Effect
import CorpusCost.Proofs.Traversals
import CorpusCost.Query.Reading

/-!
# Effects as sums over rows

The table of effects is filled from below: at each unbroken row the numbered walk adds a share of
the score of the row to every node on the path. Seen from a node, its effect is a sum over the rows
in the part of the query below it, and each row counts with its score over the square of its
distance (`Outline.effect`). The two agree at every number, over the rationals.

The first half is about the table alone: what one addition does to one entry, and what a path and
then a list of paths add up to. The second half sums the paths of an outline by recursion on it. The
rows of a part add to the nodes above the part as well, so the sum is stated for a part under any
path of ancestors.
-/

set_option autoImplicit false

namespace CorpusCost

/-! ## The effect of a part -/

/-- An unbroken row, seen from a node above it. -/
structure RowBelow where
  /-- The number of edges from the node down to the row. -/
  distance : Nat
  /-- The atoms of the row. -/
  atoms : List Regex.Atom

namespace RowBelow

/-- The exhaustion score of the row. -/
def score (row : RowBelow) : Nat := Regex.exhaustionScore row.atoms

/-- The row, seen from the node one edge further up. -/
def deeper (row : RowBelow) : RowBelow := { row with distance := row.distance + 1 }

/-- What the row adds to the effect of the node. -/
def effect (row : RowBelow) : Rat := row.score / (row.distance + 1) ^ 2

@[simp] theorem score_deeper (row : RowBelow) : row.deeper.score = row.score := rfl

@[simp] theorem distance_deeper (row : RowBelow) : row.deeper.distance = row.distance + 1 := rfl

theorem effect_nonneg (row : RowBelow) : 0 ≤ row.effect := by
  unfold effect
  positivity

theorem effect_pos_iff (row : RowBelow) : 0 < row.effect ↔ row.score ≠ 0 := by
  have hsquare : (0 : Rat) < (row.distance + 1) ^ 2 := by positivity
  rw [effect, div_pos_iff_of_pos_right hsquare, Nat.cast_pos, Nat.pos_iff_ne_zero]

end RowBelow

/-- The node itself, if it is an unbroken row. -/
def Node.ownRows : Node → List RowBelow
  | .row atoms => [⟨0, atoms⟩]
  | _ => []

/-- A sum over the node itself, if it is a row, where a row without a score counts nothing. -/
theorem Node.sum_ownRows (node : Node) {f : Nat → Nat → Rat} (hf : ∀ distance, f 0 distance = 0) :
    (node.ownRows.map fun row => f row.score row.distance).sum = f node.exhaustionScore 0 := by
  cases node with
  | row atoms => simp [ownRows, exhaustionScore, RowBelow.score]
  | _ => simp [ownRows, exhaustionScore, hf]

namespace Outline

mutual

/-- The unbroken rows in an outline, the root included. -/
def rows : Outline → List RowBelow
  | .node label children => label.ownRows ++ (rowsOfParts children).map RowBelow.deeper

/-- The unbroken rows in several outlines. -/
def rowsOfParts : List Outline → List RowBelow
  | [] => []
  | child :: children => rows child ++ rowsOfParts children

end

/-- The effect of the root of an outline: each row in it counts with its score over the square of
its distance, where the distance is counted from one. -/
def effect (outline : Outline) : Rat := (outline.rows.map RowBelow.effect).sum

theorem rows_node (label : Node) (children : List Outline) :
    rows (.node label children) =
      label.ownRows ++ (rowsOfParts children).map RowBelow.deeper := by
  rw [rows]

@[simp] theorem rowsOfParts_nil : rowsOfParts [] = [] := by
  rw [rowsOfParts]

@[simp] theorem rowsOfParts_cons (child : Outline) (children : List Outline) :
    rowsOfParts (child :: children) = rows child ++ rowsOfParts children := by
  rw [rowsOfParts]

/-- An outline has an effect just when a row in it has a score. -/
theorem effect_pos_iff (outline : Outline) :
    0 < outline.effect ↔ ∃ row ∈ outline.rows, row.score ≠ 0 := by
  constructor
  · intro hpos
    by_contra hnone
    have hzero : ∀ effect ∈ outline.rows.map RowBelow.effect, effect = 0 := by
      intro effect heffect
      obtain ⟨row, hrow, rfl⟩ := List.mem_map.mp heffect
      have hscore : row.score = 0 := by
        by_contra hscore
        exact hnone ⟨row, hrow, hscore⟩
      simp [RowBelow.effect, hscore]
    exact hpos.ne' (List.sum_eq_zero hzero)
  · rintro ⟨row, hrow, hscore⟩
    have hnonneg : ∀ effect ∈ outline.rows.map RowBelow.effect, 0 ≤ effect := by
      intro effect heffect
      obtain ⟨row, -, rfl⟩ := List.mem_map.mp heffect
      exact row.effect_nonneg
    have hle := List.single_le_sum hnonneg row.effect (List.mem_map_of_mem hrow)
    exact (row.effect_pos_iff.mpr hscore).trans_le hle

end Outline

/-! ## The table as a map -/

namespace EffectTable

/-- The numbers of the nodes whose effect has come up. -/
def ids {α : Type} [Scalar α] (table : EffectTable α) : List Nat := table.entries.map Prod.fst

/-- What holds of the table from the beginning to the end. -/
structure Lawful (table : EffectTable Rat) : Prop where
  /-- The numbers ascend, so each comes up once. -/
  ascending : table.ids.Pairwise (· < ·)
  /-- Only what has an effect comes up. -/
  positive : ∀ entry ∈ table.entries, 0 < entry.2

theorem lawful_empty : Lawful ⟨[]⟩ where
  ascending := .nil
  positive := nofun

section

variable {entries : List (Nat × Rat)} {value : Rat}

theorem mem_ids_addTo {id other : Nat} :
    other ∈ (addTo id value entries).map Prod.fst ↔ other = id ∨ other ∈ entries.map Prod.fst := by
  induction entries with
  | nil => simp [addTo]
  | cons entry entries ih =>
    obtain ⟨first, effect⟩ := entry
    rw [addTo]
    split_ifs with hsame hbefore
    · simp [hsame]
    · simp
    · rw [List.map_cons, List.mem_cons, ih]
      simp [or_left_comm]

theorem ascending_addTo {id : Nat} (hentries : (entries.map Prod.fst).Pairwise (· < ·)) :
    ((addTo id value entries).map Prod.fst).Pairwise (· < ·) := by
  induction entries with
  | nil => simp [addTo]
  | cons entry entries ih =>
    obtain ⟨first, effect⟩ := entry
    obtain ⟨hfirst, hrest⟩ := List.pairwise_cons.mp hentries
    rw [addTo]
    split_ifs with hsame hbefore
    · exact hentries
    · refine List.pairwise_cons.mpr ⟨fun other hother => ?_, hentries⟩
      rcases List.mem_cons.mp hother with rfl | hother
      · exact hbefore
      · exact hbefore.trans (hfirst other hother)
    · refine List.pairwise_cons.mpr ⟨fun other hother => ?_, ih hrest⟩
      rcases mem_ids_addTo.mp hother with rfl | hother
      · dsimp only
        omega
      · exact hfirst other hother

end

theorem get_nil (id : Nat) : get (⟨[]⟩ : EffectTable Rat) id = 0 := rfl

theorem get_cons (first : Nat) (effect : Rat) (entries : List (Nat × Rat)) (id : Nat) :
    get ⟨(first, effect) :: entries⟩ id = if id = first then effect else get ⟨entries⟩ id := by
  by_cases hid : id = first
  · simp [get, hid]
  · have hne : (id == first) = false := beq_false_of_ne hid
    simp [get, List.lookup_cons, hid, hne]

theorem get_of_not_mem {table : EffectTable Rat} {id : Nat} (hid : id ∉ table.ids) :
    table.get id = 0 := by
  obtain ⟨entries⟩ := table
  induction entries with
  | nil => rfl
  | cons entry entries ih =>
    obtain ⟨first, effect⟩ := entry
    rw [get_cons, if_neg (List.ne_of_not_mem_cons hid)]
    exact ih (List.not_mem_of_not_mem_cons hid)

variable {table : EffectTable Rat}

/-- What is added to the effect of one node changes no other effect. -/
theorem Lawful.get_add (htable : table.Lawful) (id other : Nat) (value : Rat) :
    (table.add id value).get other = table.get other + if id = other then value else 0 := by
  have hascending := htable.ascending
  clear htable
  obtain ⟨entries⟩ := table
  unfold add
  dsimp only
  induction entries with
  | nil =>
    rw [addTo, get_cons, get_nil, zero_add]
    exact if_congr eq_comm (zero_add value) rfl
  | cons entry entries ih =>
    obtain ⟨first, effect⟩ := entry
    obtain ⟨hfirst, hrest⟩ := List.pairwise_cons.mp hascending
    rw [addTo]
    by_cases hsame : id = first
    · rw [if_pos hsame, get_cons, get_cons, hsame]
      by_cases hother : other = first
      · rw [if_pos hother, if_pos hother, if_pos hother.symm]
      · rw [if_neg hother, if_neg hother, if_neg (Ne.symm hother), add_zero]
    by_cases hbefore : id < first
    · -- The number comes before all that are there.
      rw [if_neg hsame, if_pos hbefore, get_cons]
      by_cases hother : other = id
      · have hnot : id ∉ ids (⟨(first, effect) :: entries⟩ : EffectTable Rat) := by
          intro hmem
          rcases List.mem_cons.mp hmem with rfl | hmem
          · exact hsame rfl
          · exact (hbefore.trans (hfirst id hmem)).ne rfl
        rw [if_pos hother, if_pos hother.symm, hother, get_of_not_mem hnot]
        rfl
      · rw [if_neg hother, if_neg (Ne.symm hother), add_zero]
    · rw [if_neg hsame, if_neg hbefore, get_cons, get_cons, ih hrest]
      by_cases hother : other = first
      · rw [if_pos hother, if_pos hother, hother, if_neg hsame, add_zero]
      · rw [if_neg hother, if_neg hother]

theorem Lawful.add (htable : table.Lawful) (id : Nat) {value : Rat} (hvalue : 0 < value) :
    (table.add id value).Lawful where
  ascending := ascending_addTo htable.ascending
  positive := by
    have hpositive := htable.positive
    obtain ⟨entries⟩ := table
    unfold EffectTable.add
    dsimp only at hpositive ⊢
    clear htable
    induction entries with
    | nil => simpa [addTo, Scalar.zero] using hvalue
    | cons entry entries ih =>
      obtain ⟨hentry, hrest⟩ := List.forall_mem_cons.mp hpositive
      rw [addTo]
      split_ifs
      · exact List.forall_mem_cons.mpr ⟨add_pos hentry hvalue, hrest⟩
      · refine List.forall_mem_cons.mpr ⟨?_, hpositive⟩
        simpa [Scalar.zero] using hvalue
      · exact List.forall_mem_cons.mpr ⟨hentry, ih hrest⟩

/-- A node comes up just when it has an effect. -/
theorem Lawful.mem_ids_iff (htable : table.Lawful) (id : Nat) :
    id ∈ table.ids ↔ 0 < table.get id := by
  constructor
  · intro hid
    obtain ⟨entries⟩ := table
    have hpositive := htable.positive
    clear htable
    induction entries with
    | nil => cases hid
    | cons entry entries ih =>
      obtain ⟨first, effect⟩ := entry
      obtain ⟨hentry, hrest⟩ := List.forall_mem_cons.mp hpositive
      rw [get_cons]
      split_ifs with hsame
      · exact hentry
      · exact ih ((List.mem_cons.mp hid).resolve_left hsame) hrest
  · intro hpos
    by_contra hid
    exact hpos.ne' (get_of_not_mem hid)

/-! ## Filling the table -/

/-- What a row of the given score adds to the effect of node `id`, by its place on a path, which is
given from the row up, `distance` being that of its first entry. -/
def received (id score : Nat) (distance : Nat) : Path → Rat
  | [] => 0
  | entry :: path =>
    (if entry.id = id then (score : Rat) / (distance : Rat) ^ 2 else 0) +
      received id score (distance + 1) path

theorem received_zero (id distance : Nat) (path : Path) : received id 0 distance path = 0 := by
  induction path generalizing distance with
  | nil => rfl
  | cons entry path ih => simp [received, ih]

/-- What the node at the end of a path adds to the effect of node `id`. -/
def contribution (id : Nat) (path : Path) : Rat :=
  match path.reverse with
  | [] => 0
  | entry :: ancestors => received id entry.node.exhaustionScore 1 (entry :: ancestors)

variable {score distance : Nat}

/-- Spreading a score adds to each node what its place on the path says. -/
theorem Lawful.spread (htable : table.Lawful) (hscore : 0 < score) (hdistance : 0 < distance)
    (path : Path) :
    (table.spread score distance path).Lawful ∧
      ∀ id, (table.spread score distance path).get id =
        table.get id + received id score distance path := by
  induction path generalizing table distance with
  | nil => exact ⟨htable, fun id => (add_zero _).symm⟩
  | cons entry path ih =>
    have hvalue : (0 : Rat) < score / (distance * distance) := by positivity
    obtain ⟨hlawful, hget⟩ := ih (htable.add entry.id hvalue) distance.succ_pos
    refine ⟨hlawful, fun id => ?_⟩
    rw [received, ← add_assoc, pow_two, ← htable.get_add]
    exact hget id

/-- A visit adds what the node at the end of the path adds. -/
theorem Lawful.visit (htable : table.Lawful) (path : Path) :
    (table.visit path).Lawful ∧
      ∀ id, (table.visit path).get id = table.get id + contribution id path := by
  unfold EffectTable.visit contribution
  cases path.reverse with
  | nil => exact ⟨htable, fun id => (add_zero _).symm⟩
  | cons entry ancestors =>
    dsimp only
    split_ifs with hscore
    · refine ⟨htable, fun id => ?_⟩
      rw [hscore, received_zero, add_zero]
    · have hpos : 0 < entry.node.exhaustionScore := Nat.pos_of_ne_zero hscore
      have hvalue : (0 : Rat) < entry.node.exhaustionScore := Nat.cast_pos.mpr hpos
      obtain ⟨hlawful, hget⟩ :=
        (htable.add entry.id hvalue).spread hpos Nat.two_pos ancestors
      refine ⟨hlawful, fun id => ?_⟩
      rw [hget, htable.get_add, received, Nat.cast_one, one_pow, div_one, add_assoc]

/-- Visits add up. -/
theorem Lawful.foldl_visit (htable : table.Lawful) (paths : List Path) :
    (paths.foldl EffectTable.visit table).Lawful ∧
      ∀ id, (paths.foldl EffectTable.visit table).get id =
        table.get id + (paths.map (contribution id)).sum := by
  induction paths generalizing table with
  | nil => exact ⟨htable, fun id => (add_zero _).symm⟩
  | cons path paths ih =>
    obtain ⟨hvisit, hget⟩ := htable.visit path
    obtain ⟨hlawful, hrest⟩ := ih hvisit
    refine ⟨hlawful, fun id => ?_⟩
    rw [List.foldl_cons, hrest, hget, List.map_cons, List.sum_cons, add_assoc]

end EffectTable

/-! ## The paths of an outline -/

namespace Outline

open EffectTable (received contribution)

/-- The effect of the part with the number `id`, where the parts are numbered from `first`; zero if
there is none. -/
def effectAt (id first : Nat) : List (Option Node × Outline) → Rat
  | [] => 0
  | part :: parts => (if first = id then part.2.effect else 0) + effectAt id (first + 1) parts

theorem effectAt_append (id first : Nat) (parts others : List (Option Node × Outline)) :
    effectAt id first (parts ++ others) =
      effectAt id first parts + effectAt id (first + parts.length) others := by
  induction parts generalizing first with
  | nil => simp [effectAt]
  | cons part parts ih =>
    rw [List.cons_append, effectAt, effectAt, ih, List.length_cons, ← add_assoc,
      Nat.add_assoc first, Nat.add_comm 1]

theorem effectAt_of_lt {id first : Nat} (hid : id < first)
    (parts : List (Option Node × Outline)) : effectAt id first parts = 0 := by
  induction parts generalizing first with
  | nil => rfl
  | cons part parts ih => rw [effectAt, if_neg hid.ne', ih (Nat.lt_succ_of_lt hid), add_zero]

theorem effectAt_add (place first : Nat) (parts : List (Option Node × Outline)) :
    effectAt (first + place) first parts =
      ((parts[place]?).map fun part => part.2.effect).getD 0 := by
  induction parts generalizing place first with
  | nil => rfl
  | cons part parts ih =>
    cases place with
    | zero => simp [effectAt, effectAt_of_lt]
    | succ place =>
      have hne : first ≠ first + (place + 1) := by omega
      rw [effectAt, if_neg hne, zero_add, List.getElem?_cons_succ, ← ih place (first + 1)]
      congr 1
      omega

/-- What the rows below a node add to the effect of node `id`, through the path that leads to the
node, given from the node up. -/
def passedOn (id : Nat) (rows : List RowBelow) (path : Path) : Rat :=
  (rows.map fun row => received id row.score (row.distance + 1) path).sum

theorem passedOn_append (id : Nat) (rows others : List RowBelow) (path : Path) :
    passedOn id (rows ++ others) path = passedOn id rows path + passedOn id others path := by
  simp [passedOn]

/-- The rows add their effects to the node itself, and from one edge further up they are passed on
to the nodes above it. -/
theorem passedOn_cons (id : Nat) (rows : List RowBelow) (entry : PathEntry) (path : Path) :
    passedOn id rows (entry :: path) =
      (if entry.id = id then (rows.map RowBelow.effect).sum else 0) +
        passedOn id (rows.map RowBelow.deeper) path := by
  unfold passedOn
  simp only [received, List.map_map]
  rw [List.sum_map_add]
  congr 1
  split_ifs
  · exact congrArg List.sum (List.map_congr_left fun row _ => by simp [RowBelow.effect])
  · exact List.sum_map_zero

/-- A path passes on the row at its end, if there is one. -/
theorem contribution_append_singleton (id : Nat) (ancestors : Path) (entry : PathEntry) :
    contribution id (ancestors ++ [entry]) =
      passedOn id entry.node.ownRows (entry :: ancestors.reverse) := by
  have hsum := entry.node.sum_ownRows
    (f := fun score distance => received id score (distance + 1) (entry :: ancestors.reverse))
    fun distance => EffectTable.received_zero id (distance + 1) _
  rw [passedOn, hsum, contribution, List.reverse_append]
  rfl

mutual

/-- Each path of an outline adds to the nodes of the outline what is their effect, and to the nodes
above it what its rows pass on. -/
theorem sum_pathsUnder (id : Nat) (parent : Option Node) : (outline : Outline) →
    (ancestors : Path) → (first : Nat) →
      ((pathsUnder ancestors first outline).1.map (contribution id)).sum =
        passedOn id (outline.rows.map RowBelow.deeper) ancestors.reverse +
          effectAt id first (preorderUnder parent outline)
  | .node label children, ancestors, first => by
    have hparts := sum_pathsOfParts id label children (ancestors ++ [⟨first, label⟩]) (first + 1)
    have hself := contribution_append_singleton id ancestors ⟨first, label⟩
    rw [List.reverse_append] at hparts
    calc ((pathsUnder ancestors first (.node label children)).1.map (contribution id)).sum
        = passedOn id (rows (.node label children)) (⟨first, label⟩ :: ancestors.reverse) +
            effectAt id (first + 1) (preorderOfParts label children) := by
          rw [pathsUnder_node, List.map_append, List.sum_append, hparts, List.map_singleton,
            List.sum_singleton, hself, rows_node, passedOn_append]
          simp only [List.reverse_singleton, List.singleton_append]
          ring
      _ = _ := by
          rw [passedOn_cons, preorderUnder, effectAt, effect]
          ring

theorem sum_pathsOfParts (id : Nat) (parent : Node) : (children : List Outline) →
    (ancestors : Path) → (first : Nat) →
      ((pathsOfParts ancestors first children).1.map (contribution id)).sum =
        passedOn id ((rowsOfParts children).map RowBelow.deeper) ancestors.reverse +
          effectAt id first (preorderOfParts parent children)
  | [], ancestors, first => by
    simp [pathsOfParts, preorderOfParts, passedOn, effectAt]
  | child :: children, ancestors, first => by
    have hchild := sum_pathsUnder id (some parent) child ancestors first
    have hothers := sum_pathsOfParts id parent children ancestors
      (first + (preorderUnder (some parent) child).length)
    rw [pathsOfParts_cons parent, List.map_append, List.sum_append, hchild, hothers,
      rowsOfParts_cons, List.map_append, passedOn_append, preorderOfParts, effectAt_append]
    exact add_add_add_comm _ _ _ _

end

end Outline

/-! ## Effects of a query -/

/-- The table of the effects of a query, over the rationals. The node with the number `id` has the
sum over all unbroken rows in it of their scores over the squares of their distances, where the
distance to the row itself is one, and it comes up in the table just when such a row has a score. A
number that no node has does not come up, and its effect is zero. -/
theorem EffectTable.get_ofQuery (query : Query) (id : Nat) :
    let table : EffectTable Rat := .ofQuery query
    match query.outline.preorder[id]? with
    | some (_, part) =>
      table.get id = (part.rows.map fun row =>
        (Regex.exhaustionScore row.atoms : Rat) / (row.distance + 1) ^ 2).sum ∧
      (id ∈ table.ids ↔ ∃ row ∈ part.rows, Regex.exhaustionScore row.atoms ≠ 0)
    | none => table.get id = 0 ∧ id ∉ table.ids := by
  intro table
  obtain ⟨hlawful, hget⟩ := lawful_empty.foldl_visit query.outline.paths
  have heffect : table.get id =
      ((query.outline.preorder[id]?).map fun part => part.2.effect).getD 0 := by
    have hsum := Outline.sum_pathsUnder id none query.outline [] 0
    have habove : Outline.passedOn id (query.outline.rows.map RowBelow.deeper) [] = 0 :=
      List.sum_map_zero
    rw [List.reverse_nil, habove, zero_add] at hsum
    have hplace := Outline.effectAt_add id 0 query.outline.preorder
    rw [Nat.zero_add] at hplace
    have hpaths := hget id
    rw [get_nil, zero_add] at hpaths
    exact hpaths.trans (hsum.trans hplace)
  have hids : id ∈ table.ids ↔ 0 < table.get id := hlawful.mem_ids_iff id
  rw [hids, heffect]
  cases query.outline.preorder[id]? with
  | none => exact ⟨rfl, lt_irrefl _⟩
  | some entry => exact ⟨rfl, entry.2.effect_pos_iff⟩

/-- A row that begins with a repeated wildcard, the node above it, the query, and a node in the
row. -/
example :
    ((Query.parse "\".*N\"").toOption.map fun query =>
      [9, 8, 0, 10].map (EffectTable.ofQuery query : EffectTable Rat).get) =
      some [40, 10, 2 / 5, 0] := by decide +kernel

end CorpusCost
