import Mathlib.Algebra.Order.Ring.Rat
import Mathlib.Tactic.Linarith
import CorpusCost.Proofs.CompilerCorrectness

/-!
# Which way a weight moves a score

A place where a program reads a slot lies under some number of negated conditions. Sums, products
and caps of numbers that are not negative never fall when a part rises; the complement at a negated
condition turns the direction round. So a score never falls when a weight is raised that is read
under even numbers of negations alone, and never rises when it is read under odd ones alone.

The places are found by the recursion that makes the template, and they are the constants of the
template in the order of the program (`map_slot_readings`). The factors that scale a negated
condition are emitted before its complement, so they lie under it too. The score is read over the
rationals.
-/

set_option autoImplicit false

namespace CorpusCost

open Machine

/-! ## Places where a slot is read -/

/-- A place in a program where a slot is read. -/
structure Reading where
  /-- The slot. -/
  slot : Slot
  /-- How many negated conditions the place lies under. -/
  negations : Nat
  deriving DecidableEq, Repr

namespace Reading

/-- A place under no negated condition. -/
def direct (slot : Slot) : Reading := ⟨slot, 0⟩

/-- The same place, seen from a node above it. -/
def within (node : Node) (reading : Reading) : Reading :=
  if node.isNegation then { reading with negations := reading.negations + 1 } else reading

theorem within_of_not_negation {node : Node} (hnode : node.isNegation = false) :
    within node = id := by
  funext reading
  simp [within, hnode]

@[simp] theorem slot_direct (slot : Slot) : (direct slot).slot = slot := rfl

@[simp] theorem slot_within (node : Node) (reading : Reading) :
    (reading.within node).slot = reading.slot := by
  unfold within
  split <;> rfl

/-- Where the value of a run of signs for any character is read, if there is a sign in it. -/
def ofRun : Nat → List (List Reading)
  | 0 => []
  | _ + 1 => [[direct .wildcard]]

end Reading

namespace Node

/-- Where a node reads the constant of its own. -/
def ownReadings (node : Node) : List (List Reading) :=
  node.constant?.toList.map fun slot => [Reading.direct slot]

/-- The slots that scale the value of a node. -/
def scaleSlots (node : Node) : List Slot :=
  (match node.constant?, node.kind.rule.scale with
    | none, some slot => [slot]
    | _, _ => []) ++
    if node.isOnSmallAttribute then [.smallAttribute] else []

/-- The places of a node whose values are read at the given ones; none for an empty line. -/
def readings? (node : Node) : List (List Reading) → Option (List Reading)
  | [] => none
  | first :: parts =>
    some (((first :: parts).flatten ++ node.scaleSlots.map Reading.direct).map
      (Reading.within node))

end Node

namespace Outline

mutual

/-- The places where the program of an outline reads a slot, in the order of the program. -/
def readings? : Outline → Option (List Reading)
  | .node label children =>
    label.readings? <|
      label.ownReadings ++
        if label.kind = .row then rowReadings 0 children else readings children

/-- The places of those parts that have a program. -/
def readings : List Outline → List (List Reading)
  | [] => []
  | child :: children => (readings? child).toList ++ readings children

/-- The places of the parts of an unbroken row, after a run of `length` signs for any character that
is not counted yet. -/
def rowReadings (length : Nat) : List Outline → List (List Reading)
  | [] => Reading.ofRun length
  | child :: children =>
    if child.label.isWildcardSymbol then rowReadings (length + 1) children
    else Reading.ofRun length ++ (readings? child).toList ++ rowReadings 0 children

end

theorem readings?_node (label : Node) (children : List Outline) :
    readings? (.node label children) =
      label.readings? (label.ownReadings ++
        if label.kind = .row then rowReadings 0 children else readings children) := by
  rw [readings?]

@[simp] theorem readings_nil : readings [] = [] := by
  rw [readings]

@[simp] theorem readings_cons (child : Outline) (children : List Outline) :
    readings (child :: children) = (readings? child).toList ++ readings children := by
  rw [readings]

@[simp] theorem rowReadings_nil (length : Nat) : rowReadings length [] = Reading.ofRun length := by
  rw [rowReadings]

theorem rowReadings_wildcard {child : Outline} (length : Nat) (children : List Outline)
    (hchild : child.label.isWildcardSymbol = true) :
    rowReadings length (child :: children) = rowReadings (length + 1) children := by
  rw [rowReadings, if_pos hchild]

theorem rowReadings_other {child : Outline} (length : Nat) (children : List Outline)
    (hchild : child.label.isWildcardSymbol = false) :
    rowReadings length (child :: children) =
      Reading.ofRun length ++ (readings? child).toList ++ rowReadings 0 children := by
  rw [rowReadings, if_neg (by simp [hchild])]

end Outline

/-! ## The places are the constants of the template -/

namespace Template

@[simp] theorem slots_nil : slots [] = [] := rfl

@[simp] theorem slots_append (template other : Template) :
    slots (template ++ other) = slots template ++ slots other := by
  simp [slots]

theorem slots_flatten (templates : List Template) :
    slots templates.flatten = (templates.map slots).flatten := by
  induction templates with
  | nil => rfl
  | cons template templates ih => simp [ih]

end Template

namespace Node

theorem slots_finishing (node : Node) (values : Nat) :
    Template.slots (node.finishing values) = node.scaleSlots := by
  have hcombine : Template.slots
      (List.replicate (values - 1) node.kind.rule.combine.opcode) = [] := by
    unfold Template.slots
    cases node.kind.rule.combine <;> simp [Combine.opcode, Instruction.constant?]
  have hclamp : Template.slots (if node.kind.rule.clamp then [.clamp] else []) = [] := by
    split <;> rfl
  have hnegate : Template.slots (if node.isNegation then [.clamp, .negate] else []) = [] := by
    split <;> rfl
  have hsmall : Template.slots
      (if node.isOnSmallAttribute then Template.scale .smallAttribute else []) =
      if node.isOnSmallAttribute then [.smallAttribute] else [] := by
    split <;> rfl
  unfold finishing scaleSlots
  simp only [Template.slots_append, hcombine, hclamp, hsmall, hnegate, List.nil_append,
    List.append_nil]
  cases node.constant? <;> cases node.kind.rule.scale <;> rfl

theorem slots_ownTemplates (node : Node) :
    node.ownTemplates.map Template.slots = node.ownReadings.map (List.map Reading.slot) := by
  unfold ownTemplates ownReadings
  cases node.constant? <;> rfl

/-- The places of a node are the constants of its template if those of its parts are. -/
theorem slots_template? (node : Node) {templates : List Template} {line : List (List Reading)}
    (hline : templates.map Template.slots = line.map (List.map Reading.slot)) :
    (node.template? templates).map Template.slots =
      (node.readings? line).map (List.map Reading.slot) := by
  cases line with
  | nil =>
    obtain rfl : templates = [] := by simpa using hline
    rfl
  | cons first parts =>
    obtain ⟨template, others, rfl, -⟩ := List.map_eq_cons_iff.mp hline
    have hflatten := congrArg List.flatten hline
    rw [← Template.slots_flatten, ← List.map_flatten] at hflatten
    simp only [template?, readings?, Option.map_some, Template.slots_append, hflatten,
      slots_finishing, List.map_map, List.map_append]
    simp [Function.comp_def]

/-- The cost of a node as a chain of steps: combined, capped, scaled by one slot after the other, and
complemented. -/
theorem costOf_eq {α : Type} [Scalar α] (node : Node) (weights : Weights α) (value : α)
    (values : List α) :
    node.costOf weights value values =
      let combined := node.kind.rule.combine.fold value values
      let capped := if node.kind.rule.clamp then Scalar.cap combined else combined
      let scaled := node.scaleSlots.foldl (fun value slot => value * weights.get slot) capped
      if node.isNegation then Scalar.complement (Scalar.cap scaled) else scaled := by
  unfold costOf scaleSlots
  dsimp only
  cases node.constant? <;> cases node.kind.rule.scale <;> cases node.isOnSmallAttribute <;> rfl

end Node

theorem Template.slots_ofRun (length : Nat) :
    (Template.ofRun length).map Template.slots =
      (Reading.ofRun length).map (List.map Reading.slot) := by
  cases length <;> rfl

namespace Outline

mutual

/-- The slots read at the places of an outline are those of its template, in their order. -/
theorem map_slot_readings : ∀ outline : Outline,
    outline.template?.map Template.slots = outline.readings?.map (List.map Reading.slot)
  | .node label children => by
    rw [template?_node, readings?_node]
    refine label.slots_template? ?_
    rw [List.map_append, List.map_append, label.slots_ownTemplates]
    congr 1
    split
    · exact map_slot_rowReadings 0 children
    · exact map_slot_readingsOfParts children

theorem map_slot_readingsOfParts : ∀ children : List Outline,
    (templates children).map Template.slots = (readings children).map (List.map Reading.slot)
  | [] => by simp
  | child :: children => by
    have hchild := congrArg Option.toList (map_slot_readings child)
    rw [Option.toList_map, Option.toList_map] at hchild
    rw [templates_cons, readings_cons, List.map_append, List.map_append, hchild,
      map_slot_readingsOfParts children]

theorem map_slot_rowReadings (length : Nat) : ∀ children : List Outline,
    (rowTemplates length children).map Template.slots =
      (rowReadings length children).map (List.map Reading.slot)
  | [] => by
    rw [rowTemplates_nil, rowReadings_nil, Template.slots_ofRun]
  | child :: children => by
    cases hchild : child.label.isWildcardSymbol with
    | true =>
      rw [rowTemplates_wildcard length children hchild,
        rowReadings_wildcard length children hchild]
      exact map_slot_rowReadings (length + 1) children
    | false =>
      have hpart := congrArg Option.toList (map_slot_readings child)
      rw [Option.toList_map, Option.toList_map] at hpart
      rw [rowTemplates_other length children hchild, rowReadings_other length children hchild]
      simp only [List.map_append, Template.slots_ofRun, hpart, map_slot_rowReadings 0 children]

end

end Outline

/-! ## Arithmetic over the rationals -/

namespace Weights

/-- Whether no weight is below zero. -/
def Nonnegative (weights : Weights Rat) : Prop := ∀ slot, 0 ≤ weights.get slot

theorem Nonnegative.set {weights : Weights Rat} (hweights : weights.Nonnegative) {slot : Slot}
    {value : Rat} (hvalue : 0 ≤ value) : (weights.set slot value).Nonnegative := by
  intro other
  rw [get_set]
  split
  · exact hvalue
  · exact hweights other

end Weights

theorem WildcardRun.probability_nonneg (length : Nat) : (0 : Rat) ≤ probability length := by
  have htable : ∀ factor ∈ (table : List Rat), 0 ≤ factor := by decide +kernel
  cases length with
  | zero => exact le_refl (0 : Rat)
  | succ n =>
    change (0 : Rat) ≤ (table[n]?).getD longRun
    cases hfactor : (table : List Rat)[n]? with
    | none => exact (by decide +kernel : (0 : Rat) ≤ longRun)
    | some factor => exact htable factor (List.mem_of_getElem? hfactor)

theorem Scalar.cap_eq_min (x : Rat) : Scalar.cap x = min x 1 := by
  change (if x < 1 then x else 1) = min x 1
  rcases lt_or_ge x 1 with h | h
  · rw [if_pos h, min_eq_left h.le]
  · rw [if_neg h.not_gt, min_eq_right h]

/-! ## Costs that move with their places -/

/-- Whether weights that go from `low` to `high` move the place in the direction of the score: up
under an even number of negations, down under an odd one. -/
def Reading.Rises (low high : Weights Rat) (reading : Reading) : Prop :=
  (Even reading.negations → low.get reading.slot ≤ high.get reading.slot) ∧
    (Odd reading.negations → high.get reading.slot ≤ low.get reading.slot)

theorem Reading.rises_direct {low high : Weights Rat} {slot : Slot} :
    (Reading.direct slot).Rises low high ↔ low.get slot ≤ high.get slot := by
  simp [Rises, direct]

/-- A negated condition turns the direction round. -/
theorem Reading.rises_within {low high : Weights Rat} {reading : Reading} {node : Node}
    (hnode : node.isNegation = true) :
    (reading.within node).Rises low high ↔ reading.Rises high low := by
  simp only [within, hnode, if_true, Rises, Nat.even_add_one, Nat.odd_add_one, Nat.not_even_iff_odd,
    Nat.not_odd_iff_even]
  exact and_comm

/-- The costs of one part under two vectors of weights, where they stand to each other as the places
of the part say. -/
structure Tracks (low high : Weights Rat) (places : List Reading) (x y : Rat) : Prop where
  nonneg_left : 0 ≤ x
  nonneg_right : 0 ≤ y
  rises : (∀ place ∈ places, place.Rises low high) → x ≤ y
  falls : (∀ place ∈ places, place.Rises high low) → y ≤ x

namespace Tracks

variable {low high : Weights Rat} {places others : List Reading} {x y z w : Rat}

theorem get (hlow : low.Nonnegative) (hhigh : high.Nonnegative) (slot : Slot) :
    Tracks low high [.direct slot] (low.get slot) (high.get slot) where
  nonneg_left := hlow slot
  nonneg_right := hhigh slot
  rises h := Reading.rises_direct.mp (h (.direct slot) (by simp))
  falls h := Reading.rises_direct.mp (h (.direct slot) (by simp))

theorem const {value : Rat} (hvalue : 0 ≤ value) : Tracks low high [] value value where
  nonneg_left := hvalue
  nonneg_right := hvalue
  rises _ := le_refl value
  falls _ := le_refl value

theorem add (hfirst : Tracks low high places x y) (hsecond : Tracks low high others z w) :
    Tracks low high (places ++ others) (x + z) (y + w) where
  nonneg_left := add_nonneg hfirst.nonneg_left hsecond.nonneg_left
  nonneg_right := add_nonneg hfirst.nonneg_right hsecond.nonneg_right
  rises h := add_le_add (hfirst.rises fun place hplace => h place (by simp [hplace]))
    (hsecond.rises fun place hplace => h place (by simp [hplace]))
  falls h := add_le_add (hfirst.falls fun place hplace => h place (by simp [hplace]))
    (hsecond.falls fun place hplace => h place (by simp [hplace]))

theorem mul (hfirst : Tracks low high places x y) (hsecond : Tracks low high others z w) :
    Tracks low high (places ++ others) (x * z) (y * w) where
  nonneg_left := mul_nonneg hfirst.nonneg_left hsecond.nonneg_left
  nonneg_right := mul_nonneg hfirst.nonneg_right hsecond.nonneg_right
  rises h := mul_le_mul (hfirst.rises fun place hplace => h place (by simp [hplace]))
    (hsecond.rises fun place hplace => h place (by simp [hplace])) hsecond.nonneg_left
    hfirst.nonneg_right
  falls h := mul_le_mul (hfirst.falls fun place hplace => h place (by simp [hplace]))
    (hsecond.falls fun place hplace => h place (by simp [hplace])) hsecond.nonneg_right
    hfirst.nonneg_left

theorem apply (combine : Combine) (hfirst : Tracks low high places x y)
    (hsecond : Tracks low high others z w) :
    Tracks low high (places ++ others) (combine.apply x z) (combine.apply y w) := by
  cases combine with
  | add => exact hfirst.add hsecond
  | multiply => exact hfirst.mul hsecond

theorem cap (htracks : Tracks low high places x y) :
    Tracks low high places (Scalar.cap x) (Scalar.cap y) where
  nonneg_left := by
    rw [Scalar.cap_eq_min]
    exact le_min htracks.nonneg_left zero_le_one
  nonneg_right := by
    rw [Scalar.cap_eq_min]
    exact le_min htracks.nonneg_right zero_le_one
  rises h := by
    rw [Scalar.cap_eq_min, Scalar.cap_eq_min]
    exact min_le_min_right 1 (htracks.rises h)
  falls h := by
    rw [Scalar.cap_eq_min, Scalar.cap_eq_min]
    exact min_le_min_right 1 (htracks.falls h)

/-- The complement of a capped value moves against it, and the negated condition counts for one more
negation. -/
theorem complement {node : Node} (hnode : node.isNegation = true)
    (htracks : Tracks low high places x y) :
    Tracks low high (places.map (Reading.within node))
      (Scalar.complement (Scalar.cap x)) (Scalar.complement (Scalar.cap y)) where
  nonneg_left := by
    rw [Scalar.cap_eq_min]
    exact sub_nonneg.mpr (min_le_right x 1)
  nonneg_right := by
    rw [Scalar.cap_eq_min]
    exact sub_nonneg.mpr (min_le_right y 1)
  rises h := by
    have hturned : ∀ place ∈ places, place.Rises high low := fun place hplace =>
      (Reading.rises_within hnode).mp (h _ (List.mem_map_of_mem hplace))
    exact sub_le_sub_left (htracks.cap.falls hturned) 1
  falls h := by
    have hturned : ∀ place ∈ places, place.Rises low high := fun place hplace =>
      (Reading.rises_within hnode).mp (h _ (List.mem_map_of_mem hplace))
    exact sub_le_sub_left (htracks.cap.rises hturned) 1

theorem cap_if (clamp : Bool) (htracks : Tracks low high places x y) :
    Tracks low high places (if clamp then Scalar.cap x else x)
      (if clamp then Scalar.cap y else y) := by
  split
  · exact htracks.cap
  · exact htracks

/-- What a node makes of a value at last: it is complemented where the node negates. -/
theorem complement_if (node : Node) (htracks : Tracks low high places x y) :
    Tracks low high (places.map (Reading.within node))
      (if node.isNegation then Scalar.complement (Scalar.cap x) else x)
      (if node.isNegation then Scalar.complement (Scalar.cap y) else y) := by
  cases hnode : node.isNegation with
  | true => exact htracks.complement hnode
  | false => simpa [Reading.within_of_not_negation hnode] using htracks

end Tracks

/-- The costs of the parts in a line under two vectors of weights, each part with its places. -/
inductive TracksAll (low high : Weights Rat) :
    List (List Reading) → List Rat → List Rat → Prop where
  | nil : TracksAll low high [] [] []
  | cons {places : List Reading} {x y : Rat} {line : List (List Reading)} {xs ys : List Rat}
      (head : Tracks low high places x y) (tail : TracksAll low high line xs ys) :
      TracksAll low high (places :: line) (x :: xs) (y :: ys)

section

variable {low high : Weights Rat}

theorem TracksAll.singleton {places : List Reading} {x y : Rat}
    (htracks : Tracks low high places x y) : TracksAll low high [places] [x] [y] :=
  .cons htracks .nil

theorem TracksAll.append {line others : List (List Reading)} {xs ys zs ws : List Rat}
    (hfirst : TracksAll low high line xs ys) (hsecond : TracksAll low high others zs ws) :
    TracksAll low high (line ++ others) (xs ++ zs) (ys ++ ws) := by
  induction hfirst with
  | nil => exact hsecond
  | cons head _ ih => exact .cons head ih

/-- The sum or product of the values in a line moves with the places of all of them. -/
theorem TracksAll.fold (combine : Combine) {places : List Reading} {x y : Rat}
    {line : List (List Reading)} {xs ys : List Rat} (head : Tracks low high places x y)
    (tail : TracksAll low high line xs ys) :
    Tracks low high (places :: line).flatten (combine.fold x xs) (combine.fold y ys) := by
  induction tail generalizing places x y with
  | nil => simpa [Combine.fold] using head
  | cons next _ ih => exact head.apply combine (ih next)

variable (hlow : low.Nonnegative) (hhigh : high.Nonnegative)

include hlow hhigh

theorem tracksAll_ownValues (node : Node) :
    TracksAll low high node.ownReadings (node.ownValues low) (node.ownValues high) := by
  unfold Node.ownReadings Node.ownValues
  cases node.constant? with
  | none => exact .nil
  | some slot => exact .singleton (.get hlow hhigh slot)

theorem tracksAll_runValue (length : Nat) :
    TracksAll low high (Reading.ofRun length) (low.runValue length) (high.runValue length) := by
  cases length with
  | zero => exact .nil
  | succ length =>
    refine .singleton ?_
    simpa using (Tracks.get hlow hhigh .wildcard).mul
      (Tracks.const (WildcardRun.probability_nonneg (length + 1)))

/-- What scales a value moves it with its own places. -/
theorem Tracks.scale {places : List Reading} {x y : Rat} (htracks : Tracks low high places x y)
    (slots : List Slot) :
    Tracks low high (places ++ slots.map Reading.direct)
      (slots.foldl (fun value slot => value * low.get slot) x)
      (slots.foldl (fun value slot => value * high.get slot) y) := by
  induction slots generalizing places x y with
  | nil => simpa using htracks
  | cons slot slots ih => simpa using ih (htracks.mul (.get hlow hhigh slot))

/-- The cost of a node moves with its places if the values of its parts move with theirs. -/
theorem tracksAll_node (node : Node) {line : List (List Reading)} {xs ys : List Rat}
    (hline : TracksAll low high line xs ys) :
    TracksAll low high (node.readings? line).toList (node.cost? low xs).toList
      (node.cost? high ys).toList := by
  cases hline with
  | nil => exact .nil
  | @cons places x y line xs ys head tail =>
    refine .singleton ?_
    have hcombined := TracksAll.fold node.kind.rule.combine head tail
    have hscaled := (hcombined.cap_if node.kind.rule.clamp).scale hlow hhigh node.scaleSlots
    rw [node.costOf_eq, node.costOf_eq]
    exact hscaled.complement_if node

end

section

variable {low high : Weights Rat}

mutual

/-- The cost of an outline moves with the places where its program reads a slot. -/
theorem tracksAll_outline (hlow : low.Nonnegative) (hhigh : high.Nonnegative) :
    ∀ outline : Outline,
    TracksAll low high outline.readings?.toList (outline.cost low).toList
      (outline.cost high).toList
  | .node label children => by
    rw [Outline.readings?_node, Outline.cost_node, Outline.cost_node]
    refine tracksAll_node hlow hhigh label ((tracksAll_ownValues hlow hhigh label).append ?_)
    split
    · exact tracksAll_rowCosts hlow hhigh 0 children
    · exact tracksAll_costs hlow hhigh children

theorem tracksAll_costs (hlow : low.Nonnegative) (hhigh : high.Nonnegative) :
    ∀ children : List Outline,
    TracksAll low high (Outline.readings children) (Outline.costs low children)
      (Outline.costs high children)
  | [] => by
    rw [Outline.readings_nil, Outline.costs_nil, Outline.costs_nil]
    exact .nil
  | child :: children => by
    rw [Outline.readings_cons, Outline.costs_cons, Outline.costs_cons]
    exact (tracksAll_outline hlow hhigh child).append (tracksAll_costs hlow hhigh children)

theorem tracksAll_rowCosts (hlow : low.Nonnegative) (hhigh : high.Nonnegative) (length : Nat) :
    ∀ children : List Outline,
    TracksAll low high (Outline.rowReadings length children)
      (Outline.rowCosts low length children) (Outline.rowCosts high length children)
  | [] => by
    rw [Outline.rowReadings_nil, Outline.rowCosts_nil, Outline.rowCosts_nil]
    exact tracksAll_runValue hlow hhigh length
  | child :: children => by
    cases hchild : child.label.isWildcardSymbol with
    | true =>
      rw [Outline.rowReadings_wildcard length children hchild,
        Outline.rowCosts_wildcard low length children hchild,
        Outline.rowCosts_wildcard high length children hchild]
      exact tracksAll_rowCosts hlow hhigh (length + 1) children
    | false =>
      rw [Outline.rowReadings_other length children hchild,
        Outline.rowCosts_other low length children hchild,
        Outline.rowCosts_other high length children hchild]
      exact ((tracksAll_runValue hlow hhigh length).append (tracksAll_outline hlow hhigh child)).append
        (tracksAll_rowCosts hlow hhigh 0 children)

end

end

/-! ## Raising one weight -/

/-- The places where the program of a query reads a slot, in the order of the program. -/
def Query.readings (query : Query) : List Reading :=
  query.outline.readings?.toList.flatten

/-- The places of a query are the constants that its program pushes, in their order. -/
theorem Query.map_slot_readings {query : Query} {template : Template}
    (htemplate : query.outline.template? = some template) :
    query.readings.map Reading.slot = template.slots := by
  have hslots := query.outline.map_slot_readings
  rw [htemplate, Option.map_some] at hslots
  obtain ⟨places, hplaces, hmap⟩ := Option.map_eq_some_iff.mp hslots.symm
  simpa [readings, hplaces] using hmap

/-- The factor for an attribute with few values is emitted before the complement of its condition. -/
example :
    ((Query.parse "[tag!=\"N\" | word=\"a\"]").toOption.map fun query =>
      query.readings.filter fun place => place.slot = .symbol ∨ place.slot = .smallAttribute) =
      some [⟨.symbol, 1⟩, ⟨.smallAttribute, 1⟩, ⟨.symbol, 0⟩] := by decide +kernel

/-- The costs of a query under two vectors of weights stand to each other as its places say. -/
theorem Query.tracks_cost {query : Query} {low high : Weights Rat} (hlow : low.Nonnegative)
    (hhigh : high.Nonnegative) {x y : Rat} (hx : query.outline.cost low = some x)
    (hy : query.outline.cost high = some y) : Tracks low high query.readings x y := by
  have htracks := tracksAll_outline hlow hhigh query.outline
  rw [hx, hy] at htracks
  unfold Query.readings
  cases hplaces : query.outline.readings? with
  | none =>
    rw [hplaces] at htracks
    cases htracks
  | some places =>
    rw [hplaces] at htracks
    cases htracks with
    | cons head _ => simpa using head

/-- A query with a template has a cost under all weights, and its program leaves just the cost. -/
theorem Query.exists_run (query : Query) {template : Template}
    (htemplate : query.outline.template? = some template) (weights : Weights Rat) :
    ∃ value, query.outline.cost weights = some value ∧
      ∀ stack, run (Template.fill weights template) stack = (.ok value, [value]) := by
  have hsome : (query.outline.cost weights).isSome := by
    rw [query.outline.isSome_cost weights, htemplate]
    rfl
  obtain ⟨value, hcost⟩ := Option.isSome_iff_exists.mp hsome
  obtain ⟨program, hcompile, hpush⟩ := query.compile_of_cost_eq_some hcost
  obtain rfl : Template.fill weights template = program := by
    simpa [query.compile_eq_fill weights, htemplate] using hcompile
  refine ⟨value, hcost, fun stack => ?_⟩
  have hexecute : execute (Template.fill weights template) [] = (.ok (), [value]) :=
    (hpush []).executeFrom_eq 0
  simp [run, hexecute, peek]

/-- Weights that differ in one slot alone move the other places in neither direction. -/
theorem Reading.rises_set {weights : Weights Rat} {slot : Slot} {value : Rat}
    (hraise : weights.get slot ≤ value) {reading : Reading}
    (heven : reading.slot = slot → Even reading.negations) :
    reading.Rises weights (weights.set slot value) := by
  unfold Rises
  rw [Weights.get_set]
  split
  case isTrue hslot =>
    have hparity := heven hslot.symm
    refine ⟨fun _ => hslot ▸ hraise, fun hodd => ?_⟩
    exact absurd hparity (Nat.not_even_iff_odd.mpr hodd)
  case isFalse => exact ⟨fun _ => le_refl _, fun _ => le_refl _⟩

theorem Reading.rises_set_of_odd {weights : Weights Rat} {slot : Slot} {value : Rat}
    (hraise : weights.get slot ≤ value) {reading : Reading}
    (hodd : reading.slot = slot → Odd reading.negations) :
    reading.Rises (weights.set slot value) weights := by
  unfold Rises
  rw [Weights.get_set]
  split
  case isTrue hslot =>
    have hparity := hodd hslot.symm
    refine ⟨fun heven => ?_, fun _ => hslot ▸ hraise⟩
    exact absurd heven (Nat.not_even_iff_odd.mpr hparity)
  case isFalse => exact ⟨fun _ => le_refl _, fun _ => le_refl _⟩

/-- A query with a program has one under any weights, and the places of the query are the constants
of this program. A weight that is read under even numbers of negated conditions alone never lowers
the score when it is raised; one that is read under odd numbers alone never raises it. -/
theorem Query.score_monotone {query : Query} {weights : Weights Rat}
    (hweights : weights.Nonnegative) {slot : Slot} {value : Rat}
    (hraise : weights.get slot ≤ value) {program : Program Rat}
    (hcompile : query.compile weights = .ok program) :
    ∃ template raised low high,
      program = Template.fill weights template ∧
      template.slots = query.readings.map Reading.slot ∧
      query.compile (weights.set slot value) = .ok raised ∧
      (∀ stack, run program stack = (.ok low, [low])) ∧
      (∀ stack, run raised stack = (.ok high, [high])) ∧
      ((∀ place ∈ query.readings, place.slot = slot → Even place.negations) → low ≤ high) ∧
      ((∀ place ∈ query.readings, place.slot = slot → Odd place.negations) → high ≤ low) := by
  have hraised : (weights.set slot value).Nonnegative :=
    hweights.set ((hweights slot).trans hraise)
  rw [query.compile_eq_fill weights] at hcompile
  cases htemplate : query.outline.template? with
  | none => simp [htemplate] at hcompile
  | some template =>
    obtain rfl : Template.fill weights template = program := by simpa [htemplate] using hcompile
    obtain ⟨low, hlow, hrun⟩ := query.exists_run htemplate weights
    obtain ⟨high, hhigh, hrunRaised⟩ := query.exists_run htemplate (weights.set slot value)
    have htracks := query.tracks_cost hweights hraised hlow hhigh
    refine ⟨template, Template.fill (weights.set slot value) template, low, high, rfl,
      (query.map_slot_readings htemplate).symm, ?_, hrun, hrunRaised, ?_, ?_⟩
    · rw [query.compile_eq_fill, htemplate]
    · intro heven
      exact htracks.rises fun place hplace => Reading.rises_set hraise (heven place hplace)
    · intro hodd
      exact htracks.falls fun place hplace => Reading.rises_set_of_odd hraise (hodd place hplace)

/-- The query `[word!="a"]` costs no more when the weight of a symbol is raised from a half to one:
the symbol is read under the negated condition alone. -/
theorem Query.score_monotone_negated :
    let query := (Query.parse "[word!=\"a\"]").toOption.get (by decide +kernel)
    let weights : Weights Rat := Weights.uniform (1 / 2)
    weights.Nonnegative ∧ weights.get .symbol ≤ 1 ∧
      (∀ place ∈ query.readings, place.slot = .symbol → Odd place.negations) ∧
      ∃ program raised low high, query.compile weights = .ok program ∧
        query.compile (weights.set .symbol 1) = .ok raised ∧
        run program [] = (.ok low, [low]) ∧ run raised [] = (.ok high, [high]) ∧ high ≤ low := by
  intro query weights
  have hweights : weights.Nonnegative := by
    intro slot
    rw [Weights.get_uniform]
    decide +kernel
  have hraise : weights.get .symbol ≤ 1 := by decide +kernel
  have hodd : ∀ place ∈ query.readings, place.slot = .symbol → Odd place.negations := by
    decide +kernel
  have hsome : (query.compile weights).toOption.isSome = true := by decide +kernel
  obtain ⟨program, hprogram⟩ := Option.isSome_iff_exists.mp hsome
  have hcompile : query.compile weights = .ok program := by
    cases hresult : query.compile weights with
    | error error => simp [hresult, Except.toOption] at hprogram
    | ok other =>
      obtain rfl : other = program := by simpa [hresult, Except.toOption] using hprogram
      rfl
  obtain ⟨template, raised, low, high, -, -, hraised, hrun, hrunRaised, -, hfalls⟩ :=
    Query.score_monotone hweights hraise hcompile
  exact ⟨hweights, hraise, hodd, program, raised, low, high, hcompile, hraised, hrun [],
    hrunRaised [], hfalls hodd⟩

end CorpusCost
