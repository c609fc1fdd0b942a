import CorpusCost.Proofs.Lines
import CorpusCost.Proofs.Places
import CorpusCost.Proofs.Polarity
import CorpusCost.Query.Reading

/-!
# Longer runs of signs for any character

One more sign for any character beside another makes its run longer by one. The program of the
query stays the same but for the constant that the run pushes, and this constant does not grow. So
the score does not grow either where the row lies under an even number of negated conditions, and
does not fall where the number is odd.
-/

set_option autoImplicit false

namespace CorpusCost

open Machine Outline

/-- The second row has one more sign for any character, beside one of the first. -/
inductive Node.Lengthened : Node → Node → Prop where
  | row (before after : List Regex.Atom) :
    Lengthened (.row (before ++ .symbol .any :: after))
      (.row (before ++ .symbol .any :: .symbol .any :: after))

/-- Beside every sign for any character, in every row of a query, there can be one more. -/
theorem Query.exists_lengthened (query : Query) :
    query.outline.Everywhere <| OnRows fun atoms _ => ∀ front back,
      atoms = front ++ .symbol .any :: back →
      ∃ n longer, Query.Edited Node.Lengthened n query longer ∧
        Query.Edited (fun before after => before = .row atoms ∧
          after = .row (front ++ .symbol .any :: .symbol .any :: back)) n query longer := by
  refine Everywhere.imp (fun node _ hnode => ?_) query.outline query.exists_edited
  cases node with
  | row atoms =>
    rintro front back rfl
    obtain ⟨n, longer, h⟩ := hnode (.row (front ++ .symbol .any :: .symbol .any :: back)) .row
    refine ⟨n, longer, h.imp ?_, h⟩
    rintro _ _ ⟨rfl, rfl⟩
    exact .row front back
  | _ => trivial

/-! ## Factors of runs -/

/-- A longer run is never likelier, also past the end of the table. -/
theorem WildcardRun.probability_succ_le (length : Nat) :
    (probability (length + 2) : Rat) ≤ probability (length + 1) := by
  have htable : ∀ n : Fin 12, (probability (n.val + 2) : Rat) ≤ probability (n.val + 1) := by
    decide +kernel
  by_cases hlength : length < 12
  · exact htable ⟨length, hlength⟩
  · have hfar : ∀ n, 12 ≤ n → (probability (n + 1) : Rat) = longRun := by
      intro n hn
      have hnone : (table : List Rat)[n]? = none :=
        List.getElem?_eq_none (by simpa [table] using hn)
      rw [probability, hnone, Option.getD_none]
    rw [hfar (length + 1) (by omega), hfar length (by omega)]

namespace Weights.Nonnegative

variable {weights : Weights Rat} (hweights : weights.Nonnegative)

include hweights

theorem wildcardRun_succ_le (length : Nat) :
    weights.wildcardRun (length + 2) ≤ weights.wildcardRun (length + 1) :=
  mul_le_mul_of_nonneg_left (WildcardRun.probability_succ_le length) (hweights .wildcard)

theorem wildcardRun_nonneg (length : Nat) : 0 ≤ weights.wildcardRun length :=
  mul_nonneg (hweights .wildcard) (WildcardRun.probability_nonneg length)

end Weights.Nonnegative

/-! ## Templates with a longer run -/

/-- The templates are equal but for one constant: a run pushes its value in both, with one sign more
in the second. -/
def Template.DifferInRun (template longer : Template) : Prop :=
  ∃ before run after, template = before ++ .push (.wildcardRun (run + 1)) :: after ∧
    longer = before ++ .push (.wildcardRun (run + 2)) :: after

open Template

/-- The template of a node around one of the templates in its line. -/
theorem Node.template?_append (node : Node) (own front back : List Template) (part : Template) :
    node.template? (own ++ (front ++ [part] ++ back)) =
      some ((own ++ front).flatten ++ part ++
        (back.flatten ++ node.finishing (own.length + front.length + back.length + 1))) := by
  have hlength : (own ++ (front ++ [part] ++ back)).length =
      own.length + front.length + back.length + 1 := by
    simp only [List.length_append, List.length_singleton]
    omega
  cases hline : own ++ (front ++ [part] ++ back) with
  | nil => simp at hline
  | cons first parts =>
    rw [template?, ← hline, hlength]
    simp

theorem Node.differInRun_template? (node : Node) (own front back : List Template)
    {part changed : Template} (h : DifferInRun part changed) :
    ∃ template longer, node.template? (own ++ (front ++ [part] ++ back)) = some template ∧
      node.template? (own ++ (front ++ [changed] ++ back)) = some longer ∧
      DifferInRun template longer := by
  obtain ⟨before, run, after, rfl, rfl⟩ := h
  refine ⟨_, _, node.template?_append own front back _, node.template?_append own front back _,
    (own ++ front).flatten ++ before, run,
    after ++ (back.flatten ++ node.finishing (own.length + front.length + back.length + 1)), ?_, ?_⟩
  · simp only [List.append_assoc, List.cons_append]
  · simp only [List.append_assoc, List.cons_append]

namespace Outline

/-- In the line of a row with one more sign for any character one run is longer by one. -/
theorem exists_line_of_lengthened {β : Type} (ofRun : Nat → List β) (ofPart : Outline → List β)
    {node other : Node} (h : node.Lengthened other) :
    ∃ front run back,
      line ofRun ofPart node node.parts = front ++ ofRun (run + 1) ++ back ∧
      line ofRun ofPart other other.parts = front ++ ofRun (run + 2) ++ back := by
  obtain ⟨before, after⟩ := h
  rw [line_row, line_row, Node.parts, Node.parts, List.map_append, List.map_append]
  exact exists_rowLine_longer ofRun ofPart 0 (before.map Regex.Atom.outline)
    (after.map Regex.Atom.outline) (Regex.Atom.symbol .any).outline rfl

theorem differInRun_of_lengthened {node other : Node} (h : node.Lengthened other) :
    ∃ template longer, node.outline.template? = some template ∧
      other.outline.template? = some longer ∧ DifferInRun template longer := by
  obtain ⟨front, run, back, hline, hlonger⟩ :=
    exists_line_of_lengthened Template.ofRun (fun part => part.template?.toList) h
  have hrole : node.role = other.role := by cases h; rfl
  have hpush : DifferInRun [.push (.wildcardRun (run + 1))] [.push (.wildcardRun (run + 2))] :=
    ⟨[], run, [], rfl, rfl⟩
  rw [Node.outline, Node.outline, template?_line, template?_line, lineTemplates, hline, hlonger,
    Node.ownTemplates_eq_of_role hrole, Node.template?_eq_of_role hrole]
  exact other.differInRun_template? other.ownTemplates front back hpush

/-- Queries that differ in the length of a run have templates that differ in this run alone. -/
theorem Edited.differInRun {n : Nat} {outline other : Outline}
    (h : Edited Node.Lengthened n outline other) :
    ∃ template longer, outline.template? = some template ∧ other.template? = some longer ∧
      DifferInRun template longer := by
  induction h with
  | here h => exact differInRun_of_lengthened h
  | inside hkeeps h ih =>
    obtain ⟨hrole, hpart, hchanged⟩ := hkeeps
    obtain ⟨template, longer, htemplate, hlonger, hdiffer⟩ := ih
    rw [template?_around hrole hpart, template?_around rfl hchanged, htemplate, hlonger]
    exact Node.differInRun_template? _ _ _ _ hdiffer

end Outline

/-! ## Costs with a longer run -/

/-- The costs `x` and `y` before and after a change that lowers a value under `n` negated
conditions: they stand to each other as under weights that lower one place there. -/
abbrev Lowered (n : Nat) (x y : Rat) : Prop :=
  Tracks (Weights.uniform 0) (Weights.uniform 1) [⟨.wildcard, n⟩] y x

namespace Lowered

variable {n : Nat} {x y : Rat}

theorem of_le (hy : 0 ≤ y) (h : y ≤ x) : Lowered 0 x y where
  nonneg_left := hy
  nonneg_right := hy.trans h
  rises _ := h
  falls hfalls := by
    have hplace := (hfalls ⟨.wildcard, 0⟩ (by simp)).1 Even.zero
    simp only [Weights.get_uniform] at hplace
    exact absurd hplace (by decide)

theorem le_of_even (h : Lowered n x y) (hn : Even n) : y ≤ x := by
  refine h.rises fun place hplace => ?_
  obtain rfl := List.mem_singleton.mp hplace
  refine ⟨fun _ => ?_, fun hodd => absurd hn (Nat.not_even_iff_odd.mpr hodd)⟩
  simp only [Weights.get_uniform]
  decide

theorem le_of_odd (h : Lowered n x y) (hn : Odd n) : x ≤ y := by
  refine h.falls fun place hplace => ?_
  obtain rfl := List.mem_singleton.mp hplace
  refine ⟨fun heven => absurd heven (Nat.not_even_iff_odd.mpr hn), fun _ => ?_⟩
  simp only [Weights.get_uniform]
  decide

end Lowered

section

variable {low high : Weights Rat}

theorem TracksAll.const {values : List Rat} (h : ∀ value ∈ values, 0 ≤ value) :
    TracksAll low high (values.map fun _ => []) values values := by
  induction values with
  | nil => exact .nil
  | cons value values ih =>
    obtain ⟨hvalue, hvalues⟩ := List.forall_mem_cons.mp h
    exact .cons (.const hvalue) (ih hvalues)

theorem TracksAll.nonneg_left {line : List (List Reading)} {xs ys : List Rat}
    (h : TracksAll low high line xs ys) : ∀ x ∈ xs, 0 ≤ x := by
  induction h with
  | nil => nofun
  | cons head _ ih => exact List.forall_mem_cons.mpr ⟨head.nonneg_left, ih⟩

variable {weights : Weights Rat} (hweights : weights.Nonnegative)

include hweights

/-- Factors that are the same on both sides change no direction. -/
theorem Tracks.scale_const {places : List Reading} {x y : Rat} (h : Tracks low high places x y)
    (slots : List Slot) :
    Tracks low high places (slots.foldl (fun value slot => value * weights.get slot) x)
      (slots.foldl (fun value slot => value * weights.get slot) y) := by
  induction slots generalizing x y with
  | nil => exact h
  | cons slot slots ih =>
    have hscaled := h.mul (Tracks.const (hweights slot))
    rw [List.append_nil] at hscaled
    exact ih hscaled

/-- The cost of a node moves with the places of the values in its line. -/
theorem TracksAll.cost? (node : Node) {line : List (List Reading)} {xs ys : List Rat}
    (h : TracksAll low high line xs ys) (hxs : xs ≠ []) :
    ∃ x y, node.cost? weights xs = some x ∧ node.cost? weights ys = some y ∧
      Tracks low high (line.flatten.map (Reading.within node)) x y := by
  cases h with
  | nil => exact absurd rfl hxs
  | cons head tail =>
    have hcombined := TracksAll.fold node.kind.rule.combine head tail
    have hscaled :=
      (hcombined.cap_if node.kind.rule.clamp).scale_const hweights node.scaleSlots
    refine ⟨_, _, node.cost?_cons _ _ _, node.cost?_cons _ _ _, ?_⟩
    rw [node.costOf_eq, node.costOf_eq]
    exact hscaled.complement_if node

omit hweights in
theorem Reading.within_eq (node : Node) (slot : Slot) (n : Nat) :
    Reading.within node ⟨slot, n⟩ = ⟨slot, n + node.isNegation.toNat⟩ := by
  cases hnode : node.isNegation <;> simp [within, hnode]

/-- A value lowered in the line of a node lowers the cost of the node, or raises it where the node
is a negated condition. -/
theorem Lowered.cost? (node : Node) {n : Nat} {x y : Rat}
    (h : Lowered n x y) {own front back : List Rat} (hown : ∀ value ∈ own, 0 ≤ value)
    (hfront : ∀ value ∈ front, 0 ≤ value) (hback : ∀ value ∈ back, 0 ≤ value) :
    ∃ cost lower, node.cost? weights (own ++ (front ++ [x] ++ back)) = some cost ∧
      node.cost? weights (own ++ (front ++ [y] ++ back)) = some lower ∧
      Lowered (n + node.isNegation.toNat) cost lower := by
  have hline := (TracksAll.const hown).append
    (((TracksAll.const hfront).append (.singleton h)).append (TracksAll.const hback))
  obtain ⟨lower, cost, hlower, hcost, htracks⟩ := hline.cost? hweights node (by simp)
  exact ⟨cost, lower, hcost, hlower, by
    simpa [List.flatten_append, Reading.within_eq] using htracks⟩

theorem Outline.lineCosts_nonneg (label : Node) (children : List Outline) :
    ∀ value ∈ lineCosts weights label children, 0 ≤ value := by
  unfold lineCosts line
  split
  · rw [← rowCosts_eq]
    exact (tracksAll_rowCosts hweights hweights 0 children).nonneg_left
  · rw [← costs_eq]
    exact (tracksAll_costs hweights hweights children).nonneg_left

theorem Node.ownValues_nonneg (node : Node) : ∀ value ∈ node.ownValues weights, 0 ≤ value :=
  (tracksAll_ownValues hweights hweights node).nonneg_left

theorem Outline.lowered_of_lengthened {node other : Node} (h : node.Lengthened other) :
    ∃ x y, node.outline.cost weights = some x ∧ other.outline.cost weights = some y ∧
      Lowered 0 x y := by
  obtain ⟨front, run, back, hline, hlonger⟩ :=
    exists_line_of_lengthened weights.runValue (fun part => (part.cost weights).toList) h
  have hrole : node.role = other.role := by cases h; rfl
  have hnegations : other.isNegation.toNat = 0 := by cases h; rfl
  have hvalues := lineCosts_nonneg hweights node node.parts
  rw [lineCosts, hline] at hvalues
  have hfront : ∀ value ∈ front, 0 ≤ value := fun value hmem => hvalues value (by simp [hmem])
  have hback : ∀ value ∈ back, 0 ≤ value := fun value hmem => hvalues value (by simp [hmem])
  have hrun : Lowered 0 (weights.wildcardRun (run + 1)) (weights.wildcardRun (run + 2)) :=
    .of_le (hweights.wildcardRun_nonneg _) (hweights.wildcardRun_succ_le run)
  have hcost := hrun.cost? hweights other (other.ownValues_nonneg hweights) hfront hback
  rw [hnegations] at hcost
  rw [Node.outline, Node.outline, cost_line, cost_line, lineCosts, hline, hlonger,
    Node.ownValues_eq_of_role weights hrole, Node.cost?_eq_of_role weights hrole]
  exact hcost

/-- A longer run under `n` negated conditions lowers the cost of the query for even `n`, and raises
it for odd. -/
theorem Outline.Edited.lowered {n : Nat} {outline other : Outline}
    (h : Edited Node.Lengthened n outline other) :
    ∃ x y, outline.cost weights = some x ∧ other.cost weights = some y ∧ Lowered n x y := by
  induction h with
  | here h => exact lowered_of_lengthened hweights h
  | @inside n label other before part changed after hkeeps h ih =>
    obtain ⟨hrole, hpart, hchanged⟩ := hkeeps
    obtain ⟨x, y, hx, hy, hlowered⟩ := ih
    have hown := other.ownValues_nonneg hweights
    have hfront := lineCosts_nonneg hweights other before
    have hback := lineCosts_nonneg hweights other after
    rw [cost_around weights hrole hpart, cost_around weights rfl hchanged, hx, hy,
      Node.isNegation_eq_of_role hrole]
    exact hlowered.cost? hweights other hown hfront hback

end

/-! ## Scores with a longer run -/

/-- One more sign for any character beside another leaves the program of a query as it is, but for
one constant: the value of a run that is longer by one. Both programs run, and the score does not
grow where the row lies under an even number of negated conditions, and does not fall where the
number is odd. -/
theorem Query.score_lengthened {n : Nat} {query longer : Query}
    (hedit : Query.Edited Node.Lengthened n query longer) {weights : Weights Rat}
    (hweights : weights.Nonnegative) :
    ∃ before run after score lengthened,
      query.compile weights =
        .ok (before ++ .push (weights.wildcardRun (run + 1)) :: after) ∧
      longer.compile weights =
        .ok (before ++ .push (weights.wildcardRun (run + 2)) :: after) ∧
      (∀ stack, Machine.run (before ++ .push (weights.wildcardRun (run + 1)) :: after) stack =
        (.ok score, [score])) ∧
      (∀ stack, Machine.run (before ++ .push (weights.wildcardRun (run + 2)) :: after) stack =
        (.ok lengthened, [lengthened])) ∧
      (Even n → lengthened ≤ score) ∧ (Odd n → score ≤ lengthened) := by
  obtain ⟨score, lengthened, hscore, hlengthened, hlowered⟩ := hedit.outline.lowered hweights
  obtain ⟨_, _, htemplate, hlonger, before, run, after, rfl, rfl⟩ := hedit.outline.differInRun
  have hfill : ∀ length, Template.fill weights (before ++ .push (.wildcardRun length) :: after) =
      Template.fill weights before ++
        .push (weights.wildcardRun length) :: Template.fill weights after :=
    fun length => Template.fill_append weights before _
  obtain ⟨_, hcost, hrun⟩ := query.exists_run htemplate weights
  obtain rfl := Option.some.inj (hcost.symm.trans hscore)
  obtain ⟨_, hcostLonger, hrunLonger⟩ := longer.exists_run hlonger weights
  obtain rfl := Option.some.inj (hcostLonger.symm.trans hlengthened)
  rw [hfill] at hrun hrunLonger
  refine ⟨Template.fill weights before, run, Template.fill weights after, _, _, ?_, ?_, hrun,
    hrunLonger, hlowered.le_of_even, hlowered.le_of_odd⟩
  · rw [query.compile_eq_fill, show query.outline.template? = _ from htemplate, ← hfill]
  · rw [longer.compile_eq_fill, show longer.outline.template? = _ from hlonger, ← hfill]

/-- A second sign for any character in `[word!="a."]` does not lower the score: the row lies under
one negated condition. -/
theorem Query.score_lengthened_negated :
    let query := (Query.parse "[word!=\"a.\"]").toOption.get (by decide +kernel)
    let longer := (Query.parse "[word!=\"a..\"]").toOption.get (by decide +kernel)
    let weights : Weights Rat := Weights.uniform (1 / 2)
    weights.Nonnegative ∧ Query.Edited Node.Lengthened 1 query longer ∧
      ∃ program lengthening score lengthened, query.compile weights = .ok program ∧
        longer.compile weights = .ok lengthening ∧ run program [] = (.ok score, [score]) ∧
        run lengthening [] = (.ok lengthened, [lengthened]) ∧ score ≤ lengthened := by
  intro query longer weights
  let row (atoms : List Regex.Atom) : Query :=
    ⟨some ⟨[⟨false, [.atom (.position ⟨none, .conditions
      (some [[.test (.matching "word" true .equal ⟨[[.row atoms]]⟩)]])⟩) none]⟩]⟩, none, []⟩
  let letter : Regex.Atom := .symbol (.literal "a" false)
  have hquery : query = row [letter, .symbol .any] := by decide +kernel
  have hlonger : longer = row [letter, .symbol .any, .symbol .any] := by decide +kernel
  have hrow : Node.Edited Node.Lengthened 0 (.row [letter, .symbol .any])
      (.row [letter, .symbol .any, .symbol .any]) := .here (.row [letter] [])
  have hedit : Query.Edited Node.Lengthened 1 query longer := by
    rw [hquery, hlonger]
    exact .querySequence (@Node.Edited.sequence _ _ [] _ _ [] (@Node.Edited.chain _ _ _ [] _ _ []
      (.elementAtom (.atomPosition (.position (.tokenConditions (@Node.Edited.disjunction _ _ [] _ _
        [] (@Node.Edited.conjunction _ _ [] _ _ [] (.conditionMatching true
          (@Node.Edited.regex _ _ [] _ _ [] (@Node.Edited.branchRow _ _ [] _ _ [] hrow)))))))))))
  have hweights : weights.Nonnegative := by
    intro slot
    rw [Weights.get_uniform]
    decide +kernel
  obtain ⟨before, length, after, score, lengthened, hcompile, hcompileLonger, hrun, hrunLonger, -,
    hodd⟩ := Query.score_lengthened hedit hweights
  exact ⟨hweights, hedit, _, _, score, lengthened, hcompile, hcompileLonger, hrun [],
    hrunLonger [], hodd odd_one⟩

end CorpusCost
