import Mathlib.Algebra.BigOperators.Group.List.Basic
import Mathlib.Logic.Relation
import CorpusCost.Proofs.Lines
import CorpusCost.Proofs.Places
import CorpusCost.Proofs.Polarity
import CorpusCost.Query.Reading

/-!
# The order of siblings

The values that a node has in line are added up or multiplied, so that over the rationals their
order does not matter. Queries that arise from each other by putting chains, elements, blocks,
conditions, branches, pieces, members of classes or letters in another order, or by exchanging the
two tokens of a pair, at any number of nodes, therefore have the same score, or none of them has a
program. The atoms of an unbroken row keep their order: it says which signs for any character stand
next to each other.
-/

set_option autoImplicit false

namespace CorpusCost

open Machine

/-! ## Rearranging -/

/-- The second node has the parts of the first in another order. -/
inductive Node.Permuted : Node → Node → Prop where
  | blocks {sequence globals bs bs'} (h : List.Perm bs bs') :
    Permuted (.query ⟨sequence, globals, bs⟩) (.query ⟨sequence, globals, bs'⟩)
  | groupBlocks {sequence bs bs'} (h : List.Perm bs bs') :
    Permuted (.atom (.group sequence bs)) (.atom (.group sequence bs'))
  | chains {cs cs'} (h : List.Perm cs cs') : Permuted (.sequence ⟨cs⟩) (.sequence ⟨cs'⟩)
  | elements {negated es es'} (h : List.Perm es es') :
    Permuted (.chain ⟨negated, es⟩) (.chain ⟨negated, es'⟩)
  | globals {cs cs'} (h : List.Perm cs cs') : Permuted (.globals cs) (.globals cs')
  | disjunction {cs cs'} (h : List.Perm cs cs') : Permuted (.disjunction cs) (.disjunction cs')
  | conjunction {cs cs'} (h : List.Perm cs cs') : Permuted (.conjunction cs) (.conjunction cs')
  | union {left right} : Permuted (.union left right) (.union right left)
  | meet {left right window} : Permuted (.meet left right window) (.meet right left window)
  | regex {bs bs'} (h : List.Perm bs bs') : Permuted (.regex ⟨bs⟩) (.regex ⟨bs'⟩)
  | group {bs bs'} (h : List.Perm bs bs') : Permuted (.group bs) (.group bs')
  | branch {ps ps'} (h : List.Perm ps ps') : Permuted (.branch ps) (.branch ps')
  | charClass {negated ms ms'} (h : List.Perm ms ms') :
    Permuted (.charClass ⟨negated, ms⟩) (.charClass ⟨negated, ms'⟩)
  | literal {value value' : String} (h : value.toList.Perm value'.toList) :
    Permuted (.literal value) (.literal value')

/-- The second query arises from the first by putting the parts of nodes in another order, at one
node after the other. -/
def Query.Rearranged : Query → Query → Prop :=
  Relation.ReflTransGen fun query other => ∃ n, Query.Edited Node.Permuted n query other

section

variable {node other : Node}

theorem Node.Permuted.role_eq (h : Node.Permuted node other) : node.role = other.role := by
  cases h <;> rfl

theorem Node.Permuted.kind_ne_row (h : Node.Permuted node other) : node.kind ≠ .row := by
  cases h <;> nofun

theorem Node.Permuted.fits (h : Node.Permuted node other) : node.Fits other := by
  cases h <;> constructor

theorem Node.Permuted.parts_perm (h : Node.Permuted node other) :
    node.parts.Perm other.parts := by
  cases h with
  | blocks h =>
    rw [parts, parts, Block.outlines_eq_map, Block.outlines_eq_map]
    exact (h.map Block.outline).append_left _
  | groupBlocks h =>
    rw [parts, parts, Block.outlines_eq_map, Block.outlines_eq_map]
    exact (h.map Block.outline).cons _
  | chains h =>
    rw [parts, parts, Chain.outlines_eq_map, Chain.outlines_eq_map]
    exact h.map Chain.outline
  | elements h =>
    rw [parts, parts, Element.outlines_eq_map, Element.outlines_eq_map]
    exact h.map Element.outline
  | globals h => exact h.map _
  | disjunction h =>
    rw [parts, parts, Conjunction.outlines_eq, Conjunction.outlines_eq]
    exact h.map _
  | conjunction h =>
    rw [parts, parts, Condition.outlines_eq_map, Condition.outlines_eq_map]
    exact h.map Condition.outline
  | union => exact .swap _ _ []
  | meet => exact .swap _ _ []
  | regex h =>
    rw [parts, parts, Regex.Branch.outlines_eq, Regex.Branch.outlines_eq]
    exact h.map _
  | group h =>
    rw [parts, parts, Regex.Branch.outlines_eq, Regex.Branch.outlines_eq]
    exact h.map _
  | branch h =>
    rw [parts, parts, Regex.Piece.outlines_eq_map, Regex.Piece.outlines_eq_map]
    exact h.map Regex.Piece.outline
  | charClass h => exact h.map Regex.Member.outline
  | literal h => exact h.map _

end

/-- The parts of every node of a query can be put into any order. -/
theorem Query.exists_rearranged (query : Query) :
    query.outline.Everywhere fun node _ => ∀ permuted, node.Permuted permuted →
      ∃ n other, query.Rearranged other ∧
        Query.Edited (fun before after => before = node ∧ after = permuted) n query other := by
  refine Outline.Everywhere.imp (fun node _ hnode permuted hpermuted => ?_) query.outline
    query.exists_edited
  obtain ⟨n, other, h⟩ := hnode permuted hpermuted.fits
  refine ⟨n, other, .single ⟨n, h.imp ?_⟩, h⟩
  rintro _ _ ⟨rfl, rfl⟩
  exact hpermuted

/-! ## Sums and products -/

/-- Combining values adds them up or multiplies them. -/
theorem Combine.fold_eq (combine : Combine) (value : Rat) (values : List Rat) :
    combine.fold value values =
      match combine with
      | .add => (value :: values).sum
      | .multiply => (value :: values).prod := by
  induction values generalizing value with
  | nil => cases combine <;> simp [fold]
  | cons next values ih =>
    rw [fold, ih]
    cases combine with
    | add => exact (List.sum_cons).symm
    | multiply => exact (List.prod_cons).symm

theorem Combine.fold_perm (combine : Combine) {value other : Rat} {values others : List Rat}
    (h : (value :: values).Perm (other :: others)) :
    combine.fold value values = combine.fold other others := by
  rw [fold_eq, fold_eq]
  cases combine with
  | add => exact h.sum_eq
  | multiply => exact h.prod_eq

/-- The order of the values in line does not matter to the cost of a node. -/
theorem Node.cost?_perm (node : Node) (weights : Weights Rat) {values others : List Rat}
    (h : values.Perm others) : node.cost? weights values = node.cost? weights others := by
  match values, others, h with
  | [], [], _ => rfl
  | [], _ :: _, h => exact absurd h.length_eq nofun
  | _ :: _, [], h => exact absurd h.length_eq nofun
  | value :: values, other :: others, h =>
    have hfold := node.kind.rule.combine.fold_perm h
    simp only [cost?_cons, costOf_eq, hfold]

/-! ## Costs of rearranged nodes -/

namespace Outline

/-- A node costs the same with its parts in another order. -/
theorem cost_of_permuted {node other : Node} (h : node.Permuted other) (weights : Weights Rat) :
    node.outline.cost weights = other.outline.cost weights := by
  have hother : other.kind ≠ .row := Node.kind_eq_of_role h.role_eq ▸ h.kind_ne_row
  have hline : (lineCosts weights node node.parts).Perm (lineCosts weights other other.parts) := by
    rw [lineCosts, line, line, if_neg h.kind_ne_row, if_neg hother]
    exact h.parts_perm.flatMap_right _
  rw [Node.outline, Node.outline, cost_line, cost_line,
    Node.ownValues_eq_of_role weights h.role_eq, Node.cost?_eq_of_role weights h.role_eq]
  exact other.cost?_perm weights (hline.append_left _)

/-- So does every node around it. -/
theorem Edited.cost_eq {n : Nat} {outline other : Outline}
    (h : Edited Node.Permuted n outline other) (weights : Weights Rat) :
    outline.cost weights = other.cost weights := by
  induction h with
  | here h => exact cost_of_permuted h weights
  | inside hkeeps h ih =>
    obtain ⟨hrole, hpart, hchanged⟩ := hkeeps
    rw [cost_around weights hrole hpart, cost_around weights rfl hchanged, ih]

end Outline

/-! ## Rearranged queries -/

theorem Query.Rearranged.cost_eq {query other : Query} (h : query.Rearranged other)
    (weights : Weights Rat) : query.outline.cost weights = other.outline.cost weights := by
  induction h with
  | refl => rfl
  | tail _ hstep ih =>
    obtain ⟨n, hedit⟩ := hstep
    exact ih.trans (hedit.outline.cost_eq weights)

/-- A query has a program just when it has a cost, and the cost is the score of the program. -/
theorem Query.compile_score (query : Query) (weights : Weights Rat) :
    match query.outline.cost weights with
    | none => query.compile weights = .error .emptyQuery
    | some score => ∃ program, query.compile weights = .ok program ∧
        ∀ stack, run program stack = (.ok score, [score]) := by
  cases htemplate : query.outline.template? with
  | none =>
    have hcost : query.outline.cost weights = none := by
      have hsome := query.outline.isSome_cost weights
      simpa [htemplate] using hsome
    rw [hcost]
    exact compile_of_cost_eq_none hcost
  | some template =>
    obtain ⟨score, hcost, hrun⟩ := query.exists_run htemplate weights
    rw [hcost]
    exact ⟨Template.fill weights template, by rw [query.compile_eq_fill, htemplate], hrun⟩

/-- Queries that differ in the order of siblings alone have the same score under any weights, or
neither has a program. -/
theorem Query.score_rearranged {query other : Query} (h : query.Rearranged other)
    (weights : Weights Rat) :
    (query.compile weights = .error .emptyQuery ∧ other.compile weights = .error .emptyQuery) ∨
      ∃ program rearranged score, query.compile weights = .ok program ∧
        other.compile weights = .ok rearranged ∧
        (∀ stack, run program stack = (.ok score, [score])) ∧
        ∀ stack, run rearranged stack = (.ok score, [score]) := by
  have hquery := query.compile_score weights
  have hother := other.compile_score weights
  rw [← h.cost_eq weights] at hother
  cases hcost : query.outline.cost weights with
  | none =>
    rw [hcost] at hquery hother
    exact .inl ⟨hquery, hother⟩
  | some score =>
    rw [hcost] at hquery hother
    obtain ⟨program, hcompile, hrun⟩ := hquery
    obtain ⟨rearranged, hcompileOther, hrunOther⟩ := hother
    exact .inr ⟨program, rearranged, score, hcompile, hcompileOther, hrun, hrunOther⟩

/-- Two tokens in either order, the conditions of one of them in either order, have the same score
under the weights that are all one half. -/
theorem Query.score_rearranged_tokens :
    let query := (Query.parse "\"a\" [word=\"b\" | tag=\"N\"]").toOption.get (by decide +kernel)
    let other := (Query.parse "[tag=\"N\" | word=\"b\"] \"a\"").toOption.get (by decide +kernel)
    let weights : Weights Rat := Weights.uniform (1 / 2)
    query ≠ other ∧ query.Rearranged other ∧
      ∃ program rearranged score, query.compile weights = .ok program ∧
        other.compile weights = .ok rearranged ∧ run program [] = (.ok score, [score]) ∧
        run rearranged [] = (.ok score, [score]) := by
  intro query other weights
  let regex (letter : String) : Regex := ⟨[[.row [.symbol (.literal letter false)]]]⟩
  let test (attr letter : String) : Condition := .test (.matching attr false .equal (regex letter))
  let token (t : Token) : Element := .atom (.position ⟨none, t⟩) none
  let first := token (.word (regex "a"))
  let second (ds : Disjunction) := token (.conditions (some ds))
  let chain (es : List Element) : Query := ⟨some ⟨[⟨false, es⟩]⟩, none, []⟩
  let before := second [[test "word" "b"], [test "tag" "N"]]
  let after := second [[test "tag" "N"], [test "word" "b"]]
  have hquery : query = chain [first, before] := by decide +kernel
  have hother : other = chain [after, first] := by decide +kernel
  have hswap : Query.Edited Node.Permuted 0 (chain [first, before]) (chain [before, first]) :=
    .querySequence (@Node.Edited.sequence _ _ [] _ _ [] (.here (.elements (.swap _ _ []))))
  have hconditions :
      Query.Edited Node.Permuted 0 (chain [before, first]) (chain [after, first]) :=
    .querySequence (@Node.Edited.sequence _ _ [] _ _ [] (@Node.Edited.chain _ _ _ [] _ _ [first]
      (.elementAtom (.atomPosition (.position (.tokenConditions
        (.here (.disjunction (.swap _ _ [])))))))))
  have hrearranged : query.Rearranged other := by
    rw [hquery, hother]
    exact (Relation.ReflTransGen.single ⟨0, hswap⟩).tail ⟨0, hconditions⟩
  have hprogram : query.compile weights ≠ .error .emptyQuery := by decide +kernel
  obtain ⟨hnone, -⟩ | ⟨program, rearranged, score, hcompile, hcompileOther, hrun, hrunOther⟩ :=
    Query.score_rearranged hrearranged weights
  · exact absurd hnone hprogram
  · exact ⟨by decide +kernel, hrearranged, program, rearranged, score, hcompile, hcompileOther,
      hrun [], hrunOther []⟩

end CorpusCost
