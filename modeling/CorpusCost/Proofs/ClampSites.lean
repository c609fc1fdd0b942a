import CorpusCost.Proofs.CappedComplements

/-!
# Where programs cap and complement

A program caps a value at two kinds of nodes only, bracketed choices of branches and negated
conditions, and it complements one at the latter. It does so for those nodes alone that have a value
at all. That a node has one is a matter of the constants in it: a node is scorable if it or anything
in it has a constant of its own, and the scorable nodes are those with a template
(`Outline.isSome_template?`).

So both instructions can be counted on the outline, site by site
(`Outline.occurrences_template?`).
-/

set_option autoImplicit false

namespace CorpusCost

open Machine

/-! ## Scorable nodes -/

namespace Outline

mutual

/-- Whether the root or anything in it has a constant of its own. -/
def scorable : Outline → Bool
  | .node label children => label.constant?.isSome || anyScorable children

/-- Whether anything in several outlines has a constant of its own. -/
def anyScorable : List Outline → Bool
  | [] => false
  | child :: children => scorable child || anyScorable children

end

theorem scorable_node (label : Node) (children : List Outline) :
    scorable (.node label children) = (label.constant?.isSome || anyScorable children) := by
  rw [scorable]

@[simp] theorem anyScorable_nil : anyScorable [] = false := by
  rw [anyScorable]

@[simp] theorem anyScorable_cons (child : Outline) (children : List Outline) :
    anyScorable (child :: children) = (scorable child || anyScorable children) := by
  rw [anyScorable]

end Outline

theorem Node.template?_eq_none_iff (node : Node) (templates : List Template) :
    node.template? templates = none ↔ templates = [] := by
  cases templates <;> simp [template?]

theorem Node.ownTemplates_eq_nil_iff (node : Node) :
    node.ownTemplates = [] ↔ node.constant?.isSome = false := by
  unfold ownTemplates
  cases node.constant? <;> simp

theorem Template.ofRun_eq_nil_iff (length : Nat) : ofRun length = [] ↔ length = 0 := by
  cases length <;> simp [ofRun]

namespace Outline

mutual

/-- The nodes that are not scorable are those without a template. -/
theorem template?_eq_none_iff : (outline : Outline) → outline.Lawful →
    (outline.template? = none ↔ outline.scorable = false)
  | .node label children, hlawful => by
    have hparts := ((everywhere_node label children).mp hlawful).2
    rw [template?_node, Node.template?_eq_none_iff, List.append_eq_nil_iff,
      Node.ownTemplates_eq_nil_iff, scorable_node, Bool.or_eq_false_iff]
    refine and_congr_right fun _ => ?_
    split
    case isTrue hkind =>
      simpa using rowTemplates_eq_nil_iff 0 children hparts (hlawful.rowLawful hkind)
    case isFalse => exact templates_eq_nil_iff children hparts

theorem templates_eq_nil_iff : (children : List Outline) →
    EverywhereIn (OnRows fun _ => RowLawful) children →
    (templates children = [] ↔ anyScorable children = false)
  | [], _ => by simp
  | child :: children, hlawful => by
    obtain ⟨hchild, hchildren⟩ := (everywhereIn_cons child children).mp hlawful
    rw [templates_cons, List.append_eq_nil_iff, Option.toList_eq_nil_iff,
      template?_eq_none_iff child hchild, templates_eq_nil_iff children hchildren,
      anyScorable_cons, Bool.or_eq_false_iff]

/-- A sign for any character has a constant, whether it is pushed by itself or in a run. -/
theorem rowTemplates_eq_nil_iff (length : Nat) : (children : List Outline) →
    EverywhereIn (OnRows fun _ => RowLawful) children → RowLawful children →
    (rowTemplates length children = [] ↔ length = 0 ∧ anyScorable children = false)
  | [], _, _ => by simp [Template.ofRun_eq_nil_iff]
  | .node part parts :: children, hlawful, hrow => by
    obtain ⟨hchild, hchildren⟩ := (everywhereIn_cons _ children).mp hlawful
    have hrest : RowLawful children := fun child hmem => hrow child (List.mem_cons_of_mem _ hmem)
    rw [anyScorable_cons, Bool.or_eq_false_iff]
    cases hpart : part.isWildcardSymbol with
    | true =>
      obtain rfl := Node.eq_of_isWildcardSymbol hpart
      obtain rfl : parts = [.leaf .wildcard] := (hrow _ List.mem_cons_self).1 hpart
      have hscorable : scorable (.node (.symbol .any) [.leaf .wildcard]) = true := rfl
      rw [rowTemplates_wildcard length children rfl,
        rowTemplates_eq_nil_iff (length + 1) children hchildren hrest, hscorable]
      simp
    | false =>
      have hlabel : (Outline.node part parts).label.isWildcardSymbol = false := hpart
      rw [rowTemplates_other length children hlabel, List.append_eq_nil_iff,
        List.append_eq_nil_iff, Template.ofRun_eq_nil_iff, Option.toList_eq_nil_iff,
        template?_eq_none_iff _ hchild, rowTemplates_eq_nil_iff 0 children hchildren hrest]
      simp [and_assoc]

end

end Outline

/-! ## Counting instructions -/

section

variable {α : Type}

/-- How often an instruction occurs in a program. -/
def Machine.Program.occurrences (opcode : Instruction Unit) (program : Program α) : Nat :=
  (Program.opcodes program).count opcode

variable {opcode : Instruction Unit}

@[simp] theorem Machine.Program.occurrences_nil :
    Program.occurrences opcode ([] : Program α) = 0 := rfl

@[simp] theorem Machine.Program.occurrences_append (program other : Program α) :
    Program.occurrences opcode (program ++ other) =
      Program.occurrences opcode program + Program.occurrences opcode other := by
  simp [Program.occurrences, Program.opcodes]

end

open Machine.Program (occurrences occurrences_append)

/-- What combines and scales values holds neither a cap nor a complement. -/
theorem Node.occurrences_finishing {opcode : Instruction Unit}
    (hopcode : opcode = .clamp ∨ opcode = .negate) (node : Node) (values : Nat) :
    occurrences opcode (node.finishing values) =
      occurrences opcode (if node.kind.rule.clamp then [.clamp] else [] : Template) +
        occurrences opcode (if node.isNegation then [.clamp, .negate] else [] : Template) := by
  have hcombine : occurrences opcode
      (List.replicate (values - 1) node.kind.rule.combine.opcode) = 0 := by
    unfold occurrences Program.opcodes
    rw [List.map_replicate]
    refine List.count_eq_zero_of_not_mem fun hmem => ?_
    have hsame := List.eq_of_mem_replicate hmem
    rcases node.kind.rule.combine.opcode_cases with hcombine | hcombine <;>
      rw [hcombine] at hsame <;> rcases hopcode with rfl | rfl <;> cases hsame
  have hscale : occurrences opcode (node.scaleSlots.flatMap Template.scale) = 0 := by
    induction node.scaleSlots with
    | nil => rfl
    | cons slot slots ih =>
      rw [List.flatMap_cons, occurrences_append, ih]
      rcases hopcode with rfl | rfl <;> rfl
  rw [node.finishing_eq]
  simp only [occurrences_append, hcombine, hscale, Nat.zero_add, Nat.add_zero]

/-- Whether an instruction is emitted at its sites alone, once for each that has a value. -/
structure EmittedAt (opcode : Instruction Unit) (site : Node → Bool) : Prop where
  /-- The instruction pushes nothing. -/
  push : ∀ constant : Constant, occurrences opcode [.push constant] = 0
  /-- It occurs once in what is emitted when a site is left, and not when another node is. -/
  finishing : ∀ node values, occurrences opcode (node.finishing values) = (site node).toNat

/-- Complements are emitted for negated conditions. -/
theorem emittedAt_negate : EmittedAt .negate Node.isNegation where
  push _ := rfl
  finishing node values := by
    rw [Node.occurrences_finishing (.inr rfl)]
    cases node.kind.rule.clamp <;> cases node.isNegation <;> rfl

theorem Node.clamp_rule (node : Node) : node.kind.rule.clamp = decide (node.kind = .group) := by
  cases node.kind <;> rfl

theorem Node.kind_of_isNegation {node : Node} (hnode : node.isNegation = true) :
    node.kind = .condition := by
  cases node <;> first | rfl | cases hnode

/-- Caps are emitted for negated conditions and for bracketed choices of branches. -/
theorem emittedAt_clamp :
    EmittedAt .clamp fun node => node.isNegation || decide (node.kind = .group) where
  push _ := rfl
  finishing node values := by
    rw [Node.occurrences_finishing (.inl rfl), node.clamp_rule]
    cases hnode : node.isNegation with
    | true =>
      rw [Node.kind_of_isNegation hnode]
      rfl
    | false => cases decide (node.kind = .group) <;> rfl

/-! ## Sites of an outline -/

namespace Outline

variable {opcode : Instruction Unit} {site : Node → Bool}

/-- The number of scorable sites among some parts of an outline. -/
def scorableSites (site : Node → Bool) (parts : List (Option Node × Outline)) : Nat :=
  parts.countP fun part => part.2.scorable && site part.2.label

theorem scorableSites_append (parts others : List (Option Node × Outline)) :
    scorableSites site (parts ++ others) = scorableSites site parts + scorableSites site others :=
  List.countP_append

theorem scorableSites_cons (parent : Option Node) (outline : Outline)
    (parts : List (Option Node × Outline)) :
    scorableSites site ((parent, outline) :: parts) =
      (outline.scorable && site outline.label).toNat + scorableSites site parts := by
  unfold scorableSites
  rw [List.countP_cons, Nat.add_comm]
  cases outline.scorable && site outline.label <;> rfl

/-- Sites of two sorts that no node is both of are counted one by one. -/
theorem scorableSites_or {other : Node → Bool} (hdisjoint : ∀ node, site node = true →
    other node = false) (parts : List (Option Node × Outline)) :
    scorableSites (fun node => site node || other node) parts =
      scorableSites site parts + scorableSites other parts := by
  induction parts with
  | nil => rfl
  | cons part parts ih =>
    obtain ⟨parent, outline⟩ := part
    rw [scorableSites_cons, scorableSites_cons, scorableSites_cons, ih]
    cases hsite : site outline.label with
    | true =>
      rw [hdisjoint _ hsite]
      simp [Nat.add_assoc]
    | false => simp [Nat.add_left_comm]

end Outline

namespace EmittedAt

variable {opcode : Instruction Unit} {site : Node → Bool} (hemitted : EmittedAt opcode site)

include hemitted

/-- In the template of a node an instruction occurs as often as in those in line, and once more if
the node is a site and has a value. -/
theorem occurrences_template? (node : Node) (line : List Template) :
    occurrences opcode (node.template? line).toList.flatten =
      ((node.template? line).isSome && site node).toNat + occurrences opcode line.flatten := by
  cases line with
  | nil => rfl
  | cons template templates =>
    rw [Node.template?, Option.toList_some, List.flatten_singleton, occurrences_append,
      hemitted.finishing, Nat.add_comm]
    rfl

theorem occurrences_ownTemplates (node : Node) :
    occurrences opcode node.ownTemplates.flatten = 0 := by
  unfold Node.ownTemplates
  cases node.constant? with
  | none => rfl
  | some slot => exact hemitted.push (.slot slot)

theorem occurrences_ofRun (length : Nat) :
    occurrences opcode (Template.ofRun length).flatten = 0 := by
  cases length with
  | zero => rfl
  | succ length => exact hemitted.push (.wildcardRun (length + 1))

/-- A node is no site if nothing is emitted when it is left. -/
theorem site_eq_false {node : Node} (hnode : node.finishing 1 = []) : site node = false := by
  have hnone := hemitted.finishing node 1
  rw [hnode] at hnone
  cases hsite : site node with
  | false => rfl
  | true => simp [hsite] at hnone

/-- There are no sites in a symbol for any character. -/
theorem scorableSites_wildcardSymbol (parent : Option Node) :
    Outline.scorableSites site
      (Outline.preorderUnder parent (.node (.symbol .any) [.leaf .wildcard])) = 0 := by
  have hsymbol : site (.symbol .any) = false := hemitted.site_eq_false rfl
  have hsign : site .wildcard = false := hemitted.site_eq_false rfl
  refine List.countP_eq_zero.mpr fun part hpart => ?_
  rcases List.mem_cons.mp hpart with rfl | hpart
  · simp [hsymbol]
  · obtain rfl := List.mem_singleton.mp hpart
    simp [hsign]

end EmittedAt

namespace Outline

variable {opcode : Instruction Unit} {site : Node → Bool}

theorem isSome_template? (outline : Outline) (hlawful : outline.Lawful) :
    outline.template?.isSome = outline.scorable := by
  have hnone := template?_eq_none_iff outline hlawful
  cases htemplate : outline.template? <;> cases hscorable : outline.scorable <;>
    simp_all

mutual

/-- In the template of an outline an instruction occurs once for each scorable site. -/
theorem occurrences_template? (hemitted : EmittedAt opcode site) : (outline : Outline) →
    outline.Lawful → (parent : Option Node) →
      occurrences opcode outline.template?.toList.flatten =
        scorableSites site (preorderUnder parent outline)
  | .node label children, hlawful, parent => by
    have hparts := ((everywhere_node label children).mp hlawful).2
    rw [preorderUnder, scorableSites_cons, ← isSome_template? _ hlawful, template?_node,
      hemitted.occurrences_template?, List.flatten_append, occurrences_append,
      hemitted.occurrences_ownTemplates, Nat.zero_add]
    congr 1
    split
    case isTrue hkind =>
      exact occurrences_rowTemplates hemitted 0 children hparts (hlawful.rowLawful hkind) label
    case isFalse => exact occurrences_templates hemitted children hparts label

theorem occurrences_templates (hemitted : EmittedAt opcode site) : (children : List Outline) →
    EverywhereIn (OnRows fun _ => RowLawful) children → (parent : Node) →
      occurrences opcode (templates children).flatten =
        scorableSites site (preorderOfParts parent children)
  | [], _, _ => by
    rw [templates_nil, preorderOfParts]
    rfl
  | child :: children, hlawful, parent => by
    obtain ⟨hchild, hchildren⟩ := (everywhereIn_cons child children).mp hlawful
    rw [templates_cons, List.flatten_append, occurrences_append, preorderOfParts,
      scorableSites_append, occurrences_template? hemitted child hchild (some parent),
      occurrences_templates hemitted children hchildren parent]

/-- A sign for any character is no site, so it makes no difference whether it is pushed by itself or
in a run. -/
theorem occurrences_rowTemplates (hemitted : EmittedAt opcode site) (length : Nat) :
    (children : List Outline) → EverywhereIn (OnRows fun _ => RowLawful) children →
    RowLawful children → (parent : Node) →
      occurrences opcode (rowTemplates length children).flatten =
        scorableSites site (preorderOfParts parent children)
  | [], _, _, _ => by
    rw [rowTemplates_nil, preorderOfParts]
    exact hemitted.occurrences_ofRun length
  | .node part parts :: children, hlawful, hrow, parent => by
    obtain ⟨hchild, hchildren⟩ := (everywhereIn_cons _ children).mp hlawful
    have hrest : RowLawful children := fun child hmem => hrow child (List.mem_cons_of_mem _ hmem)
    rw [preorderOfParts, scorableSites_append]
    cases hpart : part.isWildcardSymbol with
    | true =>
      obtain rfl := Node.eq_of_isWildcardSymbol hpart
      obtain rfl : parts = [.leaf .wildcard] := (hrow _ List.mem_cons_self).1 hpart
      rw [rowTemplates_wildcard length children rfl, hemitted.scorableSites_wildcardSymbol,
        Nat.zero_add]
      exact occurrences_rowTemplates hemitted (length + 1) children hchildren hrest parent
    | false =>
      have hlabel : (Outline.node part parts).label.isWildcardSymbol = false := hpart
      rw [rowTemplates_other length children hlabel, List.flatten_append, List.flatten_append,
        occurrences_append, occurrences_append, hemitted.occurrences_ofRun, Nat.zero_add,
        occurrences_template? hemitted _ hchild (some parent),
        occurrences_rowTemplates hemitted 0 children hchildren hrest parent]

end

end Outline

/-! ## Sites of a query -/

/-- The program of a query complements once for each negated condition that is scorable, caps once
for each of these and once for each bracketed choice of branches that is scorable, and each
complement stands directly behind a cap. -/
theorem Query.clamp_sites {α : Type} [Scalar α] {query : Query} {weights : Weights α}
    {program : Program α} (hcompile : query.compile weights = .ok program) :
    let negated := query.outline.preorder.countP fun part =>
      part.2.scorable && part.2.label.isNegation
    let groups := query.outline.preorder.countP fun part =>
      part.2.scorable && decide (part.2.kind = .group)
    (Program.opcodes program).count .negate = negated ∧
      (Program.opcodes program).count .clamp = negated + groups ∧
      ∀ before after, program = before ++ .negate :: after →
        ∃ start, before = start ++ [.clamp] := by
  obtain ⟨template, htemplate, rfl⟩ := Query.exists_template hcompile
  have hnegate := Outline.occurrences_template? emittedAt_negate query.outline
    query.outline_lawful none
  have hclamp := Outline.occurrences_template? emittedAt_clamp query.outline
    query.outline_lawful none
  rw [htemplate, Option.toList_some, List.flatten_singleton] at hnegate hclamp
  rw [Template.opcodes_fill]
  refine ⟨hnegate, hclamp.trans ?_, Query.capped_of_compile hcompile⟩
  refine Outline.scorableSites_or (fun node hnode => ?_) query.outline.preorder
  rw [Node.kind_of_isNegation hnode]
  rfl

/-- A negated condition on an empty expression has nothing to cap; another one is capped, and so is
a bracketed choice. -/
theorem Query.clamp_sites_empty :
    let query := (Query.parse "[word!=\"\"] \"(a|b)\" [word!=\"c\"]").toOption.get
      (by decide +kernel)
    (query.outline.preorder.countP fun part => part.2.label.isNegation) = 2 ∧
      ∃ program : Program Rat, query.compile Weights.ones = .ok program ∧
        (Program.opcodes program).count .negate = 1 ∧
        (Program.opcodes program).count .clamp = 2 := by
  intro query
  have hsome : query.outline.template?.isSome = true := by decide +kernel
  obtain ⟨template, htemplate⟩ := Option.isSome_iff_exists.mp hsome
  have hcompile : query.compile Weights.ones = .ok (Template.fill (Weights.ones : Weights Rat)
      template) := by
    rw [query.compile_eq_fill, htemplate]
  obtain ⟨hnegate, hclamp, -⟩ := Query.clamp_sites hcompile
  refine ⟨by decide +kernel, _, hcompile, hnegate.trans ?_, hclamp.trans ?_⟩
  · decide +kernel
  · decide +kernel

end CorpusCost
