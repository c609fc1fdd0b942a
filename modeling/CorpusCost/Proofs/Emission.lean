import CorpusCost.Proofs.Everywhere
import CorpusCost.Proofs.Template
import CorpusCost.Query.Reading

/-!
# What a walk emits

The emitter goes over an outline step by step, counts the values that each open node has on the
stack, and keeps runs of signs for any character back until they end. What it emits in the end is
the template of the outline, filled with the weights (`visitAll_outline`): the weights decide what
is pushed and nothing else, so that two programs of one query differ only in their constants.

Inside an unbroken row the walk may come to its end with a run that is counted but not pushed, so
the statement about its parts holds after the run is pushed.
-/

set_option autoImplicit false

namespace CorpusCost

open Machine

variable {α : Type} [Scalar α]

namespace Emitter

/-! ## Gains -/

/-- The emitter after templates that each leave one value for the innermost node. -/
def gain (emitter : Emitter α) (weights : Weights α) (templates : List Template) : Emitter α :=
  match emitter.frames with
  | frame :: frames =>
    { emitter with
      program := emitter.program ++ Template.fill weights templates.flatten
      frames := { frame with values := frame.values + templates.length } :: frames }
  | [] =>
    { emitter with
      program := emitter.program ++ Template.fill weights templates.flatten
      results := emitter.results + templates.length }

variable (weights : Weights α)

theorem gain_nil (emitter : Emitter α) : emitter.gain weights [] = emitter := by
  obtain ⟨program, _ | ⟨frame, frames⟩, results⟩ := emitter <;> simp [gain]

theorem gain_gain (emitter : Emitter α) (templates others : List Template) :
    (emitter.gain weights templates).gain weights others =
      emitter.gain weights (templates ++ others) := by
  obtain ⟨program, _ | ⟨frame, frames⟩, results⟩ := emitter <;>
    simp [gain, Nat.add_assoc]

theorem gain_cons (program : Program α) (frame : Frame) (frames : List Frame) (results : Nat)
    (templates : List Template) :
    gain ⟨program, frame :: frames, results⟩ weights templates =
      ⟨program ++ Template.fill weights templates.flatten,
        { frame with values := frame.values + templates.length } :: frames, results⟩ := rfl

theorem gain_singleton (emitter : Emitter α) (template : Template) :
    emitter.gain weights [template] =
      addValue { emitter with program := emitter.program ++ Template.fill weights template } := by
  obtain ⟨program, _ | ⟨frame, frames⟩, results⟩ := emitter <;> simp [gain, addValue]

/-! ## Runs that are not pushed yet -/

omit [Scalar α] in
/-- The signs for any character that the innermost node has pending. -/
def pending (emitter : Emitter α) : Nat :=
  match emitter.frames with
  | frame :: _ => frame.pending
  | [] => 0

omit [Scalar α] in
/-- Whether the node around the innermost one is an unbroken row. -/
def underRow (emitter : Emitter α) : Bool :=
  match emitter.frames with
  | _ :: outer :: _ => outer.kind = .row
  | _ => false

omit [Scalar α] in
theorem underRow_cons (program others : Program α) (frame : Frame) (frames : List Frame)
    (results : Nat) :
    underRow ⟨program, frame :: frames, results⟩ = inRow ⟨others, frames, results⟩ := by
  cases frames <;> rfl

theorem flush_of_pending_eq_zero {emitter : Emitter α} (hpending : emitter.pending = 0) :
    emitter.flush weights = emitter := by
  obtain ⟨program, _ | ⟨frame, frames⟩, results⟩ := emitter
  · rfl
  · exact if_pos hpending

/-- Pushing what is pending gains the template of the run. -/
theorem flush_cons (program : Program α) (kind : Kind) (values pending : Nat) (seeded : Bool)
    (frames : List Frame) (results : Nat) :
    flush ⟨program, ⟨kind, values, pending, seeded⟩ :: frames, results⟩ weights =
      gain ⟨program, ⟨kind, values, 0, seeded⟩ :: frames, results⟩ weights
        (Template.ofRun pending) := by
  cases pending with
  | zero => exact (gain_nil weights _).symm
  | succ length => rfl

/-! ## Entering and leaving -/

/-- A node that is no sign in a row is opened; only a run that is pending is pushed before. -/
theorem enter_eq_openFrame {emitter : Emitter α} {node : Node} (hpending : emitter.pending = 0)
    (hwildcard : node.kind = .wildcard → emitter.underRow = false) :
    emitter.enter weights node = emitter.openFrame weights node := by
  unfold enter
  simp only [flush_of_pending_eq_zero weights hpending, ite_self]
  obtain ⟨program, _ | ⟨inner, _ | ⟨outer, frames⟩⟩, results⟩ := emitter
  · rfl
  · rfl
  · refine if_neg ?_
    rintro ⟨hkind, hrow⟩
    have hnot := hwildcard hkind
    simp [underRow, hrow] at hnot

/-- A node that is opened gains the template of its own constant. -/
theorem openFrame_eq (emitter : Emitter α) (node : Node) :
    emitter.openFrame weights node =
      gain ⟨emitter.program, ⟨node.kind, 0, 0, node.constant?.isSome⟩ :: emitter.frames,
        emitter.results⟩ weights node.ownTemplates := by
  unfold openFrame Node.ownTemplates
  cases node.constant? with
  | none => exact (gain_nil weights _).symm
  | some slot => rfl

/-- Before a part of a row that is no sign for any character, what is pending is pushed. -/
theorem enter_flush (emitter : Emitter α) {node : Node} (hrow : emitter.inRow = true)
    (hnode : node.isWildcardSymbol = false) (hpending : (emitter.flush weights).pending = 0) :
    emitter.enter weights node = (emitter.flush weights).enter weights node := by
  have hsame := flush_of_pending_eq_zero weights hpending
  unfold enter
  simp only [hrow, hnode, hsame, Bool.not_false, Bool.and_self, ite_self, if_true]

/-- What is emitted when a node is left makes one value of its values. -/
theorem finish_eq_fill (node : Node) (values : Nat) :
    Frame.finish ⟨node.kind, values, 0, node.constant?.isSome⟩ weights node =
      Template.fill weights (node.finishing values) := by
  have hcombine : (List.replicate (values - 1) node.kind.rule.combine.instruction : Program α) =
      Template.fill weights (List.replicate (values - 1) node.kind.rule.combine.opcode) := by
    unfold Template.fill
    rw [List.map_replicate]
    cases node.kind.rule.combine <;> rfl
  unfold Frame.finish Node.finishing
  dsimp only
  rw [hcombine]
  simp only [Template.fill_append, apply_ite (Template.fill weights)]
  cases node.constant? <;> cases node.kind.rule.scale <;> rfl

/-- A node that is left with some templates in line gains the template it makes of them. -/
theorem leave_eq (emitter : Emitter α) (node : Node) (templates : List Template)
    {inside : Emitter α}
    (hinside : (if node.kind = .row then inside.flush weights else inside) =
      gain ⟨emitter.program, ⟨node.kind, 0, 0, node.constant?.isSome⟩ :: emitter.frames,
        emitter.results⟩ weights templates) :
    inside.leave weights node = emitter.gain weights (node.template? templates).toList := by
  unfold leave
  simp only [hinside, gain_cons, Nat.zero_add]
  cases templates with
  | nil => simpa [Node.template?] using (gain_nil weights emitter).symm
  | cons first parts =>
    rw [Node.template?, Option.toList_some, gain_singleton, Template.fill_append,
      ← finish_eq_fill, List.append_assoc]
    rfl

end Emitter

/-! ## Unbroken rows -/

/-- What the emitter relies on in an unbroken row: a part that is a symbol for any character has the
sign as its only part, and no other part is such a sign or has one directly below it. -/
def Outline.RowLawful (children : List Outline) : Prop :=
  ∀ child ∈ children,
    (child.label.isWildcardSymbol = true → child.children = [.leaf .wildcard]) ∧
      (child.label.isWildcardSymbol = false →
        child.kind ≠ .wildcard ∧ ∀ part ∈ child.children, part.kind ≠ .wildcard)

/-- Whether all rows in an outline are such rows. -/
abbrev Outline.Lawful (outline : Outline) : Prop :=
  outline.Everywhere (Outline.OnRows fun _ => Outline.RowLawful)

theorem Regex.Member.outline_kind (member : Member) : member.outline.kind = .member := by
  cases member <;> rfl

theorem Regex.Atom.outline_rowLawful (atom : Atom) :
    (atom.outline.label.isWildcardSymbol = true → atom.outline.children = [.leaf .wildcard]) ∧
      (atom.outline.label.isWildcardSymbol = false →
        atom.outline.kind ≠ .wildcard ∧ ∀ part ∈ atom.outline.children, part.kind ≠ .wildcard) := by
  cases atom with
  | bounds range =>
    simp [Atom.outline, Node.isWildcardSymbol, Outline.kind, Outline.leaf, Node.kind]
  | symbol sign =>
    cases sign <;>
      simp [Atom.outline, Symbol.outline, Node.isWildcardSymbol, Outline.kind, Outline.leaf,
        Node.kind]
  | charClass members =>
    refine ⟨by simp [Atom.outline, Node.isWildcardSymbol], fun _ => ⟨?_, ?_⟩⟩
    · simp [Atom.outline, Outline.kind, Node.kind]
    · intro part hpart
      obtain ⟨member, -, rfl⟩ := List.mem_map.mp hpart
      rw [member.outline_kind]
      decide
  | namedClass name =>
    simp [Atom.outline, Outline.leaf, Node.isWildcardSymbol, Outline.kind, Node.kind]

theorem Query.outline_lawful (query : Query) : query.outline.Lawful := by
  refine Outline.Everywhere.imp ?_ query.outline query.isWhole_outline
  rintro label children rfl
  cases label with
  | row atoms =>
    intro child hchild
    obtain ⟨atom, -, rfl⟩ := List.mem_map.mp hchild
    exact atom.outline_rowLawful
  | _ => trivial

/-- An unbroken row is the only kind of node with the kind of a row. -/
theorem Node.exists_row_of_kind {node : Node} (hkind : node.kind = .row) :
    ∃ atoms, node = .row atoms := by
  cases node <;> simp_all [Node.kind]

theorem Outline.Lawful.rowLawful {label : Node} {children : List Outline}
    (hlawful : (Outline.node label children).Lawful) (hkind : label.kind = .row) :
    Outline.RowLawful children := by
  obtain ⟨atoms, rfl⟩ := Node.exists_row_of_kind hkind
  exact ((Outline.everywhere_node _ _).mp hlawful).1

theorem Node.eq_of_isWildcardSymbol {node : Node} (hnode : node.isWildcardSymbol = true) :
    node = .symbol .any := by
  unfold Node.isWildcardSymbol at hnode
  split at hnode
  · rfl
  · cases hnode

/-! ## The walk -/

namespace Emitter

variable (weights : Weights α)

theorem visitAll_append (emitter : Emitter α) (visits others : List Visit) :
    emitter.visitAll weights (visits ++ others) =
      (emitter.visitAll weights visits).visitAll weights others := by
  rw [visitAll, List.foldl_append]
  rfl

theorem visitAll_visitsUnder (emitter : Emitter α) (parent : Option Node) (label : Node)
    (children : List Outline) :
    emitter.visitAll weights (Outline.visitsUnder parent (.node label children)) =
      ((emitter.enter weights label).visitAll weights
        (Outline.visitsOfParts label children)).leave weights label := by
  rw [Outline.visitsUnder, visitAll_append]
  rfl

/-- The walk over a sign for any character in a row counts it. -/
theorem visitAll_wildcardSymbol (parent : Option Node) (program : Program α) (values pending : Nat)
    (seeded : Bool) (frames : List Frame) (results : Nat) :
    visitAll weights ⟨program, ⟨.row, values, pending, seeded⟩ :: frames, results⟩
        (Outline.visitsUnder parent (.node (.symbol .any) [.leaf .wildcard])) =
      ⟨program, ⟨.row, values, pending + 1, seeded⟩ :: frames, results⟩ := by
  cases frames <;> rfl

mutual

/-- The walk over a part that is not a sign in a row gains the template of the part. -/
theorem visitAll_outline (outline : Outline) (hlawful : outline.Lawful) (parent : Option Node)
    (emitter : Emitter α) (hpending : emitter.pending = 0)
    (hunder : outline.kind = .wildcard → emitter.underRow = false)
    (hrow : emitter.inRow = true → ∀ part ∈ outline.children, part.kind ≠ .wildcard) :
    emitter.visitAll weights (outline.visitsUnder parent) =
      emitter.gain weights outline.template?.toList := by
  match outline, hlawful with
  | .node label children, hlawful =>
    have hparts := ((Outline.everywhere_node label children).mp hlawful).2
    have henter : emitter.enter weights label = emitter.openFrame weights label :=
      enter_eq_openFrame weights hpending hunder
    rw [visitAll_visitsUnder, henter, openFrame_eq, gain_cons, Outline.template?_node]
    refine leave_eq weights emitter label _ ?_
    rw [← gain_gain, gain_cons]
    by_cases hkind : label.kind = .row
    · simp only [hkind]
      exact visitAll_rowParts children hparts (hlawful.rowLawful hkind) label _ _ 0 _ _ _
    · simp only [if_neg hkind]
      exact visitAll_parts children hparts label _ _ _ _ hkind rfl hrow

/-- The walk over the parts of a node that is no row gains their templates. -/
theorem visitAll_parts (children : List Outline)
    (hlawful : Outline.EverywhereIn (Outline.OnRows fun _ => Outline.RowLawful) children)
    (label : Node) (program : Program α) (frame : Frame) (frames : List Frame) (results : Nat)
    (hkind : frame.kind ≠ .row) (hpending : frame.pending = 0)
    (hrow : inRow (⟨program, frames, results⟩ : Emitter α) = true →
      ∀ part ∈ children, part.kind ≠ .wildcard) :
    visitAll weights ⟨program, frame :: frames, results⟩ (Outline.visitsOfParts label children) =
      gain ⟨program, frame :: frames, results⟩ weights (Outline.templates children) := by
  match children, hlawful with
  | [], _ =>
    rw [Outline.visitsOfParts, Outline.templates_nil]
    exact (gain_nil weights _).symm
  | child :: children, hlawful =>
    obtain ⟨hchild, hchildren⟩ := (Outline.everywhereIn_cons child children).mp hlawful
    have hunder : child.kind = .wildcard →
        underRow (⟨program, frame :: frames, results⟩ : Emitter α) = false := by
      intro hwildcard
      rw [underRow_cons program program]
      exact Bool.eq_false_iff.mpr fun hin => hrow hin child (by simp) hwildcard
    have hfirst := visitAll_outline child hchild (some label)
      ⟨program, frame :: frames, results⟩ hpending hunder (by simp [inRow, hkind])
    rw [Outline.visitsOfParts, visitAll_append, hfirst, Outline.templates_cons, ← gain_gain,
      gain_cons]
    exact visitAll_parts children hchildren label _ _ frames results hkind hpending
      (fun hin part hpart => hrow hin part (by simp [hpart]))

/-- The walk over the parts of a row gains their templates once the run at the end is pushed. -/
theorem visitAll_rowParts (children : List Outline)
    (hlawful : Outline.EverywhereIn (Outline.OnRows fun _ => Outline.RowLawful) children)
    (hparts : Outline.RowLawful children) (label : Node) (program : Program α)
    (values pending : Nat) (seeded : Bool) (frames : List Frame) (results : Nat) :
    flush (visitAll weights ⟨program, ⟨.row, values, pending, seeded⟩ :: frames, results⟩
        (Outline.visitsOfParts label children)) weights =
      gain ⟨program, ⟨.row, values, 0, seeded⟩ :: frames, results⟩ weights
        (Outline.rowTemplates pending children) := by
  match children, hlawful, hparts with
  | [], _, _ =>
    rw [Outline.visitsOfParts, Outline.rowTemplates_nil]
    exact flush_cons weights program .row values pending seeded frames results
  | .node part parts :: children, hlawful, hparts =>
    obtain ⟨hchild, hchildren⟩ := (Outline.everywhereIn_cons _ children).mp hlawful
    obtain ⟨hwildcard, hother⟩ := hparts (.node part parts) (by simp)
    have hrest : Outline.RowLawful children := fun child hmem => hparts child (by simp [hmem])
    rw [Outline.visitsOfParts, visitAll_append]
    cases hpart : part.isWildcardSymbol with
    | true =>
      obtain rfl := Node.eq_of_isWildcardSymbol hpart
      obtain rfl : parts = [.leaf .wildcard] := hwildcard hpart
      rw [visitAll_wildcardSymbol, Outline.rowTemplates_wildcard pending children rfl]
      exact visitAll_rowParts children hchildren hrest label program values (pending + 1) seeded
        frames results
    | false =>
      obtain ⟨hkind, hbelow⟩ := hother hpart
      have hflush := flush_cons weights program .row values pending seeded frames results
      have hfirst := visitAll_outline (.node part parts) hchild (some label)
        (gain ⟨program, ⟨.row, values, 0, seeded⟩ :: frames, results⟩ weights
          (Template.ofRun pending)) rfl (fun h => absurd h hkind) (fun _ => hbelow)
      have hlabel : (Outline.node part parts).label.isWildcardSymbol = false := hpart
      have henter := enter_flush weights
        ⟨program, ⟨.row, values, pending, seeded⟩ :: frames, results⟩ rfl hpart
        (by rw [hflush]; rfl)
      rw [Outline.rowTemplates_other pending children hlabel, visitAll_visitsUnder, henter, hflush,
        ← visitAll_visitsUnder, hfirst, ← gain_gain, ← gain_gain]
      exact visitAll_rowParts children hchildren hrest label _ _ 0 seeded frames results

end

end Emitter

/-! ## Programs of queries -/

/-- The walk over a query emits its template, filled with the weights, and nothing else. -/
theorem Query.visitAll_outline (query : Query) (weights : Weights α) :
    Emitter.start.visitAll weights query.outline.visits =
      ⟨Template.fill weights query.outline.template?.toList.flatten, [],
        query.outline.template?.toList.length⟩ := by
  have hwalk := Emitter.visitAll_outline weights query.outline query.outline_lawful none
    Emitter.start rfl (fun _ => rfl) nofun
  rw [Outline.visits, hwalk]
  simp [Emitter.start, Emitter.gain]

/-- The program of a query is its template, filled with the weights; a query without a template has
no program. -/
theorem Query.compile_eq_fill (query : Query) (weights : Weights α) :
    query.compile weights =
      match query.outline.template? with
      | some template => .ok (Template.fill weights template)
      | none => .error .emptyQuery := by
  unfold compile
  rw [query.visitAll_outline weights]
  cases query.outline.template? <;> simp

/-- The program of a query is one template for all weights, or there is none for all of them. So
weights, of whatever kinds of number, give programs that are equal but for their constants, and
weights that agree on the slots of the template give the same program. -/
theorem Query.compile_shape (query : Query) :
    (∀ {α : Type} [Scalar α] (weights : Weights α),
      query.compile weights =
        match query.outline.template? with
        | some template => .ok (Template.fill weights template)
        | none => .error .emptyQuery) ∧
    (∀ {α β : Type} [Scalar α] [Scalar β] (weights : Weights α) (others : Weights β),
      (query.compile weights).map Program.opcodes = (query.compile others).map Program.opcodes) ∧
    ∀ {α : Type} [Scalar α] (weights others : Weights α),
      (∀ template, query.outline.template? = some template →
        ∀ slot ∈ template.slots, weights.get slot = others.get slot) →
      query.compile weights = query.compile others := by
  refine ⟨fun weights => query.compile_eq_fill weights, ?_, ?_⟩
  · intro α β _ _ weights others
    rw [query.compile_eq_fill weights, query.compile_eq_fill others]
    cases query.outline.template? with
    | none => rfl
    | some template =>
      simp only [Except.map, Template.opcodes_fill]
  · intro α _ weights others hagree
    rw [query.compile_eq_fill weights, query.compile_eq_fill others]
    cases htemplate : query.outline.template? with
    | none => rfl
    | some template => exact congrArg Except.ok (Template.fill_congr (hagree template htemplate))

/-- The query `[word="a"]` reads no weight of a scope. -/
theorem Query.compile_shape_word :
    let query := (Query.parse "[word=\"a\"]").toOption.get (by decide +kernel)
    let weights : Weights Rat := Weights.ones
    query.outline.template?.isSome = true ∧
      query.compile weights = query.compile (weights.set .scope 7) := by
  intro query weights
  have hread : ∀ template ∈ query.outline.template?, .scope ∉ template.slots := by decide +kernel
  refine ⟨by decide +kernel, query.compile_shape.2.2 weights (weights.set .scope 7) ?_⟩
  intro template htemplate slot hslot
  rw [Weights.get_set, if_neg]
  rintro rfl
  exact hread template htemplate hslot

end CorpusCost
