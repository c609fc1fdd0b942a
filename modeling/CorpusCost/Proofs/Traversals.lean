import CorpusCost.Outline.Walk
import CorpusCost.Proofs.Everywhere

/-!
# The two walks agree

A walk hands over each node with the node it is a part of, and a numbered walk hands over whole
paths. Here the first one is followed step by step, while a record is kept of the nodes that are
open, of the pairs handed over on entering, and of the nodes that were open whenever one was left
(`Tour`). The record at the end of a walk is what the numbered walk gives, and what every step keeps
of a record says that its paths lead from the root downwards and that no number is given twice.
-/

set_option autoImplicit false

namespace CorpusCost

/-! ## Paths -/

/-- The node that a path leads to. -/
def Path.innermost (path : Path) : Option Node := path.getLast?.map PathEntry.node

/-- The number of the node that a path leads to. -/
def Path.number (path : Path) : Option Nat := path.getLast?.map PathEntry.id

/-- Whether a node is one of the parts of another one. -/
def Node.IsPartOf (node parent : Node) : Prop := ∃ part ∈ parent.parts, part.label = node

/-- Whether a path leads from the root, with the number 0, to parts with greater and greater
numbers, and each number is the place of its node among the nodes `entered`, where the node stands
with the one before it on the path. -/
inductive Path.Traced (entered : List (Option Node × Node)) : Path → Prop where
  /-- The root alone. -/
  | root {node : Node} (h : entered[0]? = some (none, node)) : Traced entered [⟨0, node⟩]
  /-- One part further down. -/
  | part {path : Path} {parent : PathEntry} {id : Nat} {node : Node}
      (hpath : Traced entered (path ++ [parent])) (hpart : node.IsPartOf parent.node)
      (hid : parent.id < id) (h : entered[id]? = some (some parent.node, node)) :
      Traced entered (path ++ [parent] ++ [⟨id, node⟩])

namespace Path

variable {entered : List (Option Node × Node)} {path : Path}

theorem innermost_append_singleton (path : Path) (entry : PathEntry) :
    innermost (path ++ [entry]) = some entry.node := by
  simp [innermost]

theorem number_append_singleton (path : Path) (entry : PathEntry) :
    number (path ++ [entry]) = some entry.id := by
  simp [number]

/-- A path that leads anywhere has a last entry. -/
theorem exists_of_innermost {parent : Node} (h : innermost path = some parent) :
    ∃ above entry, path = above ++ [entry] ∧ entry.node = parent := by
  obtain ⟨entry, hlast, hnode⟩ := Option.map_eq_some_iff.mp h
  obtain ⟨above, rfl⟩ := List.getLast?_eq_some_iff.mp hlast
  exact ⟨above, entry, rfl, hnode⟩

/-- Nodes that are entered later do not matter for a path. -/
theorem Traced.append (h : Traced entered path) (later : List (Option Node × Node)) :
    Traced (entered ++ later) path := by
  have hmore : ∀ {id : Nat} {pair : Option Node × Node}, entered[id]? = some pair →
      (entered ++ later)[id]? = some pair := by
    intro id pair hpair
    obtain ⟨hlt, -⟩ := List.getElem?_eq_some_iff.mp hpair
    rw [List.getElem?_append_left hlt, hpair]
  induction h with
  | root hroot => exact .root (hmore hroot)
  | part _ hpart hid hentered ih => exact .part ih hpart hid (hmore hentered)

/-- What comes before the last entry of a path is nothing or a path, and the last entry is that of a
node that was entered. -/
theorem Traced.last {above : Path} {entry : PathEntry} (h : Traced entered (above ++ [entry])) :
    (above = [] ∨ Traced entered above) ∧ entry.id < entered.length := by
  generalize hpath : above ++ [entry] = path at h
  cases h with
  | @root node hroot =>
    have hsingle : above ++ [entry] = [] ++ [⟨0, node⟩] := hpath
    obtain ⟨rfl, hentry⟩ := List.append_inj' hsingle rfl
    obtain rfl := List.singleton_inj.mp hentry
    obtain ⟨hlt, -⟩ := List.getElem?_eq_some_iff.mp hroot
    exact ⟨.inl rfl, hlt⟩
  | part habove hpart hid hentered =>
    obtain ⟨rfl, hentry⟩ := List.append_inj' hpath rfl
    obtain rfl := List.singleton_inj.mp hentry
    obtain ⟨hlt, -⟩ := List.getElem?_eq_some_iff.mp hentered
    exact ⟨.inr habove, hlt⟩

end Path

/-! ## Following a walk -/

/-- What is known of a walk that goes on. -/
structure Tour where
  /-- The nodes that were entered and not left, the root first; each is numbered by its place in
  the order of entering. -/
  opened : Path
  /-- The nodes that were entered, each with the one that was handed over as its parent. -/
  entered : List (Option Node × Node)
  /-- For each node that was left, the path of the nodes that were open then. -/
  left : List Path

namespace Tour

/-- Nothing was entered. -/
def start : Tour := ⟨[], [], []⟩

/-- A step of a walk: it enters the root, or a part of the innermost node that is open, or it leaves
that node. The parent that is handed over is the innermost node around the one that is entered or
left. -/
inductive Step : Tour → Visit → Tour → Prop where
  /-- The root is entered before anything else, and under no parent. -/
  | root (node : Node) : Step start ⟨.enter, none, node⟩ ⟨[⟨0, node⟩], [(none, node)], []⟩
  /-- A part of the innermost open node is entered. -/
  | enter {opened : Path} {parent node : Node} (entered : List (Option Node × Node))
      (left : List Path) (hparent : opened.innermost = some parent) (hpart : node.IsPartOf parent) :
      Step ⟨opened, entered, left⟩ ⟨.enter, some parent, node⟩
        ⟨opened ++ [⟨entered.length, node⟩], entered ++ [(some parent, node)], left⟩
  /-- The innermost open node is left. -/
  | leave (opened : Path) (entry : PathEntry) (entered : List (Option Node × Node))
      (left : List Path) :
      Step ⟨opened ++ [entry], entered, left⟩ ⟨.leave, opened.innermost, entry.node⟩
        ⟨opened, entered, left ++ [opened ++ [entry]]⟩

/-- A walk, step by step. -/
inductive Run : Tour → List Visit → Tour → Prop where
  /-- No step is left. -/
  | done (tour : Tour) : Run tour [] tour
  /-- A step and the rest of the walk. -/
  | step {tour next last : Tour} {visit : Visit} {visits : List Visit}
      (hstep : Step tour visit next) (hrest : Run next visits last) :
      Run tour (visit :: visits) last

variable {tour middle last : Tour}

theorem Run.append {first second : List Visit} (hfirst : Run tour first middle)
    (hsecond : Run middle second last) : Run tour (first ++ second) last := by
  induction hfirst with
  | done _ => exact hsecond
  | step hstep _ ih => exact .step hstep (ih hsecond)

theorem Step.run {visit : Visit} (h : Step tour visit last) : Run tour [visit] last :=
  .step h (.done last)

/-! ## What a step keeps -/

/-- What holds of the record throughout a walk. -/
structure Sound (tour : Tour) : Prop where
  /-- The open nodes lie on one path. -/
  opened : tour.opened = [] ∨ Path.Traced tour.entered tour.opened
  /-- So did those that were open when a node was left. -/
  left : ∀ path ∈ tour.left, Path.Traced tour.entered path
  /-- Every number that was given is that of a node that was left or is open, but not of two. -/
  numbers : (tour.left.filterMap Path.number ++ tour.opened.map PathEntry.id).Perm
    (List.range tour.entered.length)

theorem sound_start : Sound start where
  opened := .inl rfl
  left := nofun
  numbers := .refl _

/-- The innermost open node is the last one on a path. -/
theorem Sound.traced {above : Path} {entry : PathEntry} (h : tour.Sound)
    (hopened : tour.opened = above ++ [entry]) : Path.Traced tour.entered (above ++ [entry]) := by
  rcases h.opened with hnil | htraced
  · rw [hnil] at hopened
    exact absurd hopened.symm (by simp)
  · rwa [hopened] at htraced

theorem Step.sound {visit : Visit} (hstep : Step tour visit last) (h : tour.Sound) :
    last.Sound := by
  cases hstep with
  | root node =>
    refine ⟨.inr (.root ?_), nofun, .refl _⟩
    simp
  | @enter opened parent node entered left hparent hpart =>
    obtain ⟨above, entry, rfl, rfl⟩ := Path.exists_of_innermost hparent
    have htraced := h.traced rfl
    refine ⟨.inr ?_, fun path hpath => (h.left path hpath).append _, ?_⟩
    · exact .part (htraced.append _) hpart htraced.last.2 (by simp)
    · dsimp only
      rw [List.length_append, List.length_singleton, List.range_succ, List.map_append,
        ← List.append_assoc]
      exact h.numbers.append_right [entered.length]
  | leave opened entry entered left =>
    have htraced := h.traced rfl
    refine ⟨htraced.last.1, ?_, ?_⟩
    · intro path hpath
      rcases List.mem_append.mp hpath with hpath | hpath
      · exact h.left path hpath
      · obtain rfl := List.mem_singleton.mp hpath
        exact htraced
    · -- The number of the node that is left moves from the open ones to the others.
      have hnumbers := h.numbers
      have hleft : [opened ++ [entry]].filterMap Path.number = [entry.id] :=
        List.filterMap_cons_some (Path.number_append_singleton opened entry)
      rw [List.filterMap_append, hleft]
      rw [List.map_append, List.map_singleton, ← List.append_assoc] at hnumbers
      refine List.Perm.trans ?_ hnumbers
      rw [List.append_assoc, List.append_assoc]
      exact List.perm_append_comm.append_left _

theorem Run.sound {visits : List Visit} (hrun : Run tour visits last) (h : tour.Sound) :
    last.Sound := by
  induction hrun with
  | done _ => exact h
  | step hstep _ ih => exact ih (hstep.sound h)

end Tour

/-! ## Walks over outlines -/

namespace Outline

/-- What is handed over when a part is entered. -/
def handed (part : Option Node × Outline) : Option Node × Node := (part.1, part.2.label)

/-- The nodes of an outline in the order of entering, each with the node it is a part of. -/
def pairs (outline : Outline) : List (Option Node × Node) := outline.preorder.map handed

mutual

/-- A numbered walk gives as many numbers as it enters nodes. -/
theorem pathsUnder_next (parent : Option Node) : (outline : Outline) → (ancestors : Path) →
    (id : Nat) → (pathsUnder ancestors id outline).2 = id + (preorderUnder parent outline).length
  | .node label children, ancestors, id => by
    have hparts := pathsOfParts_next label children (ancestors ++ [⟨id, label⟩]) (id + 1)
    rw [preorderUnder, List.length_cons]
    change (pathsOfParts _ _ children).2 = _
    omega

theorem pathsOfParts_next (parent : Node) : (children : List Outline) → (ancestors : Path) →
    (id : Nat) →
      (pathsOfParts ancestors id children).2 = id + (preorderOfParts parent children).length
  | [], ancestors, id => rfl
  | child :: children, ancestors, id => by
    have hfirst := pathsUnder_next (some parent) child ancestors id
    have hothers := pathsOfParts_next parent children ancestors (pathsUnder ancestors id child).2
    rw [preorderOfParts, List.length_append]
    change (pathsOfParts _ (pathsUnder ancestors id child).2 children).2 = _
    omega

end

/-- The paths of a node are those of its parts and, last, its own. -/
theorem pathsUnder_node (ancestors : Path) (id : Nat) (label : Node) (children : List Outline) :
    (pathsUnder ancestors id (.node label children)).1 =
      (pathsOfParts (ancestors ++ [⟨id, label⟩]) (id + 1) children).1 ++
        [ancestors ++ [⟨id, label⟩]] := rfl

theorem pathsOfParts_cons (parent : Node) (ancestors : Path) (id : Nat) (child : Outline)
    (children : List Outline) :
    (pathsOfParts ancestors id (child :: children)).1 =
      (pathsUnder ancestors id child).1 ++ (pathsOfParts ancestors
        (id + (preorderUnder (some parent) child).length) children).1 := by
  rw [← pathsUnder_next (some parent) child ancestors id]
  rfl

mutual

/-- A walk over a part of the innermost open node enters its nodes in order, and leaves them where
a numbered walk stops. -/
theorem run_visitsUnder : (outline : Outline) → outline.IsWhole → {opened : Path} →
    {parent : Node} → opened.innermost = some parent → outline.label.IsPartOf parent →
    (entered : List (Option Node × Node)) → (left : List Path) →
      Tour.Run ⟨opened, entered, left⟩ (outline.visitsUnder (some parent))
        ⟨opened, entered ++ (outline.preorderUnder (some parent)).map handed,
          left ++ (outline.pathsUnder opened entered.length).1⟩
  | .node label children, hwhole, opened, parent, hparent, hpart, entered, left => by
    obtain ⟨rfl, hchildren⟩ := (isWhole_node label children).mp hwhole
    -- The parts are walked over while the node itself is the innermost open one.
    have hinner := run_visitsOfParts label.parts hchildren
      (Path.innermost_append_singleton opened ⟨entered.length, label⟩)
      (fun part hmem => ⟨part, hmem, rfl⟩) (entered ++ [(some parent, label)]) left
    have henter := (Tour.Step.enter entered left hparent hpart).run
    have hleave := (Tour.Step.leave opened ⟨entered.length, label⟩
      (entered ++ [(some parent, label)] ++ (preorderOfParts label label.parts).map handed)
      (left ++ (pathsOfParts (opened ++ [⟨entered.length, label⟩]) (entered.length + 1)
        label.parts).1)).run
    rw [List.length_append, List.length_singleton] at hinner
    rw [hparent] at hleave
    have hrun := henter.append (hinner.append hleave)
    rw [visitsUnder, preorderUnder, pathsUnder_node, List.map_cons, ← List.append_assoc]
    simpa [handed] using hrun

theorem run_visitsOfParts : (children : List Outline) → AreWhole children → {opened : Path} →
    {parent : Node} → opened.innermost = some parent →
    (∀ child ∈ children, child.label.IsPartOf parent) →
    (entered : List (Option Node × Node)) → (left : List Path) →
      Tour.Run ⟨opened, entered, left⟩ (visitsOfParts parent children)
        ⟨opened, entered ++ (preorderOfParts parent children).map handed,
          left ++ (pathsOfParts opened entered.length children).1⟩
  | [], _, opened, parent, _, _, entered, left => by
    simpa [visitsOfParts, preorderOfParts, pathsOfParts] using Tour.Run.done ⟨opened, entered, left⟩
  | child :: children, hwhole, opened, parent, hparent, hparts, entered, left => by
    obtain ⟨hchild, hchildren⟩ := (areWhole_cons child children).mp hwhole
    obtain ⟨hpart, hothers⟩ := List.forall_mem_cons.mp hparts
    have hfirst := run_visitsUnder child hchild hparent hpart entered left
    have hrest := run_visitsOfParts children hchildren hparent hothers
      (entered ++ (child.preorderUnder (some parent)).map handed)
      (left ++ (child.pathsUnder opened entered.length).1)
    rw [List.length_append, List.length_map] at hrest
    rw [visitsOfParts, preorderOfParts, pathsOfParts_cons parent, List.map_append,
      ← List.append_assoc, ← List.append_assoc]
    exact hfirst.append hrest

end

/-- A walk over a whole outline begins and ends with the root, and in between enters and leaves the
nodes below it in order. -/
theorem run_visits {outline : Outline} (hwhole : outline.IsWhole) :
    Tour.Run .start outline.visits ⟨[], outline.pairs, outline.paths⟩ := by
  obtain ⟨label, children⟩ := outline
  obtain ⟨rfl, hchildren⟩ := (isWhole_node label children).mp hwhole
  have hinner := run_visitsOfParts label.parts hchildren
    (Path.innermost_append_singleton [] ⟨0, label⟩) (fun part hmem => ⟨part, hmem, rfl⟩)
    [(none, label)] []
  have hleave := (Tour.Step.leave [] ⟨0, label⟩
    ([(none, label)] ++ (preorderOfParts label label.parts).map handed)
    (pathsOfParts [⟨0, label⟩] 1 label.parts).1).run
  exact (Tour.Step.root label).run.append (hinner.append hleave)

mutual

theorem parent_ne_none_under (parent : Node) : (outline : Outline) →
    ∀ visit ∈ outline.visitsUnder (some parent), visit.parent ≠ none
  | .node label children => by
    have hparts := parent_ne_none_ofParts label children
    simp only [visitsUnder, List.mem_append, List.mem_cons, List.not_mem_nil, or_false]
    rintro visit ((rfl | hvisit) | rfl)
    · exact Option.some_ne_none parent
    · exact hparts visit hvisit
    · exact Option.some_ne_none parent

theorem parent_ne_none_ofParts (parent : Node) : (children : List Outline) →
    ∀ visit ∈ visitsOfParts parent children, visit.parent ≠ none
  | [] => by
    rw [visitsOfParts]
    simp
  | child :: children => by
    have hfirst := parent_ne_none_under parent child
    have hothers := parent_ne_none_ofParts parent children
    rw [visitsOfParts]
    intro visit hvisit
    rcases List.mem_append.mp hvisit with hvisit | hvisit
    · exact hfirst visit hvisit
    · exact hothers visit hvisit

end

end Outline

/-- The walk over a query and the numbered walk over it agree. Followed step by step, the walk
enters and leaves nodes like brackets; it hands over the innermost open node as parent, which is
none for the root and no other node, and has entered `pairs` in the end. Where it leaves a node, the
nodes that are open make up the path at which the numbered walk stops. Such a path leads from the
root, which has the number 0, from part to part with growing numbers, each of which is the place of
its node in `pairs`; and the numbered walk stops once for each number. -/
theorem Query.traversals_agree (query : Query) :
    Tour.Run .start query.outline.visits ⟨[], query.outline.pairs, query.outline.paths⟩ ∧
    (∃ inner, query.outline.visits =
        ⟨.enter, none, .query query⟩ :: inner ++ [⟨.leave, none, .query query⟩] ∧
      ∀ visit ∈ inner, visit.parent ≠ none) ∧
    query.outline.pairs[0]? = some (none, .query query) ∧
    (∀ path ∈ query.outline.paths, Path.Traced query.outline.pairs path) ∧
    (query.outline.paths.filterMap Path.number).Perm (List.range query.outline.pairs.length) := by
  have hrun := Outline.run_visits (Query.isWhole_outline query)
  have hsound := hrun.sound Tour.sound_start
  have hnumbers : (query.outline.paths.filterMap Path.number).Perm
      (List.range query.outline.pairs.length) := by
    simpa using hsound.numbers
  rw [Query.outline] at hrun hsound hnumbers ⊢
  refine ⟨hrun, ⟨_, rfl, Outline.parent_ne_none_ofParts _ _⟩, rfl, hsound.left, hnumbers⟩

end CorpusCost
