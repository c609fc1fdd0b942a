import CorpusCost.Outline.Dump
import CorpusCost.Proofs.QueryReadBack
import CorpusCost.Proofs.Scaffolds
import CorpusCost.Proofs.Traversals

/-!
# Listings row by row

A listing has a row for each node, in the order of entering, and each row is ended by a line feed.
The rows are followed here along the numbered walk (`Outline.Listed`), so that the number and the
indent of a row are those of the path that leads to its node. The rows are the lines of the listing
unless a text between quotes has a line feed in it: nothing else in a row can.
-/

set_option autoImplicit false

namespace CorpusCost

/-! ## Lines of a text -/

namespace Text

/-- The lines of a text all of whose lines are ended. -/
def endedLines (text : List Char) : List (List Char) := (text.splitOn '\n').dropLast

/-- Rows that are each ended fall into the lines between their line feeds. -/
theorem endedLines_flatMap (rows : List (List Char)) :
    endedLines (rows.flatMap (· ++ ['\n'])) = rows.flatMap (·.splitOn '\n') := by
  have hsplit : (rows.flatMap (· ++ ['\n'])).splitOn '\n' =
      rows.flatMap (·.splitOn '\n') ++ [[]] := by
    induction rows with
    | nil => rfl
    | cons row rows ih =>
      rw [List.flatMap_cons, List.append_assoc, List.singleton_append,
        List.splitOn_append_cons_self, ih, List.flatMap_cons, List.append_assoc]
  rw [endedLines, hsplit, List.dropLast_concat]

theorem one_le_length_splitOn (row : List Char) : 1 ≤ (row.splitOn '\n').length :=
  List.length_pos_iff.mpr (List.splitOn_ne_nil '\n' row)

/-- A row is one line if it has no line feed in it. -/
theorem length_splitOn_eq_one {row : List Char} :
    (row.splitOn '\n').length = 1 ↔ '\n' ∉ row := by
  constructor
  · intro hone hmem
    obtain ⟨before, after, rfl⟩ := List.append_of_mem hmem
    rw [List.splitOn_append_cons_self, List.length_append] at hone
    have hbefore := one_le_length_splitOn before
    have hafter := one_le_length_splitOn after
    omega
  · intro hmem
    rw [List.splitOn_eq_singleton hmem, List.length_singleton]

/-- There are as many lines as rows only if no row has a line feed in it. -/
theorem length_endedLines_eq {rows : List (List Char)} :
    (endedLines (rows.flatMap (· ++ ['\n']))).length = rows.length ↔
      ∀ row ∈ rows, '\n' ∉ row := by
  rw [endedLines_flatMap]
  -- No row is less than a line, so that a row too many cannot be made up for.
  have hle : ∀ rows : List (List Char),
      rows.length ≤ (rows.flatMap (·.splitOn '\n')).length := by
    intro rows
    induction rows with
    | nil => simp
    | cons row rows ih =>
      have hrow := one_le_length_splitOn row
      rw [List.flatMap_cons, List.length_append, List.length_cons]
      omega
  induction rows with
  | nil => simp
  | cons row rows ih =>
    have hrow := one_le_length_splitOn row
    have hrows := hle rows
    rw [List.flatMap_cons, List.length_append, List.length_cons, List.forall_mem_cons]
    constructor
    · intro hsum
      exact ⟨length_splitOn_eq_one.mp (by omega), ih.mp (by omega)⟩
    · rintro ⟨hone, hothers⟩
      rw [length_splitOn_eq_one.mpr hone, ih.mpr hothers, Nat.add_comm]

/-- Rows without line feeds are the lines. -/
theorem endedLines_eq {rows : List (List Char)} (hrows : ∀ row ∈ rows, '\n' ∉ row) :
    endedLines (rows.flatMap (· ++ ['\n'])) = rows := by
  rw [endedLines_flatMap]
  induction rows with
  | nil => rfl
  | cons row rows ih =>
    obtain ⟨hrow, hothers⟩ := List.forall_mem_cons.mp hrows
    rw [List.flatMap_cons, List.splitOn_eq_singleton hrow, ih hothers, List.singleton_append]

end Text

/-! ## Rows along a walk -/

namespace Outline

mutual

theorem length_preorderUnder (parent : Option Node) :
    (outline : Outline) → (preorderUnder parent outline).length = outline.size
  | .node label children => by
    have hparts := length_preorderOfParts label children
    rw [preorderUnder, List.length_cons, hparts, size, Nat.add_comm]

theorem length_preorderOfParts (parent : Node) :
    (children : List Outline) → (preorderOfParts parent children).length = sizeOfParts children
  | [] => rfl
  | child :: children => by
    have hfirst := length_preorderUnder (some parent) child
    have hothers := length_preorderOfParts parent children
    rw [preorderOfParts, List.length_append, hfirst, hothers, sizeOfParts]

end

/-- A walk enters as many nodes as there are. -/
theorem length_pairs (outline : Outline) : outline.pairs.length = outline.size := by
  rw [pairs, List.length_map, preorder, length_preorderUnder]

/-- The rows are those of the nodes that are entered, which are numbered from `id` in this order,
and the indent of a row is the length of the path that leads to its node. -/
structure Listed (effects : Nat → Float) (id : Nat) (entered : List (Option Node × Node))
    (paths : List Path) (rows : List (List Char)) : Prop where
  /-- There is a row for each node. -/
  length : rows.length = entered.length
  /-- Each row is that of its node. -/
  row : ∀ (k : Nat) (parent : Option Node) (node : Node), entered[k]? = some (parent, node) →
    ∃ above, above ++ [⟨id + k, node⟩] ∈ paths ∧
      rows[k]? = some (node.line (id + k) above.length effects)

namespace Listed

variable {effects : Nat → Float} {id : Nat}

theorem nil : Listed effects id [] [] [] where
  length := rfl
  row := by simp

/-- A node comes before its parts, and its path behind theirs. -/
theorem cons {entered : List (Option Node × Node)} {paths : List Path} {rows : List (List Char)}
    (h : Listed effects (id + 1) entered paths rows) (parent : Option Node) (node : Node)
    (above : Path) : Listed effects id ((parent, node) :: entered)
      (paths ++ [above ++ [⟨id, node⟩]]) (node.line id above.length effects :: rows) where
  length := congrArg (· + 1) h.length
  row
    | 0, _, other, hentered => by
      obtain ⟨rfl, rfl⟩ : parent = _ ∧ node = other := by simpa using hentered
      exact ⟨above, by simp, rfl⟩
    | k + 1, _, other, hentered => by
      obtain ⟨inner, hpath, hrow⟩ := h.row k _ other hentered
      rw [Nat.add_assoc, Nat.add_comm 1 k] at hpath hrow
      exact ⟨inner, List.mem_append_left _ hpath, hrow⟩

/-- Nodes that are entered later have their rows further down. -/
theorem append {entered entered' : List (Option Node × Node)} {paths paths' : List Path}
    {rows rows' : List (List Char)} (h : Listed effects id entered paths rows)
    (h' : Listed effects (id + entered.length) entered' paths' rows') :
    Listed effects id (entered ++ entered') (paths ++ paths') (rows ++ rows') where
  length := by rw [List.length_append, List.length_append, h.length, h'.length]
  row k parent node hentered := by
    rcases Nat.lt_or_ge k entered.length with hk | hk
    · rw [List.getElem?_append_left hk] at hentered
      obtain ⟨above, hpath, hrow⟩ := h.row k parent node hentered
      refine ⟨above, List.mem_append_left _ hpath, ?_⟩
      rwa [List.getElem?_append_left (h.length ▸ hk)]
    · rw [List.getElem?_append_right hk] at hentered
      obtain ⟨above, hpath, hrow⟩ := h'.row _ parent node hentered
      rw [Nat.add_assoc, Nat.add_sub_cancel' hk] at hpath hrow
      refine ⟨above, List.mem_append_right _ hpath, ?_⟩
      rwa [List.getElem?_append_right (h.length ▸ hk), h.length]

end Listed

mutual

/-- A listing counts its nodes as a numbered walk does. -/
theorem linesFrom_next (effects : Nat → Float) (parent : Option Node) : (outline : Outline) →
    (id depth : Nat) →
      (linesFrom effects id depth outline).2 = id + (preorderUnder parent outline).length
  | .node label children, id, depth => by
    have hparts := linesOfParts_next effects label children (id + 1) (depth + 1)
    rw [preorderUnder, List.length_cons]
    change (linesOfParts effects _ _ children).2 = _
    omega

theorem linesOfParts_next (effects : Nat → Float) (parent : Node) : (children : List Outline) →
    (id depth : Nat) →
      (linesOfParts effects id depth children).2 = id + (preorderOfParts parent children).length
  | [], id, depth => rfl
  | child :: children, id, depth => by
    have hfirst := linesFrom_next effects (some parent) child id depth
    have hothers := linesOfParts_next effects parent children
      (linesFrom effects id depth child).2 depth
    rw [preorderOfParts, List.length_append]
    change (linesOfParts effects (linesFrom effects id depth child).2 depth children).2 = _
    omega

end

theorem linesOfParts_cons (effects : Nat → Float) (parent : Node) (id depth : Nat)
    (child : Outline) (children : List Outline) :
    (linesOfParts effects id depth (child :: children)).1 =
      (linesFrom effects id depth child).1 ++ (linesOfParts effects
        (id + (preorderUnder (some parent) child).length) depth children).1 := by
  rw [← linesFrom_next effects (some parent) child id depth]
  rfl

mutual

/-- A listing goes along with a numbered walk. -/
theorem listed_linesFrom (effects : Nat → Float) (parent : Option Node) : (outline : Outline) →
    (ancestors : Path) → (id : Nat) →
      Listed effects id ((preorderUnder parent outline).map handed)
        (pathsUnder ancestors id outline).1 (linesFrom effects id ancestors.length outline).1
  | .node label children, ancestors, id => by
    have hparts := listed_linesOfParts effects label children (ancestors ++ [⟨id, label⟩]) (id + 1)
    rw [List.length_append, List.length_singleton] at hparts
    rw [preorderUnder, pathsUnder_node]
    exact hparts.cons parent label ancestors

theorem listed_linesOfParts (effects : Nat → Float) (parent : Node) : (children : List Outline) →
    (ancestors : Path) → (id : Nat) →
      Listed effects id ((preorderOfParts parent children).map handed)
        (pathsOfParts ancestors id children).1 (linesOfParts effects id ancestors.length children).1
  | [], ancestors, id => .nil
  | child :: children, ancestors, id => by
    have hfirst := listed_linesFrom effects (some parent) child ancestors id
    have hothers := listed_linesOfParts effects parent children ancestors
      (id + (preorderUnder (some parent) child).length)
    rw [preorderOfParts, pathsOfParts_cons parent, linesOfParts_cons effects parent, List.map_append]
    refine hfirst.append ?_
    rwa [List.length_map]

end

/-- The lines of an outline are the rows of its nodes in the order of entering. -/
theorem listed_lines (outline : Outline) (effects : Nat → Float) :
    Listed effects 0 outline.pairs outline.paths (outline.lines effects) :=
  listed_linesFrom effects none outline [] 0

end Outline

/-! ## Line feeds in a row -/

/-- A part's text stands in the text of the whole. -/
theorem Scaffold.Carries.isInfix {scaffold : Scaffold} {texts : List (List Char)}
    {text part : List Char} (h : scaffold.Carries texts text) (hpart : part ∈ texts) :
    part <:+: text := by
  obtain ⟨i, hi, rfl⟩ := List.getElem_of_mem hpart
  have hgap : i < scaffold.behind.length := h.fits ▸ hi
  have hfilled : texts[i] ++ scaffold.behind[i] ∈ List.zipWith (· ++ ·) texts scaffold.behind :=
    List.mem_iff_getElem.mpr ⟨i, by rw [List.length_zipWith]; omega, by simp⟩
  rw [← h.fill, Scaffold.fill]
  exact (List.prefix_append _ _).isInfix.trans <|
    (List.infix_of_mem_flatten hfilled).trans (List.suffix_append _ _).isInfix

/-- The text of a part stands in that of the node. -/
theorem Node.IsPartOf.isInfix {node parent : Node} (h : node.IsPartOf parent) :
    node.written <:+: parent.written := by
  obtain ⟨part, hpart, rfl⟩ := h
  exact parent.carries_scaffold.isInfix (List.mem_map_of_mem hpart)

/-- The text of each node on a path stands in the text of the root. -/
theorem Path.Traced.isInfix {entered : List (Option Node × Node)} {path : Path} {root : Node}
    (h : Path.Traced entered path) (hroot : entered[0]? = some (none, root)) :
    ∀ entry ∈ path, entry.node.written <:+: root.written := by
  induction h with
  | @root node hnode =>
    obtain rfl : node = root := by simpa [hnode] using hroot
    simp
  | @part path parent id node _ hpart _ _ ih =>
    intro entry hentry
    rcases List.mem_append.mp hentry with hentry | hentry
    · exact ih entry hentry
    · obtain rfl := List.mem_singleton.mp hentry
      exact hpart.isInfix.trans (ih parent (by simp))

/-- Digits are on one line. -/
theorem lineFeed_notMem_toDigits (n : Nat) : '\n' ∉ Nat.toDigits 10 n := by
  intro hmem
  exact absurd (Nat.isDigit_of_mem_toDigits (by omega) (by omega) hmem) (by decide)

theorem lineFeed_notMem_fourDigits (id : Nat) : '\n' ∉ fourDigits id := by
  have hdigits : '\n' ∉ Text.natural id := lineFeed_notMem_toDigits id
  simp [fourDigits, hdigits]

theorem Kind.lineFeed_notMem_name (kind : Kind) : '\n' ∉ kind.name.toList := by
  cases kind <;> decide

theorem Number.lineFeed_notMem_fixed (places : Nat) (x : Float) :
    '\n' ∉ (Number.fixed places x).toList := by
  have hdigits : ∀ n, '\n' ∉ digitsOf n := lineFeed_notMem_toDigits
  unfold Number.fixed
  dsimp only
  cases classify x.toBits with
  | nan => simp
  | infinite => cases isNegative x.toBits <;> simp
  | finite value => cases isNegative x.toBits <;> simp [zeros, hdigits]

theorem lineFeed_notMem_effectSuffix (effect : Float) : '\n' ∉ effectSuffix effect := by
  have hfixed := Number.lineFeed_notMem_fixed 3 effect
  rw [effectSuffix]
  split
  · exact List.not_mem_nil
  · simp [hfixed]

/-- A row has a line feed in it only if the text of its node has. -/
theorem Node.lineFeed_mem_line {node : Node} {id depth : Nat} {effects : Nat → Float} :
    '\n' ∈ node.line id depth effects ↔ '\n' ∈ node.written := by
  simp [Node.line, lineFeed_notMem_fourDigits, Kind.lineFeed_notMem_name,
    lineFeed_notMem_effectSuffix]

/-! ## Listings -/

namespace Query

/-- The text of each node that is entered stands in the text of the query. -/
theorem isInfix_of_entered {query : Query} {k : Nat} {parent : Option Node} {node : Node}
    (h : query.outline.pairs[k]? = some (parent, node)) : node.written <:+: query.written := by
  obtain ⟨above, hpath, -⟩ := (query.outline.listed_lines fun _ => 0).row k parent node h
  have hsound := (Outline.run_visits query.isWhole_outline).sound Tour.sound_start
  have hroot : query.outline.pairs[0]? = some (none, .query query) := rfl
  exact (hsound.left _ hpath).isInfix hroot ⟨0 + k, node⟩ (by simp)

/-- Whether all rows of a listing are single lines is seen from the text of the query. -/
theorem lineFeed_notMem_lines {query : Query} {effects : Nat → Float} :
    (∀ row ∈ query.outline.lines effects, '\n' ∉ row) ↔ '\n' ∉ query.written := by
  have hlisted := query.outline.listed_lines effects
  constructor
  · -- The first row is that of the query itself.
    intro hrows
    obtain ⟨above, -, hrow⟩ := hlisted.row 0 none (.query query) rfl
    exact fun hmem => hrows _ (List.mem_of_getElem? hrow) (Node.lineFeed_mem_line.mpr hmem)
  · intro hquery row hrow
    obtain ⟨k, hk, rfl⟩ := List.getElem_of_mem hrow
    have hentered := List.getElem?_eq_getElem (hlisted.length ▸ hk)
    obtain ⟨above, -, hline⟩ := hlisted.row k _ _ hentered
    rw [List.getElem?_eq_getElem hk, Option.some_inj] at hline
    rw [hline, Node.lineFeed_mem_line]
    exact fun hmem => hquery ((isInfix_of_entered hentered).mem hmem)

/-- The listing of a query is made of rows, each ended by a line feed, one for each node. Row `k` is
that of the node which both walks give the number `k`: the number with at least four digits, a
blank, two blanks for each node above it, its kind, a blank, its text, and the effect `effects k`
where this is not zero. The listing has as many lines as there are nodes only where no line feed
stands in the query, and then the rows are its lines. -/
theorem dump_rows (query : Query) (effects : Nat → Float) : ∃ rows : List (List Char),
    (query.dump effects).toList = rows.flatMap (· ++ ['\n']) ∧
    rows.length = query.outline.size ∧
    (∀ k < query.outline.size, ∃ parent node above,
      query.outline.pairs[k]? = some (parent, node) ∧ above ++ [⟨k, node⟩] ∈ query.outline.paths ∧
      rows[k]? = some (fourDigits k ++ ' ' :: List.replicate (2 * above.length) ' ' ++
        node.kind.name.toList ++ ' ' :: node.written ++ if effects k == 0.0 then [] else
          " (effect: ".toList ++ (Number.fixed 3 (effects k)).toList ++ [')'])) ∧
    ((Text.endedLines (query.dump effects).toList).length = query.outline.size ↔
      '\n' ∉ query.written) ∧
    ('\n' ∉ query.written → Text.endedLines (query.dump effects).toList = rows) := by
  have hlisted := query.outline.listed_lines effects
  have hlength := hlisted.length.trans query.outline.length_pairs
  have htext : (query.dump effects).toList =
      (query.outline.lines effects).flatMap (· ++ ['\n']) := by
    rw [dump, String.toList_ofList]
  refine ⟨query.outline.lines effects, htext, hlength, ?_, ?_, ?_⟩
  · intro k hk
    have hentered := List.getElem?_eq_getElem (query.outline.length_pairs ▸ hk)
    obtain ⟨above, hpath, hrow⟩ := hlisted.row k _ _ hentered
    rw [Nat.zero_add] at hpath hrow
    exact ⟨_, _, above, hentered, hpath, hrow⟩
  · rw [htext, ← hlength, Text.length_endedLines_eq, lineFeed_notMem_lines]
  · intro hquery
    rw [htext, Text.endedLines_eq (lineFeed_notMem_lines.mpr hquery)]

/-- A line feed between quotes is taken into the query, and breaks a row of its listing. -/
theorem dump_rows_lineFeed : ∃ query, Query.parse "\"a\nb\"" = .ok query ∧
    (Text.endedLines (query.dump fun _ => 0).toList).length ≠ query.outline.size := by
  let row : List Regex.Atom :=
    [.symbol (.literal "a" false), .symbol (.literal "\n" false), .symbol (.literal "b" false)]
  have hparse : Query.parse "\"a\nb\"" = .ok (.ofWord ⟨[[.row row]]⟩) :=
    parse_eq_ok.mpr (by decide +kernel)
  obtain ⟨-, -, -, -, hlines, -⟩ := dump_rows (.ofWord ⟨[[.row row]]⟩) fun _ => 0
  exact ⟨_, hparse, fun hequal => absurd (hlines.mp hequal) (by decide)⟩

end Query

end CorpusCost
