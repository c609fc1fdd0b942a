import CorpusCost.Proofs.Consumed
import CorpusCost.Proofs.Everywhere
import CorpusCost.Proofs.RegexReadBack

/-!
# Expressions are kept verbatim

The text of an expression is made of parts: characters that are kept as they stand, and ranges,
which are counting bounds. An expression that was read is written with all its characters, in order,
and with each range in its written form instead of the spelling that stood there
(`Regex.quoted_verbatim`). Without a range it is written exactly as it was read.
-/

set_option autoImplicit false

namespace CorpusCost.Regex

open CorpusCost.Parser

/-! ## Parts of a text -/

/-- A part of the text of an expression. -/
inductive Part where
  /-- A character that is kept. -/
  | kept (c : Char)
  /-- A range, which has more than one spelling. -/
  | range (bounds : Bounds)
  deriving DecidableEq, Repr

/-- A part as written. -/
def Part.written : Part → List Char
  | .kept c => [c]
  | .range bounds => bounds.written

/-- Whether a text is made of `parts`, one after the other: a kept character stands for itself, and
a range has a spelling that is read as it and as nothing more. -/
inductive Spells : List Part → List Char → Prop where
  /-- No parts. -/
  | nil : Spells [] []
  /-- A kept character. -/
  | kept (c : Char) {parts : List Part} {u : List Char} :
      Spells parts u → Spells (.kept c :: parts) (c :: u)
  /-- A range. -/
  | range {b : Bounds} {spelling : List Char} {parts : List Part} {u : List Char} :
      Parser.bounds spelling = .read b [] → Spells parts u →
        Spells (.range b :: parts) (spelling ++ u)

theorem Spells.append {parts more : List Part} {u v : List Char} (hu : Spells parts u)
    (hv : Spells more v) : Spells (parts ++ more) (u ++ v) := by
  induction hu with
  | nil => exact hv
  | kept c _ ih => exact .kept c ih
  | range hspelling _ ih =>
    rw [List.append_assoc]
    exact .range hspelling ih

theorem spells_kept (cs : List Char) : Spells (cs.map .kept) cs := by
  induction cs with
  | nil => exact .nil
  | cons c cs ih => exact .kept c ih

theorem flatMap_written_kept (cs : List Char) : (cs.map Part.kept).flatMap Part.written = cs := by
  induction cs with
  | nil => rfl
  | cons c cs ih => rw [List.map_cons, List.flatMap_cons, ih]; rfl

/-- A text without ranges is made of its written parts. -/
theorem Spells.eq_written {parts : List Part} {u : List Char} (h : Spells parts u)
    (hparts : ∀ b, Part.range b ∉ parts) : u = parts.flatMap Part.written := by
  induction h with
  | nil => rfl
  | kept c _ ih =>
    rw [List.flatMap_cons, ← ih fun b hb => hparts b (List.mem_cons_of_mem _ hb)]
    rfl
  | @range b => exact absurd List.mem_cons_self (hparts b)

/-! ## Parts of an expression -/

/-- The parts of an atom. -/
def Atom.parts : Atom → List Part
  | .bounds range => [.range range]
  | atom => atom.written.map .kept

mutual

/-- The parts of a piece. -/
def Piece.parts : Piece → List Part
  | .look text => text.toList.map .kept
  | .group branches => .kept '(' :: Branch.partsOfChoice branches ++ [.kept ')']
  | .row atoms => atoms.flatMap Atom.parts

/-- The parts of the pieces of a branch, one after the other. -/
def Branch.parts : List Piece → List Part
  | [] => []
  | piece :: branch => Piece.parts piece ++ Branch.parts branch

/-- The parts of branches, with a bar between any two. -/
def Branch.partsOfChoice : List (List Piece) → List Part
  | [] => []
  | [branch] => Branch.parts branch
  | branch :: branches => Branch.parts branch ++ .kept '|' :: Branch.partsOfChoice branches

end

theorem Branch.partsOfChoice_cons (branch : Branch) {branches : List Branch} (h : branches ≠ []) :
    Branch.partsOfChoice (branch :: branches) =
      Branch.parts branch ++ .kept '|' :: Branch.partsOfChoice branches := by
  cases branches with
  | nil => exact absurd rfl h
  | cons next branches => rw [Branch.partsOfChoice]; simp

theorem spells_look (cs : List Char) : Spells (Piece.parts (.look (String.ofList cs))) cs := by
  rw [Piece.parts, String.toList_ofList]
  exact spells_kept cs

theorem Spells.group {branches : List Branch} {u : List Char}
    (h : Spells (Branch.partsOfChoice branches) u) :
    Spells (Piece.parts (.group branches)) ('(' :: u ++ [')']) := by
  rw [Piece.parts]
  exact .kept '(' (h.append (.kept ')' .nil))

theorem Spells.row {atoms : List Atom} {u : List Char} (h : Spells (atoms.flatMap Atom.parts) u) :
    Spells (Piece.parts (.row atoms)) u := by
  rw [Piece.parts]
  exact h

theorem Atom.flatMap_written_parts (atom : Atom) :
    atom.parts.flatMap Part.written = atom.written := by
  cases atom with
  | bounds range => exact List.append_nil _
  | symbol sign => exact flatMap_written_kept _
  | charClass members => exact flatMap_written_kept _
  | namedClass name => exact flatMap_written_kept _

mutual

theorem Piece.flatMap_written_parts : (piece : Piece) →
    (Piece.parts piece).flatMap Part.written = Piece.written piece
  | .look text => by rw [Piece.parts, Piece.written, flatMap_written_kept]
  | .group branches => by
    rw [Piece.parts, Piece.written, List.flatMap_append, List.flatMap_cons,
      Branch.flatMap_written_partsOfChoice branches]
    rfl
  | .row atoms => by
    rw [Piece.parts, Piece.written, List.flatMap_assoc]
    simp only [Atom.flatMap_written_parts]

theorem Branch.flatMap_written_parts : (branch : List Piece) →
    (Branch.parts branch).flatMap Part.written = Branch.written branch
  | [] => by rw [Branch.parts, Branch.written]; rfl
  | piece :: branch => by
    rw [Branch.parts, Branch.written, List.flatMap_append, Piece.flatMap_written_parts piece,
      Branch.flatMap_written_parts branch]

theorem Branch.flatMap_written_partsOfChoice : (branches : List (List Piece)) →
    (Branch.partsOfChoice branches).flatMap Part.written = Branch.writtenChoice branches
  | [] => by rw [Branch.partsOfChoice, Branch.writtenChoice]; rfl
  | [branch] => by
    rw [Branch.partsOfChoice, Branch.writtenChoice, Branch.flatMap_written_parts branch]
  | branch :: next :: branches => by
    rw [Branch.partsOfChoice_cons branch (List.cons_ne_nil next branches), Branch.writtenChoice,
      List.flatMap_append, List.flatMap_cons, Branch.flatMap_written_parts branch,
      Branch.flatMap_written_partsOfChoice (next :: branches)]
    · rfl
    · simp

end

/-! ## Spellings of ranges -/

/-- A number is read from its digits whatever stands behind them, unless it is a further digit. -/
theorem number_eq_append {s rest : List Char} {n : Nat} (h : number s = .read n rest) :
    ∃ digits, s = digits ++ rest ∧
      ∀ other, Stops Char.isDigit other → number (digits ++ other) = .read n other := by
  obtain ⟨digits, hdigits, hvalue, hle⟩ := numberUpTo_eq_read.mp h
  obtain ⟨hne, hall, -, rfl⟩ := takeWhile1_eq_read.mp hdigits
  refine ⟨digits, rfl, fun other hother => numberUpTo_eq_read.mpr ⟨digits, ?_, hvalue, hle⟩⟩
  exact takeWhile1_eq_read.mpr ⟨hne, hall, hother, rfl⟩

/-- What bounds take is a spelling of theirs. -/
theorem consumes_bounds : Consumes (fun b u => Parser.bounds u = .read b []) Parser.bounds := by
  intro s b rest hread
  obtain ⟨_, inside, _, after, hopen, hrange, hclose⟩ := between_eq_read.mp hread
  obtain ⟨-, rfl⟩ := char_eq_read.mp hopen
  obtain ⟨-, rfl⟩ := char_eq_read.mp hclose
  rcases orElse_eq_read.mp hrange with hboth | ⟨-, hone⟩
  · simp only [bind_eq_read, char_eq_read, pure_eq_read] at hboth
    obtain ⟨lo, _, hlo, _, mid, ⟨-, rfl⟩, hi, _, hhi, rfl, rfl⟩ := hboth
    obtain ⟨los, rfl, hlos⟩ := number_eq_append hlo
    obtain ⟨his, rfl, hhis⟩ : ∃ his, mid = his ++ '\x7d' :: rest ∧
        optional number (his ++ ['\x7d']) = .read hi ['\x7d'] := by
      rcases optional_eq_read.mp hhi with ⟨n, rfl, hn⟩ | ⟨rfl, -, rfl⟩
      · obtain ⟨his, rfl, hhis⟩ := number_eq_append hn
        exact ⟨his, rfl, optional_eq_read.mpr (.inl ⟨n, rfl, hhis _ (stops_cons.mpr rfl)⟩)⟩
      · exact ⟨[], rfl, optional_eq_read.mpr
          (.inr ⟨rfl, number_of_stops (stops_cons.mpr rfl), rfl⟩)⟩
    refine ⟨'\x7b' :: (los ++ ',' :: (his ++ ['\x7d'])), by simp, ?_⟩
    refine between_eq_read.mpr ⟨_, _, _, _, char_cons _ _, orElse_eq_read.mpr (.inl ?_),
      char_cons _ _⟩
    simp only [bind_eq_read]
    exact ⟨lo, _, hlos _ (stops_cons.mpr rfl), ',', _, char_cons _ _, hi, _, hhis, rfl⟩
  · simp only [bind_eq_read, pure_eq_read] at hone
    obtain ⟨n, _, hn, rfl, rfl⟩ := hone
    obtain ⟨digits, rfl, hdigits⟩ := number_eq_append hn
    have hclosed : number (digits ++ ['\x7d']) = .read n ['\x7d'] := hdigits _ (stops_cons.mpr rfl)
    refine ⟨'\x7b' :: (digits ++ ['\x7d']), by simp, ?_⟩
    refine between_eq_read.mpr ⟨_, _, _, _, char_cons _ _, orElse_eq_read.mpr (.inr ⟨?_, ?_⟩),
      char_cons _ _⟩
    · simp only [bind_eq_miss]
      exact .inr ⟨n, _, hclosed, .inl (char_eq_miss.mpr (by simp))⟩
    · simp only [bind_eq_read]
      exact ⟨n, _, hclosed, rfl⟩

/-! ## What the readers of an expression take -/

/-- What is kept as written is taken as written. -/
theorem consumes_text {α : Type} {p : Parser (List Char)} {written : α → List Char} (f : String → α)
    (hp : Consumes (fun cs u => u = cs) p) (hwritten : ∀ text, written (f text) = text.toList) :
    Consumes (fun a u => u = written a) ((fun cs => f (String.ofList cs)) <$> p) := by
  refine consumes_map (hp.imp ?_)
  rintro cs _ rfl
  rw [hwritten, String.toList_ofList]

theorem consumes_escape : Consumes (fun cs u => u = cs) escape := by
  intro s cs rest hread
  obtain ⟨c, rfl, rfl⟩ := escape_eq_read.mp hread
  exact ⟨['\\', c], rfl, rfl⟩

theorem consumes_propertyClass : Consumes (fun cs u => u = cs) propertyClass := by
  intro s cs rest hread
  obtain ⟨letter, name, -, rfl, t, rfl, hname⟩ := propertyClass_eq_read.mp hread
  obtain ⟨rfl, -, -⟩ := propertyName_readBack hname
  exact ⟨'\\' :: letter :: name, rfl, rfl⟩

theorem consumes_ofChar (test : Char → Bool) :
    Consumes (fun c u => u = (Symbol.ofChar c).written) (satisfy test) := by
  refine (consumes_satisfy test).imp ?_
  rintro c _ rfl
  exact (String.toList_singleton c).symm

theorem consumes_symbol : Consumes (fun sign u => u = sign.written) symbol := by
  refine consumes_firstOf ?_
  simp only [List.forall_mem_cons, List.not_mem_nil, false_imp_iff, implies_true, and_true]
  exact ⟨consumes_map (consumes_char '.'), consumes_map (consumes_char '?'),
    consumes_map (consumes_satisfy _), consumes_map (consumes_satisfy _),
    consumes_text (Symbol.literal · true) consumes_propertyClass fun _ => rfl,
    consumes_text (Symbol.literal · false) consumes_escape fun _ => rfl,
    consumes_map (consumes_ofChar _)⟩

theorem consumes_member : Consumes (fun m u => u = m.written) member := by
  refine consumes_firstOf ?_
  simp only [List.forall_mem_cons, List.not_mem_nil, false_imp_iff, implies_true, and_true]
  refine ⟨consumes_text Member.escaped ?_ fun _ => rfl,
    consumes_text Member.escaped consumes_escape fun _ => rfl, ?_, consumes_map (consumes_ofChar _)⟩
  · intro s cs rest hread
    obtain ⟨name, rfl, -, -, rfl⟩ := namedMember_eq_read.mp hread
    exact ⟨['[', ':'] ++ name ++ [':', ']'], by simp, rfl⟩
  · intro s m rest hread
    obtain ⟨first, last, -, -, rfl, rfl⟩ := spanMember_eq_read.mp hread
    exact ⟨[first, '-', last], rfl, rfl⟩

theorem consumes_charClass : Consumes (fun cc u => u = cc.written) charClass := by
  intro s cc rest hread
  obtain ⟨inside, rfl, members, hbar, hms⟩ := charClass_eq_read.mp hread
  have hmembers : Consumes (fun ms u => u = ms.flatMap Member.written) (many1 member) := by
    refine consumes_many1 consumes_member rfl ?_
    rintro m _ ms _ rfl rfl
    rfl
  obtain ⟨_, rfl, rfl⟩ := hmembers members cc.members _ hms
  refine ⟨cc.written, ?_, rfl⟩
  rcases present_eq_read.mp hbar with ⟨hnegated, c, hc⟩ | ⟨hnegated, -, rfl⟩
  · obtain ⟨-, rfl⟩ := char_eq_read.mp hc
    simp [CharClass.written, hnegated]
  · simp [CharClass.written, hnegated]

/-- Atoms other than bounds are kept. -/
theorem consumes_kept {α : Type} {p : Parser α} {f : α → Atom}
    (hp : Consumes (fun a u => u = (f a).written) p)
    (hparts : ∀ a, (f a).parts = (f a).written.map .kept) :
    Consumes (fun atom u => Spells atom.parts u) (f <$> p) := by
  refine consumes_map (hp.imp ?_)
  rintro a _ rfl
  rw [hparts]
  exact spells_kept _

theorem consumes_atom : Consumes (fun atom u => Spells atom.parts u) atom := by
  refine consumes_firstOf ?_
  simp only [List.forall_mem_cons, List.not_mem_nil, false_imp_iff, implies_true, and_true]
  refine ⟨consumes_map (consumes_bounds.imp ?_), consumes_kept ?_ fun _ => rfl,
    consumes_kept consumes_charClass fun _ => rfl, consumes_kept consumes_symbol fun _ => rfl,
    consumes_kept (consumes_ofChar _) fun _ => rfl⟩
  · intro b u hu
    rw [← List.append_nil u]
    exact .range hu .nil
  · intro s x rest hread
    exact ⟨_, (namedClass_readBack hread).1, rfl⟩

theorem consumes_pieceOf {choice : Nesting → Parser (List Branch)} {nesting : Nesting}
    (hchoice : ∀ deeper,
      Consumes (fun bs u => Spells (Branch.partsOfChoice bs) u) (choice deeper)) :
    Consumes (fun piece u => Spells (Piece.parts piece) u) (pieceOf choice nesting) := by
  refine consumes_firstOf ?_
  simp only [List.forall_mem_cons, List.not_mem_nil, false_imp_iff, implies_true, and_true]
  refine ⟨consumes_map ?_, consumes_map ?_, consumes_map ?_⟩
  · intro s cs rest hread
    obtain ⟨rfl, -, -⟩ := look_readBack hread
    exact ⟨cs, rfl, spells_look cs⟩
  · refine consumes_between (consumes_char '(') (consumes_nested (hchoice nesting.deeper))
      (consumes_char ')') ?_
    rintro branches _ _ _ u _ rfl hu rfl
    exact hu.group
  · have hrow : Consumes (fun as u => Spells (as.flatMap Atom.parts) u) (many1 atom) :=
      consumes_many1 consumes_atom .nil fun _ _ _ _ hatom hatoms => hatom.append hatoms
    exact hrow.imp fun _ _ => Spells.row

theorem consumes_choice (nesting : Nesting) :
    Consumes (fun bs u => Spells (Branch.partsOfChoice bs) u) (choice nesting) := by
  refine consumes_recursive ?_ nesting
  intro inner hinner nesting
  have hbranch : Consumes (fun branch u => Spells (Branch.parts branch) u)
      (many (pieceOf inner nesting)) :=
    consumes_many (consumes_pieceOf hinner) .nil fun _ _ _ _ hpiece hbranch => hpiece.append hbranch
  refine consumes_sepBy1 (consumes_char '|') hbranch ?_ ?_
  · intro branch u hu
    rw [Branch.partsOfChoice]
    exact hu
  · rintro branch u _ _ branches v hu rfl hv hne
    rw [Branch.partsOfChoice_cons branch hne, List.append_assoc]
    exact hu.append (.kept '|' hv)

/-! ## Expressions without ranges -/

/-- Whether a node is no range. -/
def NoRange (node : Node) (_ : List Outline) : Prop := node.kind ≠ .range

theorem Atom.range_notMem_parts {atom : Atom} (h : atom.outline.Everywhere NoRange) (b : Bounds) :
    Part.range b ∉ atom.parts := by
  cases atom with
  | bounds range =>
    rw [Atom.outline, Outline.everywhere_node] at h
    exact absurd rfl h.1
  | symbol sign => simp [Atom.parts]
  | charClass members => simp [Atom.parts]
  | namedClass name => simp [Atom.parts]

mutual

theorem Piece.range_notMem_parts (b : Bounds) : (piece : Piece) →
    (Piece.outline piece).Everywhere NoRange → Part.range b ∉ Piece.parts piece
  | .look text, _ => by simp [Piece.parts]
  | .group branches, h => by
    rw [Piece.outline, Outline.everywhere_node] at h
    simpa [Piece.parts] using Branch.range_notMem_partsOfChoice b branches h.2
  | .row atoms, h => by
    rw [Piece.outline, Outline.everywhere_node, Outline.everywhereIn_iff] at h
    rw [Piece.parts, List.mem_flatMap]
    rintro ⟨atom, hatom, hb⟩
    exact Atom.range_notMem_parts (h.2 _ (List.mem_map_of_mem hatom)) b hb

theorem Branch.range_notMem_parts (b : Bounds) : (branch : List Piece) →
    Outline.EverywhereIn NoRange (Piece.outlines branch) → Part.range b ∉ Branch.parts branch
  | [], _ => by simp [Branch.parts]
  | piece :: branch, h => by
    rw [Piece.outlines, Outline.everywhereIn_cons] at h
    rw [Branch.parts, List.mem_append, not_or]
    exact ⟨Piece.range_notMem_parts b piece h.1, Branch.range_notMem_parts b branch h.2⟩

theorem Branch.range_notMem_partsOfChoice (b : Bounds) : (branches : List (List Piece)) →
    Outline.EverywhereIn NoRange (Branch.outlines branches) →
      Part.range b ∉ Branch.partsOfChoice branches
  | [], _ => by simp [Branch.partsOfChoice]
  | [branch], h => by
    rw [Branch.outlines, Outline.everywhereIn_cons, Outline.everywhere_node] at h
    rw [Branch.partsOfChoice]
    exact Branch.range_notMem_parts b branch h.1.2
  | branch :: next :: branches, h => by
    rw [Branch.outlines, Outline.everywhereIn_cons, Outline.everywhere_node] at h
    have hbranch := Branch.range_notMem_parts b branch h.1.2
    have hothers := Branch.range_notMem_partsOfChoice b (next :: branches) h.2
    rw [Branch.partsOfChoice_cons branch (List.cons_ne_nil next branches)]
    simp [hbranch, hothers]

end

end Regex

/-- The parts of an expression. -/
def Regex.parts (regex : Regex) : List Regex.Part := Regex.Branch.partsOfChoice regex.branches

/-- An expression that was read between quotes is kept as it stood there. The text between the
quotes is made of the parts of the expression, and the expression is written with the same parts,
each range in its written form: where the expression has no range, it is written exactly as it was
read. -/
theorem Regex.quoted_verbatim {nesting : Parser.Nesting} {s rest : List Char} {regex : Regex}
    (h : Regex.quoted nesting s = .read regex rest) :
    ∃ taken, s = '"' :: (taken ++ '"' :: rest) ∧ Regex.Spells regex.parts taken ∧
      regex.written = regex.parts.flatMap Regex.Part.written ∧
      (regex.outline.Everywhere Regex.NoRange → taken = regex.written) := by
  obtain ⟨_, inside, _, after, hopen, hregex, hclose⟩ := Parser.between_eq_read.mp h
  obtain ⟨-, rfl⟩ := Parser.char_eq_read.mp hopen
  obtain ⟨-, rfl⟩ := Parser.char_eq_read.mp hclose
  obtain ⟨branches, rfl, hchoice⟩ := Parser.map_eq_read.mp hregex
  obtain ⟨taken, rfl, hspells⟩ := Regex.consumes_choice nesting inside branches _ hchoice
  have hwritten := Regex.Branch.flatMap_written_partsOfChoice branches
  refine ⟨taken, rfl, hspells, hwritten.symm, fun hranges => ?_⟩
  rw [Regex.outline, Outline.everywhere_node] at hranges
  rw [Regex.written, ← hwritten]
  exact hspells.eq_written fun b => Regex.Branch.range_notMem_partsOfChoice b branches hranges.2

/-- A range in a group is written in another spelling than it was read in, and what stands around
it is kept. An expression of braces, a property and a look-around has no range and is not
changed. -/
theorem Regex.quoted_verbatim_spelling :
    (∃ taken, "\"(a\x7b02,2\x7d|\\d)\"]".toList = '"' :: (taken ++ ['"', ']']) ∧
      Regex.Spells [.kept '(', .kept 'a', .range ⟨2, some 2⟩, .kept '|', .kept '\\', .kept 'd',
        .kept ')'] taken) ∧
      ∃ regex : Regex, Regex.quoted ⟨0, none⟩ "\"\x7b,3\x7d\\pL(?=b)\"".toList = .read regex [] ∧
        '"' :: (regex.written ++ ['"']) = "\"\x7b,3\x7d\\pL(?=b)\"".toList := by
  constructor
  · let row : List Regex.Atom := [.symbol (.ofChar 'a'), .bounds ⟨2, some 2⟩]
    let regex : Regex :=
      ⟨[[.group [[.row row], [.row [.symbol (.literal "\\d" false)]]]]]⟩
    have hread : Regex.quoted ⟨0, none⟩ "\"(a\x7b02,2\x7d|\\d)\"]".toList = .read regex [']'] := by
      decide +kernel
    obtain ⟨taken, htext, hspells, -, -⟩ := Regex.quoted_verbatim hread
    exact ⟨taken, htext, hspells⟩
  · let row : List Regex.Atom := [.symbol (.ofChar '\x7b'), .symbol (.ofChar ','),
      .symbol (.ofChar '3'), .symbol (.ofChar '\x7d'), .symbol (.literal "\\pL" true)]
    let regex : Regex := ⟨[[.row row, .look "(?=b)"]]⟩
    have hread : Regex.quoted ⟨0, none⟩ "\"\x7b,3\x7d\\pL(?=b)\"".toList = .read regex [] := by
      decide +kernel
    have hranges : regex.outline.Everywhere Regex.NoRange := by
      simp [regex, row, Regex.outline, Regex.Branch.outlines, Regex.Piece.outlines,
        Regex.Piece.outline, Regex.Atom.outline, Regex.Symbol.outline, Regex.Symbol.ofChar,
        Outline.leaf, Outline.everywhere_node, Regex.NoRange, Node.kind]
    obtain ⟨taken, htext, -, -, hkept⟩ := Regex.quoted_verbatim hread
    rw [hkept hranges] at htext
    exact ⟨regex, hread, htext.symm⟩

end CorpusCost
