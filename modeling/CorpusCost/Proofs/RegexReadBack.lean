import CorpusCost.Proofs.AtomReadBack
import CorpusCost.Proofs.FusedRows
import CorpusCost.Condition.Printer

/-!
# Regular expressions read back

An expression is written in quotes, and its written form is read as the expression with its rows
fused. The induction goes along the text that was read: everything read from it is kept as written
except for bounds, so that what follows a construct is recast, and a row ends where it ended
before.
-/

set_option autoImplicit false

namespace CorpusCost

open CorpusCost.Parser

namespace Regex

/-! ## Rows -/

theorem atom_of_ends {s : List Char} (h : Ends ['(', '|', ')', '"'] s) : atom s = .miss := by
  have hne : ∀ c, c ∉ ['(', '|', ')', '"'] → s.head? ≠ some c := fun c hc => h.head?_ne hc
  simp only [atom_eq, symbol_eq, orElse_eq_miss, map_eq_miss, char_eq_miss, oneOf, noneOf,
    satisfy_eq_miss]
  refine ⟨opensWith_bounds.miss (hne _ (by decide)), opensWith_namedClass.miss (hne _ (by decide)),
    opensWith_charClass.miss (hne _ (by decide)), ⟨hne _ (by decide), hne _ (by decide), ?_, ?_,
      opensWith_propertyClass.miss (hne _ (by decide)),
      opensWith_escape.miss (hne _ (by decide)), ?_⟩,
    ?_⟩
  · exact h.stops (by decide)
  · exact h.stops (by decide)
  · exact h.stops (by decide)
  · exact h.stops (by decide)

theorem propertyName_of_ends {s : List Char} (h : Ends ['(', '|', ')', '"'] s) :
    propertyName s = .miss :=
  propertyName_eq_miss.mpr ⟨opensWith_bracedProperty.miss (h.head?_ne (by decide)),
    h.stops (by decide)⟩

/-- An escape and bounds with equal ends are read back as a property class. -/
theorem atom_fused {c : Char} (hc : c ∈ ['p', 'P']) (n : Nat) (v : List Char) :
    atom ('\\' :: c :: ((⟨n, some n⟩ : Bounds).written ++ v)) =
      .read (.symbol (.literal (String.ofList ('\\' :: c :: (⟨n, some n⟩ : Bounds).written)) true))
        v := by
  refine atom_of_symbol (by simp) (by simp) ?_
  rw [symbol_backslash, orElse_eq_read, map_eq_read]
  exact .inl ⟨_, rfl, propertyClass_eq_read.mpr ⟨c, _, hc, rfl, _, rfl,
    propertyName_written_exact n v⟩⟩

/-- Bounds are tried before every other atom. -/
theorem bounds_ne_read {s mid : List Char} {a : Atom} (h : atom s = .read a mid)
    (ha : ∀ b, a ≠ .bounds b) (b : Bounds) (v : List Char) : Parser.bounds s ≠ .read b v := by
  intro hb
  rcases atom_eq_read h with ⟨c, rfl, -⟩ | ⟨hmiss, -⟩
  · exact ha c rfl
  · rw [hb] at hmiss
    simp at hmiss

/-- A row of atoms is read back fused. -/
theorem row_readBack {s rest rest' : List Char} {atoms : List Atom}
    (h : many atom s = .read atoms rest) (hend : Ends ['(', '|', ')', '"'] rest)
    (hrest : Recast rest rest') :
    Recast s (atoms.flatMap Atom.written ++ rest') ∧
      many atom (atoms.flatMap Atom.written ++ rest') = .read (fuse atoms) rest' := by
  have hend' : Ends ['(', '|', ')', '"'] rest' := by
    intro c hc
    exact hend c (by rw [← hrest.head?_eq, hc])
  induction atoms using fuse.induct generalizing s with
  | case1 =>
    obtain rfl := many_eq_read_nil h
    exact ⟨hrest, many_of_miss (atom_of_ends hend')⟩
  | case2 a =>
    obtain ⟨mid, ha, -, hmore⟩ := many_eq_read_cons.mp h
    obtain rfl := many_eq_read_nil hmore
    rw [List.flatMap_singleton]
    refine ⟨atom_recast ha hrest, many_eq_read_cons.mpr ⟨rest', ?_, ?_, ?_⟩⟩
    · exact atom_readBack ha hrest fun _ _ _ => propertyName_of_ends hend'
    · exact length_lt_append (atom_written_ne_nil ha hrest) rest'
    · exact many_of_miss (atom_of_ends hend')
  | case3 a b atoms hfuses ih =>
    obtain ⟨mid, ha, -, hmore⟩ := many_eq_read_cons.mp h
    obtain ⟨next, hb, -, hmore⟩ := many_eq_read_cons.mp hmore
    obtain ⟨hnext, hagain⟩ := ih hmore
    have hmid := atom_recast hb hnext
    have hrecast := atom_recast ha hmid
    obtain ⟨text, n, htext, rfl, rfl⟩ := Atom.fuses_eq_true hfuses
    obtain ⟨c, hc, rfl⟩ : ∃ c, c ∈ ['p', 'P'] ∧ text = String.ofList ['\\', c] := by
      rcases htext with rfl | rfl
      · exact ⟨'p', by decide, by decide⟩
      · exact ⟨'P', by decide, by decide⟩
    have hwritten : (Atom.symbol (.literal (String.ofList ['\\', c]) false)).written =
        ['\\', c] := by
      simp [Atom.written, Symbol.written]
    rw [List.flatMap_cons, List.flatMap_cons, List.append_assoc, List.append_assoc]
    refine ⟨hrecast, ?_⟩
    rw [fuse, if_pos hfuses, hwritten]
    refine many_eq_read_cons.mpr ⟨_, atom_fused hc n _, ?_, hagain⟩
    rw [← List.append_assoc]
    exact length_lt_append (by simp) _
  | case4 a b atoms hfuses ih =>
    obtain ⟨mid, ha, -, hmore⟩ := many_eq_read_cons.mp h
    obtain ⟨hmid, hagain⟩ := ih hmore
    rw [List.flatMap_cons, List.append_assoc, fuse, if_neg hfuses]
    refine ⟨atom_recast ha hmid, many_eq_read_cons.mpr ⟨_, ?_,
      length_lt_append (atom_written_ne_nil ha hmid) _, hagain⟩⟩
    refine atom_readBack ha hmid ?_
    rintro c hc rfl
    obtain ⟨next, hb, -, -⟩ := many_eq_read_cons.mp hmore
    by_cases hbounds : ∃ range, b = .bounds range
    · obtain ⟨range, rfl⟩ := hbounds
      rw [List.flatMap_cons, List.append_assoc]
      refine propertyName_written_other ?_ _
      intro hexact
      apply hfuses
      simp only [List.mem_cons, List.not_mem_nil, or_false] at hc
      rcases hc with rfl | rfl <;> simp [Atom.fuses, hexact]
    · have hother := bounds_ne_read hb fun range hrange => hbounds ⟨range, hrange⟩
      exact propertyName_miss hmid ((atom_escape ha).2 hc) hother

/-! ## Pieces and branches -/

theorem pieceOf_eq (choice : Nesting → Parser (List Branch)) (nesting : Nesting)
    (s : List Char) :
    pieceOf choice nesting s = ((fun cs => .look (String.ofList cs)) <$> look nesting <|>
      (.group <$> between (char '(') (char ')') (nested nesting choice) <|>
        .row <$> many1 atom) : Parser Piece) s := rfl

theorem opensWith_look {nesting : Nesting} : OpensWith ['('] (look nesting) :=
  (opensWith_text '(' rfl).bind _

/-- A piece is a look-around, a bracketed choice, or a row that begins with no bracket. -/
theorem pieceOf_eq_read {choice : Nesting → Parser (List Branch)} {nesting : Nesting}
    {s rest : List Char} {piece : Piece} (h : pieceOf choice nesting s = .read piece rest) :
    (∃ cs, piece = .look (String.ofList cs) ∧ look nesting s = .read cs rest) ∨
      (∃ branches inside, piece = .group branches ∧ look nesting s = .miss ∧ s = '(' :: inside ∧
        nesting.full = false ∧ choice nesting.deeper inside = .read branches (')' :: rest)) ∨
      ∃ atoms, atoms ≠ [] ∧ piece = .row atoms ∧ s.head? ≠ some '(' ∧
        many atom s = .read atoms rest := by
  simp only [pieceOf_eq, orElse_eq_read, map_eq_read, map_eq_miss] at h
  rcases h with ⟨cs, rfl, hcs⟩ | ⟨hlook, ⟨branches, rfl, hgroup⟩ | ⟨-, atoms, rfl, hatoms⟩⟩
  · exact .inl ⟨cs, rfl, hcs⟩
  · obtain ⟨_, inside, _, after, hopen, hinside, hclose⟩ := between_eq_read.mp hgroup
    obtain ⟨-, rfl⟩ := char_eq_read.mp hopen
    obtain ⟨-, rfl⟩ := char_eq_read.mp hclose
    obtain ⟨hfull, hchoice⟩ := nested_eq_read.mp hinside
    exact .inr (.inl ⟨branches, inside, rfl, hlook, rfl, hfull, hchoice⟩)
  · obtain ⟨a, mid, more, rfl, ha, hmore⟩ := many1_eq_read.mp hatoms
    refine .inr (.inr ⟨a :: more, by simp, rfl, ?_, ?_⟩)
    · intro hhead
      have hends : Ends ['(', '|', ')', '"'] s := by
        intro c hc
        rw [hhead] at hc
        obtain rfl : '(' = c := by simpa using hc
        decide
      rw [atom_of_ends hends] at ha
      simp at ha
    · exact many_eq_read_cons.mpr ⟨mid, ha, atom_length ha, hmore⟩

theorem pieceOf_look {choice : Nesting → Parser (List Branch)} {nesting : Nesting}
    {s rest cs : List Char} (h : look nesting s = .read cs rest) :
    pieceOf choice nesting s = .read (.look (String.ofList cs)) rest := by
  rw [pieceOf_eq, orElse_eq_read, map_eq_read]
  exact .inl ⟨cs, rfl, h⟩

theorem pieceOf_group {choice : Nesting → Parser (List Branch)} {nesting : Nesting}
    {inside rest : List Char} {branches : List Branch}
    (hlook : look nesting ('(' :: inside) = .miss) (hfull : nesting.full = false)
    (h : choice nesting.deeper inside = .read branches (')' :: rest)) :
    pieceOf choice nesting ('(' :: inside) = .read (.group branches) rest := by
  simp only [pieceOf_eq, orElse_eq_read, map_eq_read, map_eq_miss]
  exact .inr ⟨hlook, .inl ⟨branches, rfl, between_eq_read.mpr ⟨'(', inside, ')', ')' :: rest,
    char_cons _ _, nested_eq_read.mpr ⟨hfull, h⟩, char_cons _ _⟩⟩⟩

theorem pieceOf_row {choice : Nesting → Parser (List Branch)} {nesting : Nesting}
    {s rest : List Char} {atoms : List Atom} (hne : atoms ≠ []) (hhead : s.head? ≠ some '(')
    (h : many atom s = .read atoms rest) :
    pieceOf choice nesting s = .read (.row atoms) rest := by
  cases atoms with
  | nil => exact absurd rfl hne
  | cons a atoms =>
    obtain ⟨mid, ha, -, hmore⟩ := many_eq_read_cons.mp h
    simp only [pieceOf_eq, orElse_eq_read, map_eq_read, map_eq_miss]
    refine .inr ⟨opensWith_look.miss hhead, .inr ⟨?_, a :: atoms, rfl,
      many1_eq_read.mpr ⟨a, mid, atoms, rfl, ha, hmore⟩⟩⟩
    exact between_eq_miss.mpr (.inl (char_eq_miss.mpr hhead))

theorem pieceOf_of_ends {choice : Nesting → Parser (List Branch)} {nesting : Nesting}
    {s : List Char} (h : Ends ['|', ')', '"'] s) : pieceOf choice nesting s = .miss := by
  have hhead : s.head? ≠ some '(' := h.head?_ne (by decide)
  simp only [pieceOf_eq, orElse_eq_miss, map_eq_miss, many1_eq_miss]
  exact ⟨opensWith_look.miss hhead, between_eq_miss.mpr (.inl (char_eq_miss.mpr hhead)),
    atom_of_ends (h.mono (by decide))⟩

/-- Another row cannot follow a row: its first atom would have been part of the first one. -/
theorem ends_of_row {choice : Nesting → Parser (List Branch)} {nesting : Nesting}
    {s mid rest : List Char} {atoms : List Atom} {branch : Branch}
    (hatoms : many atom s = .read atoms mid)
    (hmore : many (pieceOf choice nesting) mid = .read branch rest)
    (hend : Ends ['|', ')', '"'] rest) : Ends ['(', '|', ')', '"'] mid := by
  cases branch with
  | nil =>
    obtain rfl := many_eq_read_nil hmore
    exact hend.mono (by decide)
  | cons next branch =>
    obtain ⟨_, hnext, -, -⟩ := many_eq_read_cons.mp hmore
    rcases pieceOf_eq_read hnext with ⟨cs, -, hcs⟩ | ⟨_, inside, -, -, rfl, -, -⟩ |
      ⟨more, hmore', -, -, hread'⟩
    · obtain ⟨_, -, inside, rfl, -⟩ := look_eq_read.mp hcs
      exact ends_cons.mpr (by decide)
    · exact ends_cons.mpr (by decide)
    · obtain ⟨a, as, rfl⟩ := List.exists_cons_of_ne_nil hmore'
      obtain ⟨_, ha, hlt, -⟩ := many_eq_read_cons.mp hread'
      exact absurd hlt (not_shorter_of_many hatoms ha)

theorem row_written_ne_nil {s mid v : List Char} {atoms : List Atom} (hne : atoms ≠ [])
    (hatoms : many atom s = .read atoms mid) (hends : Ends ['(', '|', ')', '"'] mid)
    (hv : Recast mid v) : atoms.flatMap Atom.written ≠ [] := by
  obtain ⟨a, as, rfl⟩ := List.exists_cons_of_ne_nil hne
  obtain ⟨_, ha, -, hmore⟩ := many_eq_read_cons.mp hatoms
  obtain ⟨hnext, -⟩ := row_readBack hmore hends hv
  rw [List.flatMap_cons]
  exact List.append_ne_nil_of_left_ne_nil (atom_written_ne_nil ha hnext) _

/-- What `again n` makes of the written form of a choice that `p` reads: it reads the choice fused,
from a text shorter than `n`. -/
def ChoiceReadBack (p : Parser (List Branch)) (again : Nat → Parser (List Branch)) : Prop :=
  ∀ s branches rest, p s = .read branches rest → Ends [')', '"'] rest →
    ∀ rest', Recast rest rest' → Recast s (Branch.writtenChoice branches ++ rest') ∧
      ∀ n, (Branch.writtenChoice branches ++ rest').length < n →
        again n (Branch.writtenChoice branches ++ rest') =
          .read (Branch.fusedChoice branches) rest'

section

variable {p : Nesting → Parser (List Branch)} {again : Nat → Nesting → Parser (List Branch)}

/-- A piece is read back as soon as the choices nested in it are. -/
theorem piece_readBack (h : ∀ nesting, ChoiceReadBack (p nesting) fun n => again n nesting)
    {nesting : Nesting} {s mid v : List Char} {piece : Piece}
    (hread : pieceOf p nesting s = .read piece mid) (hv : Recast mid v)
    (hrow : ∀ atoms, many atom s = .read atoms mid → Ends ['(', '|', ')', '"'] mid) :
    Recast s (Piece.written piece ++ v) ∧ Piece.written piece ≠ [] ∧
      ∀ n, (Piece.written piece ++ v).length ≤ n →
        pieceOf (again n) nesting (Piece.written piece ++ v) = .read (Piece.fused piece) v := by
  rcases pieceOf_eq_read hread with ⟨cs, rfl, hcs⟩ | ⟨branches, inside, rfl, hlook, rfl, hfull,
    hchoice⟩ | ⟨atoms, hne, rfl, hhead, hatoms⟩
  · obtain ⟨rfl, hverbatim, hback⟩ := look_readBack hcs
    have hwritten : Piece.written (.look (String.ofList cs)) = cs := by
      simp [Piece.written]
    rw [hwritten]
    refine ⟨hverbatim _ _ hv, ?_, fun n _ => pieceOf_look (hback _)⟩
    rintro rfl
    obtain ⟨body, hbody, -⟩ := look_eq_read.mp hcs
    simp at hbody
  · obtain ⟨hinside, hback⟩ := h nesting.deeper inside branches (')' :: mid) hchoice
      (ends_cons.mpr (by decide)) _ (.plain (by decide) (by decide) hv)
    have hwritten : Piece.written (.group branches) ++ v =
        '(' :: (Branch.writtenChoice branches ++ ')' :: v) := by
      simp [Piece.written]
    rw [hwritten]
    have hrecast := Recast.plain (show '(' ≠ '"' by decide) (by decide) hinside
    refine ⟨hrecast, by simp [Piece.written], ?_⟩
    intro n hn
    rw [List.length_cons] at hn
    exact pieceOf_group (look_miss hrecast hlook) hfull (hback n (by omega))
  · have hends := hrow atoms hatoms
    obtain ⟨hrecast, hback⟩ := row_readBack hatoms hends hv
    have hhead' : (atoms.flatMap Atom.written ++ v).head? ≠ some '(' := by
      rw [hrecast.head?_eq]
      exact hhead
    have hwritten : Piece.written (.row atoms) = atoms.flatMap Atom.written := by
      rw [Piece.written]
    rw [hwritten]
    exact ⟨hrecast, row_written_ne_nil hne hatoms hends hv,
      fun n _ => pieceOf_row (fuse_ne_nil hne) hhead' hback⟩

/-- A branch is read back as soon as the choices nested in it are. -/
theorem branch_readBack (h : ∀ nesting, ChoiceReadBack (p nesting) fun n => again n nesting)
    {nesting : Nesting} {s rest rest' : List Char} {branch : Branch}
    (hread : many (pieceOf p nesting) s = .read branch rest) (hend : Ends ['|', ')', '"'] rest)
    (hrest : Recast rest rest') :
    Recast s (Branch.written branch ++ rest') ∧
      ∀ n, (Branch.written branch ++ rest').length ≤ n →
        many (pieceOf (again n) nesting) (Branch.written branch ++ rest') =
          .read (Branch.fused branch) rest' := by
  have hend' : Ends ['|', ')', '"'] rest' := by
    intro c hc
    exact hend c (by rw [← hrest.head?_eq, hc])
  induction branch generalizing s with
  | nil =>
    obtain rfl := many_eq_read_nil hread
    exact ⟨hrest, fun n _ => many_of_miss (pieceOf_of_ends hend')⟩
  | cons piece branch ih =>
    obtain ⟨mid, hpiece, -, hmore⟩ := many_eq_read_cons.mp hread
    obtain ⟨hmid, hagain⟩ := ih hmore
    obtain ⟨hrecast, hne, hfirst⟩ := piece_readBack h hpiece hmid
      fun atoms hatoms => ends_of_row hatoms hmore hend
    rw [Branch.written, Branch.fused, List.append_assoc]
    refine ⟨hrecast, ?_⟩
    intro n hn
    have hshort := length_lt_append hne (Branch.written branch ++ rest')
    exact many_eq_read_cons.mpr ⟨_, hfirst n hn, hshort, hagain n (by omega)⟩

theorem writtenChoice_cons (branch : Branch) (branches : List Branch) :
    Branch.writtenChoice (branch :: branches) =
      Branch.written branch ++ branches.flatMap fun next => '|' :: Branch.written next := by
  rw [Branch.writtenChoice_eq_joined, List.map_cons, joined_cons, List.flatMap_map]
  rfl

/-- The branches behind the first one are read back as soon as the choices nested in them are. -/
theorem branches_readBack (h : ∀ nesting, ChoiceReadBack (p nesting) fun n => again n nesting)
    {nesting : Nesting} {s rest rest' : List Char} {branches : List Branch}
    (hread : many (char '|' >>= fun _ => many (pieceOf p nesting)) s = .read branches rest)
    (hend : Ends [')', '"'] rest) (hrest : Recast rest rest') :
    Ends ['|', ')', '"'] s ∧
      Recast s ((branches.flatMap fun next => '|' :: Branch.written next) ++ rest') ∧
      ∀ n, ((branches.flatMap fun next => '|' :: Branch.written next) ++ rest').length ≤ n →
        many (char '|' >>= fun _ => many (pieceOf (again n) nesting))
            ((branches.flatMap fun next => '|' :: Branch.written next) ++ rest') =
          .read (branches.map Branch.fused) rest' := by
  induction branches generalizing s with
  | nil =>
    obtain rfl := many_eq_read_nil hread
    refine ⟨hend.mono (by decide), hrest, ?_⟩
    intro n _
    refine many_of_miss (bind_of_miss (char_eq_miss.mpr ?_) _)
    change rest'.head? ≠ _
    rw [hrest.head?_eq]
    exact hend.head?_ne (by decide)
  | cons branch branches ih =>
    obtain ⟨mid, hbranch, -, hmore⟩ := many_eq_read_cons.mp hread
    obtain ⟨_, inside, hbar, hinside⟩ := bind_eq_read.mp hbranch
    obtain ⟨-, rfl⟩ := char_eq_read.mp hbar
    obtain ⟨hends, hmid, hagain⟩ := ih hmore
    obtain ⟨hrecast, hback⟩ := branch_readBack h hinside hends hmid
    rw [List.flatMap_cons, List.append_assoc, List.cons_append]
    refine ⟨ends_cons.mpr (by decide), .plain (by decide) (by decide) hrecast, ?_⟩
    intro n hn
    simp only [List.length_cons, List.length_append] at hn
    refine many_eq_read_cons.mpr ⟨_, ?_, ?_, hagain n ?_⟩
    · rw [bind_of_read (char_cons _ _)]
      refine hback n ?_
      simp only [List.length_append]
      omega
    · simp only [List.length_cons, List.length_append]
      omega
    · simp only [List.length_append]
      omega

end

/-- A choice is read back fused. -/
theorem choice_readBack (nesting : Nesting) :
    ChoiceReadBack (choice nesting) fun _ => choice nesting := by
  refine reads_recursive (fun nesting s branches rest => Ends [')', '"'] rest →
    ∀ rest', Recast rest rest' → Recast s (Branch.writtenChoice branches ++ rest') ∧
      ∀ n, (Branch.writtenChoice branches ++ rest').length < n →
        choice nesting (Branch.writtenChoice branches ++ rest') =
          .read (Branch.fusedChoice branches) rest') ?_ nesting
  intro p hp nesting s branches rest hread hend rest' hrest
  have hinner : ∀ deeper, ChoiceReadBack (p deeper) fun n => shorter n (choice deeper) := by
    intro deeper t branches rest hread hend rest' hrest
    obtain ⟨hrecast, hback⟩ := hp deeper t branches rest hread hend rest' hrest
    exact ⟨hrecast, fun n hn => shorter_eq_read.mpr ⟨hn, hback n hn⟩⟩
  obtain ⟨branch, mid, more, rfl, hbranch, hmore⟩ := sepBy1_eq_read.mp hread
  obtain ⟨hends, hmid, hagain⟩ := branches_readBack hinner hmore hend hrest
  obtain ⟨hrecast, hback⟩ := branch_readBack hinner hbranch hends hmid
  rw [writtenChoice_cons, List.append_assoc]
  refine ⟨hrecast, ?_⟩
  intro n _
  refine (recursive_eq _ nesting _).trans ?_
  rw [Branch.fusedChoice_eq_map, List.map_cons]
  refine sepBy1_eq_read.mpr ⟨_, _, _, rfl, hback _ (Nat.le_refl _), hagain _ ?_⟩
  simp only [List.length_append]
  omega

end Regex

theorem Regex.opensWith_quoted {nesting : Nesting} : OpensWith ['"'] (Regex.quoted nesting) :=
  (opensWith_char '"').between _ _

/-- A quoted expression is read back fused, whatever follows its closing quote. -/
theorem Regex.quoted_readBack {nesting : Nesting} {s rest : List Char} {regex : Regex}
    (h : Regex.quoted nesting s = .read regex rest) (rest' : List Char) :
    Regex.quoted nesting (regex.quotedText ++ rest') = .read regex.fused rest' := by
  obtain ⟨_, inside, _, after, -, hregex, hclose⟩ := between_eq_read.mp h
  obtain ⟨-, rfl⟩ := char_eq_read.mp hclose
  obtain ⟨branches, rfl, hchoice⟩ := map_eq_read.mp hregex
  obtain ⟨-, hback⟩ := Regex.choice_readBack nesting inside branches _ hchoice
    (ends_cons.mpr (by decide)) _ (.close rest rest')
  have htext : (Regex.mk branches).quotedText ++ rest' =
      '"' :: (Regex.Branch.writtenChoice branches ++ '"' :: rest') := by
    simp [Regex.quotedText, Regex.written]
  rw [htext]
  refine between_eq_read.mpr ⟨'"', _, '"', _, char_cons _ _, ?_, char_cons _ _⟩
  exact map_eq_read.mpr ⟨_, rfl, hback _ (Nat.lt_succ_self _)⟩

end CorpusCost
