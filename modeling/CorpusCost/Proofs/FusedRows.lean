import CorpusCost.Regex.Printer

/-!
# Rows that are written alike

Counting bounds with equal ends are written with one number. Behind the escape `\p` or `\P` they
then look like the name of a property in curly brackets, and the two atoms come back as one. This
is the only way in which the written form of an expression stands for another expression: `fused`
is the expression it stands for, and `KeptApart` says when that is the expression itself.
-/

set_option autoImplicit false

namespace CorpusCost

namespace Regex

/-! ## Rows of atoms -/

/-- Whether two atoms in a row are written like a property class: the escape `\p` or `\P`, and
bounds with equal ends. -/
def Atom.fuses : Atom → Atom → Bool
  | .symbol (.literal text false), .bounds range =>
    (text == "\\p" || text == "\\P") && range.hi == some range.lo
  | _, _ => false

/-- A row of atoms as its written form is read. -/
def fuse : List Atom → List Atom
  | [] => []
  | [a] => [a]
  | a :: b :: atoms =>
    if a.fuses b then .symbol (.literal (String.ofList (a.written ++ b.written)) true) :: fuse atoms
    else a :: fuse (b :: atoms)

/-- Two atoms that fuse are an escape and bounds with equal ends. -/
theorem Atom.fuses_eq_true {a b : Atom} (h : a.fuses b = true) :
    ∃ (text : String) (n : Nat), (text = "\\p" ∨ text = "\\P") ∧
      a = .symbol (.literal text false) ∧ b = .bounds ⟨n, some n⟩ := by
  unfold Atom.fuses at h
  split at h
  · next text range =>
    obtain ⟨lo, hi⟩ := range
    simp only [Bool.and_eq_true, Bool.or_eq_true, beq_iff_eq] at h
    obtain ⟨htext, rfl⟩ := h
    exact ⟨text, lo, htext, rfl, rfl⟩
  · simp at h

theorem length_fuse_le (atoms : List Atom) : (fuse atoms).length ≤ atoms.length := by
  induction atoms using fuse.induct with
  | case1 => simp [fuse]
  | case2 a => simp [fuse]
  | case3 a b atoms hfuses ih =>
    rw [fuse, if_pos hfuses]
    simp only [List.length_cons]
    omega
  | case4 a b atoms hfuses ih =>
    rw [fuse, if_neg hfuses]
    simp only [List.length_cons] at ih ⊢
    omega

theorem fuse_ne_nil {atoms : List Atom} (h : atoms ≠ []) : fuse atoms ≠ [] := by
  cases atoms with
  | nil => exact absurd rfl h
  | cons a atoms =>
    cases atoms with
    | nil => exact List.cons_ne_nil _ _
    | cons b atoms =>
      rw [fuse]
      split <;> exact List.cons_ne_nil _ _

/-- A row comes back as it is exactly where no two neighbours fuse. -/
theorem fuse_eq_self_iff {atoms : List Atom} :
    fuse atoms = atoms ↔ ∀ a b, [a, b] <:+: atoms → a.fuses b = false := by
  induction atoms using fuse.induct with
  | case1 => simp [fuse]
  | case2 a =>
    refine ⟨?_, fun _ => rfl⟩
    intro _ b c hinfix
    have hlength := hinfix.length_le
    simp at hlength
  | case3 a b atoms hfuses ih =>
    constructor
    · intro hself
      have hle := length_fuse_le atoms
      rw [fuse, if_pos hfuses] at hself
      have hlength := congrArg List.length hself
      simp only [List.length_cons] at hlength
      omega
    · intro hapart
      have hhead := hapart a b ⟨[], atoms, rfl⟩
      rw [hhead] at hfuses
      exact absurd hfuses (by simp)
  | case4 a b atoms hfuses ih =>
    rw [fuse, if_neg hfuses, List.cons_eq_cons, and_iff_right rfl, ih]
    constructor
    · intro hapart c d hinfix
      rcases List.infix_cons_iff.mp hinfix with hprefix | hinfix
      · obtain ⟨rfl, hnext⟩ := List.cons_prefix_cons.mp hprefix
        obtain ⟨rfl, -⟩ := List.cons_prefix_cons.mp hnext
        simpa using hfuses
      · exact hapart c d hinfix
    · intro hapart c d hinfix
      exact hapart c d (List.infix_cons_iff.mpr (.inr hinfix))

/-! ## Expressions -/

mutual

/-- The rows of atoms in a piece. -/
def Piece.rows : Piece → List (List Atom)
  | .look _ => []
  | .group branches => Branch.rowsOfChoice branches
  | .row atoms => [atoms]

/-- The rows of atoms in the pieces of a branch. -/
def Branch.rows : List Piece → List (List Atom)
  | [] => []
  | piece :: branch => Piece.rows piece ++ Branch.rows branch

/-- The rows of atoms in a choice of branches. -/
def Branch.rowsOfChoice : List (List Piece) → List (List Atom)
  | [] => []
  | branch :: branches => Branch.rows branch ++ Branch.rowsOfChoice branches

end

mutual

/-- A piece as its written form is read. -/
def Piece.fused : Piece → Piece
  | .look text => .look text
  | .group branches => .group (Branch.fusedChoice branches)
  | .row atoms => .row (fuse atoms)

/-- The pieces of a branch as their written form is read. -/
def Branch.fused : List Piece → List Piece
  | [] => []
  | piece :: branch => Piece.fused piece :: Branch.fused branch

/-- A choice of branches as its written form is read. -/
def Branch.fusedChoice : List (List Piece) → List (List Piece)
  | [] => []
  | branch :: branches => Branch.fused branch :: Branch.fusedChoice branches

end

theorem Branch.fusedChoice_eq_map (branches : List Branch) :
    Branch.fusedChoice branches = branches.map Branch.fused := by
  induction branches with
  | nil => rfl
  | cons branch branches ih => rw [Branch.fusedChoice, ih, List.map_cons]

/-- In none of `rows` two neighbours fuse. -/
def RowsApart (rows : List (List Atom)) : Prop :=
  ∀ row ∈ rows, ∀ a b, [a, b] <:+: row → a.fuses b = false

@[simp] theorem rowsApart_nil : RowsApart [] := by
  intro row hrow
  simp at hrow

theorem rowsApart_append {rows more : List (List Atom)} :
    RowsApart (rows ++ more) ↔ RowsApart rows ∧ RowsApart more := by
  unfold RowsApart
  simp only [List.mem_append]
  constructor
  · intro h
    exact ⟨fun row hrow => h row (.inl hrow), fun row hrow => h row (.inr hrow)⟩
  · rintro ⟨hrows, hmore⟩ row (hrow | hrow)
    · exact hrows row hrow
    · exact hmore row hrow

mutual

theorem Piece.fused_eq_self_iff : (piece : Piece) →
    (Piece.fused piece = piece ↔ RowsApart (Piece.rows piece))
  | .look text => by simp [Piece.fused, Piece.rows]
  | .group branches => by
    rw [Piece.fused, Piece.rows, Piece.group.injEq]
    exact Branch.fusedChoice_eq_self_iff branches
  | .row atoms => by
    rw [Piece.fused, Piece.rows, Piece.row.injEq, fuse_eq_self_iff]
    simp [RowsApart]

theorem Branch.fused_eq_self_iff : (branch : List Piece) →
    (Branch.fused branch = branch ↔ RowsApart (Branch.rows branch))
  | [] => by simp [Branch.fused, Branch.rows]
  | piece :: branch => by
    rw [Branch.fused, Branch.rows, rowsApart_append, List.cons_eq_cons]
    exact and_congr (Piece.fused_eq_self_iff piece) (Branch.fused_eq_self_iff branch)

theorem Branch.fusedChoice_eq_self_iff : (branches : List (List Piece)) →
    (Branch.fusedChoice branches = branches ↔ RowsApart (Branch.rowsOfChoice branches))
  | [] => by simp [Branch.fusedChoice, Branch.rowsOfChoice]
  | branch :: branches => by
    rw [Branch.fusedChoice, Branch.rowsOfChoice, rowsApart_append, List.cons_eq_cons]
    exact and_congr (Branch.fused_eq_self_iff branch) (Branch.fusedChoice_eq_self_iff branches)

end

end Regex

/-- An expression as its written form is read. -/
def Regex.fused (regex : Regex) : Regex := ⟨Regex.Branch.fusedChoice regex.branches⟩

/-- No escape `\p` or `\P` of the expression stands directly before bounds with equal ends. -/
def Regex.KeptApart (regex : Regex) : Prop :=
  Regex.RowsApart (Regex.Branch.rowsOfChoice regex.branches)

/-- The written form of an expression stands for the expression itself exactly where no escape `\p`
or `\P` stands directly before bounds with equal ends. -/
theorem Regex.fused_eq_self_iff {regex : Regex} : regex.fused = regex ↔ regex.KeptApart := by
  obtain ⟨branches⟩ := regex
  rw [Regex.fused, Regex.KeptApart, Regex.mk.injEq]
  exact Regex.Branch.fusedChoice_eq_self_iff branches

end CorpusCost
