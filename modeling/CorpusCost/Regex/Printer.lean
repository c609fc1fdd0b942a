import CorpusCost.Regex.Basic
import CorpusCost.Text.Joined

/-!
# Regular expressions as text

The written form of each part of a regular expression. Everything except counting bounds is
written exactly as it was read; bounds with equal ends are written with one number.
-/

set_option autoImplicit false

namespace CorpusCost

open Text (joined natural)

/-- Bounds in curly brackets; an upper end equal to the lower one is left out with its comma. -/
def Bounds.written (bounds : Bounds) : List Char :=
  match bounds.hi with
  | none => '\x7b' :: natural bounds.lo ++ [',', '\x7d']
  | some hi =>
    if bounds.lo = hi then '\x7b' :: natural hi ++ ['\x7d']
    else '\x7b' :: natural bounds.lo ++ ',' :: natural hi ++ ['\x7d']

namespace Regex

/-- A symbol as written. -/
def Symbol.written : Symbol → List Char
  | .literal text _ => text.toList
  | .anchor sign => [sign]
  | .repeater sign => [sign]
  | .any => ['.']
  | .questionMark => ['?']

/-- A member of a character class as written. -/
def Member.written : Member → List Char
  | .symbol sign => sign.written
  | .escaped text => text.toList
  | .span first last => [first, '-', last]

/-- A character class as written, with its square brackets. -/
def CharClass.written (charClass : CharClass) : List Char :=
  '[' :: (if charClass.negated then ['^'] else []) ++
    charClass.members.flatMap Member.written ++ [']']

/-- An atom as written. -/
def Atom.written : Atom → List Char
  | .bounds range => range.written
  | .symbol sign => sign.written
  | .charClass members => members.written
  | .namedClass name => ['[', '[', ':'] ++ name.toList ++ [':', ']', ']']

mutual

/-- A piece as written. -/
def Piece.written : Piece → List Char
  | .look text => text.toList
  | .group branches => '(' :: Branch.writtenChoice branches ++ [')']
  | .row atoms => atoms.flatMap Atom.written

/-- The pieces of a branch as written, one after the other. -/
def Branch.written : List Piece → List Char
  | [] => []
  | piece :: branch => Piece.written piece ++ Branch.written branch

/-- Branches as written, with a bar between any two. -/
def Branch.writtenChoice : List (List Piece) → List Char
  | [] => []
  | [branch] => Branch.written branch
  | branch :: branches => Branch.written branch ++ '|' :: Branch.writtenChoice branches

end

theorem Branch.written_eq_flatMap (branch : Branch) :
    Branch.written branch = branch.flatMap Piece.written := by
  induction branch with
  | nil => rfl
  | cons piece branch ih => simp [Branch.written, ih]

theorem Branch.writtenChoice_eq_joined (branches : List Branch) :
    Branch.writtenChoice branches = joined ['|'] (branches.map Branch.written) := by
  induction branches with
  | nil => rfl
  | cons branch branches ih =>
    cases branches with
    | nil => rfl
    | cons next branches =>
      rw [List.map_cons, List.map_cons, Text.joined_cons_cons, ← List.map_cons, ← ih]
      simp [Branch.writtenChoice]

end Regex

/-- A regular expression as written, without quotes. -/
def Regex.written (regex : Regex) : List Char := Regex.Branch.writtenChoice regex.branches

end CorpusCost
