import CorpusCost.Parser.Lexeme

/-!
# Regular expressions

The tree of a quoted regular expression. An expression is a choice of branches, a branch a row of
pieces, and a piece a look-around kept as written, a bracketed choice of branches, or an unbroken
row of atoms. Trees are compared for equality.
-/

set_option autoImplicit false

namespace CorpusCost

namespace Regex

/-- A character of an expression. -/
inductive Symbol where
  /-- Stands for itself, or for an escape or a property class kept as written. -/
  | literal (text : String) (propertyClass : Bool)
  /-- An end of the word, `^` or `$`. -/
  | anchor (sign : Char)
  /-- A repetition sign, `*` or `+`. -/
  | repeater (sign : Char)
  /-- Any one character, `.`. -/
  | any
  /-- The sign `?`. -/
  | questionMark
  deriving DecidableEq, Repr

/-- The character `c`, standing for itself. -/
def Symbol.ofChar (c : Char) : Symbol := .literal (String.singleton c) false

/-- Whether the symbol stands for fixed text. -/
def Symbol.isConstant : Symbol → Bool
  | .literal _ _ => true
  | _ => false

/-- Whether the symbol is a property class such as `\pL`. -/
def Symbol.isPropertyClass : Symbol → Bool
  | .literal _ propertyClass => propertyClass
  | _ => false

/-- A member of a character class. -/
inductive Member where
  /-- One symbol. -/
  | symbol (symbol : Symbol)
  /-- An escape or a named class, kept as written. -/
  | escaped (text : String)
  /-- All characters from `first` to `last`. -/
  | span (first last : Char)
  deriving DecidableEq, Repr

/-- A character class in square brackets. -/
structure CharClass where
  /-- Whether the class stands for the characters outside it. -/
  negated : Bool
  /-- What the brackets hold, in order. -/
  members : List Member
  deriving DecidableEq, Repr

/-- A part of an unbroken row. -/
inductive Atom where
  /-- Counting bounds. -/
  | bounds (bounds : Bounds)
  /-- One symbol. -/
  | symbol (symbol : Symbol)
  /-- A character class. -/
  | charClass (charClass : CharClass)
  /-- A named class standing alone, by its name. -/
  | namedClass (name : String)
  deriving DecidableEq, Repr

/-- A piece of a branch. -/
inductive Piece where
  /-- A look-around or an inline flag with its brackets, kept as written. -/
  | look (text : String)
  /-- A bracketed choice of branches. -/
  | group (branches : List (List Piece))
  /-- An unbroken row of atoms. -/
  | row (atoms : List Atom)

/-- A row of pieces. -/
abbrev Branch := List Piece

/-! ## Equality of pieces -/

mutual

/-- Decides whether two pieces are equal. -/
def Piece.decEq : (p q : Piece) → Decidable (p = q)
  | .look s, .look t => decidable_of_iff (s = t) (by simp)
  | .row as, .row bs => decidable_of_iff (as = bs) (by simp)
  | .group ps, .group qs =>
    match Branch.decEqList ps qs with
    | isTrue h => isTrue (h ▸ rfl)
    | isFalse h => isFalse fun e => h (Piece.group.inj e)
  | .look _, .group _ => isFalse nofun
  | .look _, .row _ => isFalse nofun
  | .group _, .look _ => isFalse nofun
  | .group _, .row _ => isFalse nofun
  | .row _, .look _ => isFalse nofun
  | .row _, .group _ => isFalse nofun

/-- Decides whether two branches are equal. -/
def Branch.decEq : (ps qs : List Piece) → Decidable (ps = qs)
  | [], [] => isTrue rfl
  | [], _ :: _ => isFalse nofun
  | _ :: _, [] => isFalse nofun
  | p :: ps, q :: qs =>
    match Piece.decEq p q, Branch.decEq ps qs with
    | isTrue h, isTrue hs => isTrue (h ▸ hs ▸ rfl)
    | isFalse h, _ => isFalse fun e => h (List.cons.inj e).1
    | _, isFalse hs => isFalse fun e => hs (List.cons.inj e).2

/-- Decides whether two lists of branches are equal. -/
def Branch.decEqList : (ps qs : List (List Piece)) → Decidable (ps = qs)
  | [], [] => isTrue rfl
  | [], _ :: _ => isFalse nofun
  | _ :: _, [] => isFalse nofun
  | p :: ps, q :: qs =>
    match Branch.decEq p q, Branch.decEqList ps qs with
    | isTrue h, isTrue hs => isTrue (h ▸ hs ▸ rfl)
    | isFalse h, _ => isFalse fun e => h (List.cons.inj e).1
    | _, isFalse hs => isFalse fun e => hs (List.cons.inj e).2

end

instance : DecidableEq Piece := Piece.decEq

end Regex

/-- A regular expression: a choice of branches. -/
structure Regex where
  /-- The branches, in order. -/
  branches : List Regex.Branch
  deriving DecidableEq

end CorpusCost
