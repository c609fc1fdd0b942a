/-!
# Weight slots

The tunable constants of the cost model. A weight vector has one value for each slot, in the order
of `Slot.all`.
-/

set_option autoImplicit false

namespace CorpusCost

/-- A tunable constant of the cost model. -/
inductive Slot where
  /-- Scales the scope of a block. -/
  | scope
  /-- A condition across tokens. -/
  | globalCondition
  /-- A structure. -/
  | struct
  /-- Scales alternatives of conditions. -/
  | disjunction
  /-- Scales a token with a label. -/
  | labelled
  /-- Scales a regular expression. -/
  | regex
  /-- Scales two tokens taken together. -/
  | pairing
  /-- Scales an element. -/
  | element
  /-- Scales what may be repeated. -/
  | atom
  /-- A repetition without an upper end. -/
  | repetition
  /-- Scales the beginning of a structure. -/
  | opening
  /-- Scales the end of a structure. -/
  | closing
  /-- Scales a sequence in an aligned corpus. -/
  | aligned
  /-- Scales conditions that hold together. -/
  | conjunction
  /-- Scales a condition; also a condition on numbers. -/
  | condition
  /-- A number of tokens as a scope. -/
  | scopeNumber
  /-- Scales a branch of an expression. -/
  | branch
  /-- Scales a literal text with its quotes. -/
  | quotedLiteral
  /-- Scales a literal text. -/
  | literal
  /-- Scales a bracketed choice of branches. -/
  | group
  /-- Scales an unbroken row of atoms. -/
  | row
  /-- A named class standing alone. -/
  | namedClass
  /-- A look-around. -/
  | look
  /-- Scales a character class. -/
  | charClass
  /-- Scales counting bounds. -/
  | range
  /-- The numbers of counting bounds. -/
  | rangeBounds
  /-- A letter of a literal text. -/
  | letter
  /-- The sign of an end of the word. -/
  | anchor
  /-- Scales a member of a class; also an escape or a span in one. -/
  | member
  /-- The sign for any character. -/
  | wildcard
  /-- A question mark. -/
  | questionMark
  /-- A repetition sign. -/
  | repeater
  /-- A symbol that stands for fixed text. -/
  | symbol
  /-- A property class. -/
  | propertyClass
  /-- A token without conditions. -/
  | anyToken
  /-- A repetition with an upper end. -/
  | boundedRepetition
  /-- An extra factor for a condition on an attribute with few values. -/
  | smallAttribute
  deriving DecidableEq, Repr

namespace Slot

/-- All slots, in the order of a weight vector. -/
def all : List Slot :=
  [.scope, .globalCondition, .struct, .disjunction, .labelled, .regex, .pairing, .element, .atom,
    .repetition, .opening, .closing, .aligned, .conjunction, .condition, .scopeNumber, .branch,
    .quotedLiteral, .literal, .group, .row, .namedClass, .look, .charClass, .range, .rangeBounds,
    .letter, .anchor, .member, .wildcard, .questionMark, .repeater, .symbol, .propertyClass,
    .anyToken, .boundedRepetition, .smallAttribute]

/-- The number of slots. -/
def count : Nat := 37

/-- The place of a slot in a weight vector. -/
def index (slot : Slot) : Fin count :=
  ⟨slot.ctorIdx, by cases slot <;> decide⟩

@[simp] theorem length_all : all.length = count := rfl

theorem getElem?_all_index (slot : Slot) : all[slot.index.val]? = some slot := by
  cases slot <;> rfl

theorem mem_all (slot : Slot) : slot ∈ all :=
  List.mem_of_getElem? (getElem?_all_index slot)

theorem index_injective {slot other : Slot} (h : slot.index = other.index) : slot = other := by
  have hslot := getElem?_all_index slot
  rw [h, getElem?_all_index other] at hslot
  exact (Option.some.inj hslot).symm

/-- The name that tables of weights show. -/
def name : Slot → String
  | .scope => "WithinContainingPart"
  | .globalCondition => "GlobCond"
  | .struct => "Structure"
  | .disjunction => "AttValList"
  | .labelled => "NumberedPosition"
  | .regex => "RegExp"
  | .pairing => "MuPart"
  | .element => "Repetition"
  | .atom => "AtomQuery"
  | .repetition => "RepOpt"
  | .opening => "OpenStructTag"
  | .closing => "CloseStructTag"
  | .aligned => "AlignedPart"
  | .conjunction => "AttValAnd"
  | .condition => "AttVal"
  | .scopeNumber => "WithinNumber"
  | .branch => "RegExpRaw"
  | .quotedLiteral => "RawString"
  | .literal => "SimpleString"
  | .group => "RgGrouped"
  | .row => "RgSimple"
  | .namedClass => "RgPosixClass"
  | .look => "RgLook"
  | .charClass => "RgAlt"
  | .range => "RgRange"
  | .rangeBounds => "RgRangeSpec"
  | .letter => "AnyLetter"
  | .anchor => "RgOp"
  | .member => "RgAltVal"
  | .wildcard => "RgAny"
  | .questionMark => "RgQM"
  | .repeater => "RgRepeat"
  | .symbol => "RgChar"
  | .propertyClass => "UnicodeClass"
  | .anyToken => "AnyPosition"
  | .boundedRepetition => "BoundedRepOpt"
  | .smallAttribute => "SmallCardAttr"

end Slot

end CorpusCost
