/-!
# Kinds of nodes

Every part of a query that a traversal stops at has one of these kinds. Their names are what
listings of a query show.
-/

set_option autoImplicit false

namespace CorpusCost

/-- The kind of a part of a query. -/
inductive Kind where
  /-- A whole query. -/
  | query
  /-- A choice of chains. -/
  | sequence
  /-- A chain of elements. -/
  | chain
  /-- An element of a chain, with its repetition. -/
  | element
  /-- What may be repeated. -/
  | atom
  /-- A token with or without a label. -/
  | position
  /-- A token with a label. -/
  | labelled
  /-- A token without its label. -/
  | token
  /-- Two tokens taken together. -/
  | pairing
  /-- Either of two tokens. -/
  | union
  /-- A token with another near it. -/
  | meet
  /-- A repetition. -/
  | repetition
  /-- The beginning of a structure. -/
  | opening
  /-- The end of a structure. -/
  | closing
  /-- A structure. -/
  | struct
  /-- Alternatives of conditions. -/
  | disjunction
  /-- Conditions that hold together. -/
  | conjunction
  /-- A condition on a token. -/
  | condition
  /-- A block. -/
  | block
  /-- The scope of a block. -/
  | scope
  /-- A number of tokens as a scope. -/
  | scopeNumber
  /-- A sequence in an aligned corpus. -/
  | aligned
  /-- All conditions across tokens. -/
  | globals
  /-- A condition across tokens. -/
  | globalCondition
  /-- A regular expression. -/
  | regex
  /-- A branch of an expression. -/
  | branch
  /-- A bracketed choice of branches. -/
  | group
  /-- An unbroken row of atoms. -/
  | row
  /-- A look-around. -/
  | look
  /-- A character class. -/
  | charClass
  /-- A member of a character class. -/
  | member
  /-- A symbol of an expression. -/
  | symbol
  /-- Counting bounds in an expression. -/
  | range
  /-- The numbers of counting bounds. -/
  | rangeBounds
  /-- A named class standing alone. -/
  | namedClass
  /-- The sign of an end of the word. -/
  | anchor
  /-- A repetition sign. -/
  | repeater
  /-- The sign for any character. -/
  | wildcard
  /-- A question mark. -/
  | questionMark
  /-- A literal text with its quotes. -/
  | quotedLiteral
  /-- A literal text. -/
  | literal
  /-- A letter of a literal text. -/
  | letter
  deriving DecidableEq, Repr

namespace Kind

/-- All kinds, from the query down. -/
def all : List Kind :=
  [.query, .sequence, .chain, .element, .atom, .position, .labelled, .token, .pairing, .union,
    .meet, .repetition, .opening, .closing, .struct, .disjunction, .conjunction, .condition,
    .block, .scope, .scopeNumber, .aligned, .globals, .globalCondition, .regex, .branch, .group,
    .row, .look, .charClass, .member, .symbol, .range, .rangeBounds, .namedClass, .anchor,
    .repeater, .wildcard, .questionMark, .quotedLiteral, .literal, .letter]

theorem mem_all (kind : Kind) : kind ∈ all := by
  cases kind <;> decide

/-- The name that listings show. -/
def name : Kind → String
  | .query => "Query"
  | .sequence => "Sequence"
  | .chain => "Seq"
  | .element => "Repetition"
  | .atom => "AtomQuery"
  | .position => "Position"
  | .labelled => "NumberedPosition"
  | .token => "OnePosition"
  | .pairing => "MuPart"
  | .union => "UnionOp"
  | .meet => "MeetOp"
  | .repetition => "RepOpt"
  | .opening => "OpenStructTag"
  | .closing => "CloseStructTag"
  | .struct => "Structure"
  | .disjunction => "AttValList"
  | .conjunction => "AttValAnd"
  | .condition => "AttVal"
  | .block => "WithinOrContaining"
  | .scope => "WithinContainingPart"
  | .scopeNumber => "WithinNumber"
  | .aligned => "AlignedPart"
  | .globals => "GlobPart"
  | .globalCondition => "GlobCond"
  | .regex => "RegExp"
  | .branch => "RegExpRaw"
  | .group => "RgGrouped"
  | .row => "RgSimple"
  | .look => "RgLook"
  | .charClass => "RgAlt"
  | .member => "RgAltVal"
  | .symbol => "RgChar"
  | .range => "RgRange"
  | .rangeBounds => "RgRangeSpec"
  | .namedClass => "RgPosixClass"
  | .anchor => "RgOp"
  | .repeater => "RgRepeat"
  | .wildcard => "RgAny"
  | .questionMark => "RgQM"
  | .quotedLiteral => "RawString"
  | .literal => "SimpleString"
  | .letter => "AnyLetter"

end Kind

end CorpusCost
